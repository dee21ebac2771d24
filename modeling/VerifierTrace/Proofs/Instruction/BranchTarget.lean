import Mathlib.Algebra.Group.Nat.Defs
import Mathlib.Algebra.Ring.Int.Defs
import VerifierTrace.Instruction.Basic
import VerifierTrace.Proofs.Grammar.Target

/-!
# Branch targets

The target of a jump `WritesOffset` when it is `pc`, a sign and decimal digits, of any number and
with any zeros in front. It is read as an offset exactly when the value that is written is a word
(`pcOffset?_eq_some_iff`).

The program counter that a jump names is found in two sums of words, first with the offset and then
with one. A sum on the way can leave the words only upwards, because a program counter is not
negative, and then the last sum leaves them as well; and a sum that is negative on the way may still
lead to zero. So the answer is the sum of integers wherever that is a program counter, and there is
none elsewhere (`Instruction.branchTarget?_is_exact`).
-/

set_option autoImplicit false
set_option relaxedAutoImplicit false

namespace VerifierTrace

/-! ### Offsets -/

/-- The target is written as an offset from the program counter: a sign and decimal digits after
`pc`. -/
def WritesOffset (target : String) (offset : Int) : Prop :=
  ∃ text, target.toList = "pc".toList ++ text ∧ Numeral.IsSigned text offset

/-- The offset that is read is the one that is written, as long as it is a word. -/
theorem pcOffset?_eq_some_iff {target : String} {offset : Int} :
    pcOffset? target = some offset ↔
      WritesOffset target offset ∧ -2 ^ 63 ≤ offset ∧ offset ≤ 2 ^ 63 - 1 := by
  have hword : ∀ text, Numeral.signed? 64 text = some offset ↔
      Numeral.IsSigned text offset ∧ -2 ^ 63 ≤ offset ∧ offset ≤ 2 ^ 63 - 1 := by
    intro text
    rw [SignedForm.signed?_eq_some_iff_isSigned, Numeral.fits_iff]
    exact and_congr_right fun _ ↦ and_congr_right fun _ ↦ Int.le_sub_one_iff.symm
  unfold pcOffset?
  constructor
  · intro hread
    split at hread
    · next text htarget =>
      obtain ⟨hsigned, hrange⟩ := (hword text).mp hread
      exact ⟨⟨text, htarget, hsigned⟩, hrange⟩
    · cases hread
  · rintro ⟨⟨text, htarget, hsigned⟩, hrange⟩
    rw [htarget]
    exact (hword text).mpr ⟨hsigned, hrange⟩

/-! ### Sums of words -/

/-- One more than the sum of a program counter and an offset. The sum on the way is a word whenever
the last one is. -/
theorem Word.sum?_sum?_one_eq_some_iff {pc offset target : Int64} (hpc : 0 ≤ pc.toInt) :
    ((sum? pc offset).bind fun sum ↦ sum? sum 1) = some target ↔
      target.toInt = pc.toInt + offset.toInt + 1 := by
  have hone : (1 : Int64).toInt = 1 := rfl
  have hlow := offset.le_toInt
  have hhigh := target.toInt_lt
  simp only [Option.bind_eq_some_iff, sum?_eq_some_iff, hone]
  constructor
  · rintro ⟨sum, hsum, htarget⟩
    rw [htarget, hsum]
  · intro htarget
    have hsum : (Int64.ofInt (pc.toInt + offset.toInt)).toInt = pc.toInt + offset.toInt :=
      Int64.toInt_ofInt_of_le (by omega) (by omega)
    exact ⟨Int64.ofInt (pc.toInt + offset.toInt), hsum, by rw [hsum, htarget]⟩

namespace Instruction

theorem jump?_eq_some_iff {instruction : Instruction} {jump : Jump} :
    instruction.jump? = some jump ↔ instruction.operation = .jump jump := by
  unfold jump?
  cases instruction.operation with
  | assignment assignment => simp
  | jump found => simp

/-- The offset of a target is a sign and digits after `pc` whose value is an integer of 64 bits. The
program counter that a jump names by it is the sum of the own one, one and the offset, and there is
one exactly when the own counter and the sum are below `2 ^ 63` and the sum is not negative. -/
theorem branchTarget?_is_exact :
    (∀ target offset, pcOffset? target = some offset ↔
      WritesOffset target offset ∧ -2 ^ 63 ≤ offset ∧ offset ≤ 2 ^ 63 - 1) ∧
    ∀ (instruction : Instruction) (target : Nat), instruction.branchTarget? = some target ↔
      ∃ jump offset pc, instruction.operation = .jump jump ∧
        (WritesOffset jump.target offset ∧ -2 ^ 63 ≤ offset ∧ offset ≤ 2 ^ 63 - 1) ∧
        instruction.pc = some pc ∧ pc < 2 ^ 63 ∧
        (0 ≤ (pc : Int) + 1 + offset ∧ (pc : Int) + 1 + offset < 2 ^ 63) ∧
        (target : Int) = pc + 1 + offset := by
  refine ⟨fun target offset ↦ pcOffset?_eq_some_iff, fun instruction target ↦ ?_⟩
  simp only [branchTarget?, Option.bind_eq_bind, Option.bind_eq_some_iff, jump?_eq_some_iff,
    Word.ofNat?_eq_some_iff, Word.toNat?_eq_some_iff]
  constructor
  · rintro ⟨pc, hpc, word, hword, jump, hjump, offset, hoffset, sum, hsum, last, hlast, htarget⟩
    have hlimits := pcOffset?_eq_some_iff.mp hoffset
    have hvalue : (Int64.ofInt offset).toInt = offset :=
      Int64.toInt_ofInt_of_le hlimits.2.1 (by omega)
    have hsmall := word.toInt_lt
    have hbound := last.toInt_lt
    have hexact := (Word.sum?_sum?_one_eq_some_iff (by omega)).mp
      (Option.bind_eq_some_iff.mpr ⟨sum, hsum, hlast⟩)
    exact ⟨jump, offset, pc, hjump, hlimits, hpc, by omega, by omega, by omega⟩
  · rintro ⟨jump, offset, pc, hjump, hlimits, hpc, hsmall, hrange, htarget⟩
    have hword : (Int64.ofNat pc).toInt = pc := Int64.toInt_ofNat_of_lt hsmall
    have hvalue : (Int64.ofInt offset).toInt = offset :=
      Int64.toInt_ofInt_of_le hlimits.2.1 (by omega)
    have hlast : (Int64.ofNat target).toInt = target := Int64.toInt_ofNat_of_lt (by omega)
    have hexact : (Int64.ofNat target).toInt =
        (Int64.ofNat pc).toInt + (Int64.ofInt offset).toInt + 1 := by omega
    obtain ⟨sum, hsum, hone⟩ := Option.bind_eq_some_iff.mp
      ((Word.sum?_sum?_one_eq_some_iff (by omega)).mpr hexact)
    exact ⟨pc, hpc, Int64.ofNat pc, hword, jump, hjump, offset,
      pcOffset?_eq_some_iff.mpr hlimits, sum, hsum, Int64.ofNat target, hone, hlast⟩

/-- A negative sum on the way, and digits of which no word is made until the sign is put to them. -/
example : (Instruction.mk (some 5) ⟨5⟩ (.jump ⟨.unconditional, "pc-06", none, none⟩)
    ⟨0, 0⟩).branchTarget? = some 0 := by
  decide

end Instruction

end VerifierTrace
