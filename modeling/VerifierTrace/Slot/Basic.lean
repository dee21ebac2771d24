import VerifierTrace.DecodeError
import VerifierTrace.Text.Numeral

/-!
# Storage slots

A slot is a register, a stack slot at an offset from the frame pointer, or the memory: everything
outside the stack is one opaque slot. The 32-bit view `w3` of a register names the slot of `r3`.

`Slot.text` is the canonical name of a slot, and `Slot.ofText` reads the names that occur in a log,
in either case. Slots are ordered by `rank`: the registers by number, then the stack slots by
offset, then the memory. `rank_injective` makes this a linear order.
-/

set_option autoImplicit false
set_option relaxedAutoImplicit false

namespace VerifierTrace

inductive Slot
  | register (number : UInt8)
  | stack (offset : Int32)
  | memory
  deriving DecidableEq, Repr

namespace Slot

/-- The number of the last register, which is the frame pointer. -/
def framePointerNumber : UInt8 := 10

def framePointer : Slot := .register framePointerNumber

/-- The register that holds the result of a call. -/
def returnValue : Slot := .register 0

/-- The registers `r1` to `r5`, which carry arguments and do not survive a call. -/
def arguments : List Slot :=
  [.register 1, .register 2, .register 3, .register 4, .register 5]

/-- The registers `r6` to `r9`, which a caller finds again after a call. -/
def calleeSaved : List Slot :=
  [.register 6, .register 7, .register 8, .register 9]

/-! ### Names -/

/-- The canonical name: `r` and a number, `fp` and a signed offset, or `MEM`. -/
def text : Slot → String
  | .register number => "r" ++ Numeral.text number.toNat
  | .stack offset =>
    (if offset.toInt < 0 then "fp-" else "fp+") ++ Numeral.text offset.toInt.natAbs
  | .memory => "MEM"

/-- The slot of a register number. -/
def ofRegister (number : Nat) : Except DecodeError Slot :=
  if number ≤ framePointerNumber.toNat then .ok (.register (UInt8.ofNat number))
  else .error (.registerOutOfRange number)

/-- The number in a register name: one or two decimal digits. -/
def registerNumber? (digits : List Char) : Option Nat :=
  if digits.length ≤ 2 then Numeral.decimal? 8 digits else none

/-- Reads a slot name in either case: `r0` to `r10`, `w0` to `w9`, `fp` with a signed offset, or
`mem`. The frame pointer has no 32-bit view, so `w10` is no name; a register above the last one is
a name of a register that does not exist. -/
def ofText (name : String) : Except DecodeError Slot :=
  match name.toList.map Char.toLower with
  | ['m', 'e', 'm'] => .ok .memory
  | 'f' :: 'p' :: offset =>
    match Numeral.signed? 32 offset with
    | some value => .ok (.stack (Int32.ofInt value))
    | none => .error (.invalidSlot name)
  | 'r' :: digits =>
    match registerNumber? digits with
    | some number => ofRegister number
    | none => .error (.invalidSlot name)
  | 'w' :: digits =>
    match registerNumber? digits with
    | some number =>
      if number = framePointerNumber.toNat then .error (.invalidSlot name) else ofRegister number
    | none => .error (.invalidSlot name)
  | _ => .error (.invalidSlot name)

/-! ### Order -/

/-- The place of a slot in the order. -/
def rank : Slot → Nat
  | .register number => number.toNat
  | .stack offset => 0x100 + (offset.toInt + 0x80000000).toNat
  | .memory => 0x100 + 0x100000000

instance : LT Slot := ⟨fun first second ↦ first.rank < second.rank⟩

instance (first second : Slot) : Decidable (first < second) :=
  inferInstanceAs (Decidable (first.rank < second.rank))

theorem lt_iff_rank {first second : Slot} : first < second ↔ first.rank < second.rank := Iff.rfl

theorem rank_injective {first second : Slot} (hsame : first.rank = second.rank) :
    first = second := by
  have hregisters : ∀ number : UInt8, number.toNat < 2 ^ 8 := UInt8.toNat_lt
  have hlower : ∀ offset : Int32, -2 ^ 31 ≤ offset.toInt := Int32.le_toInt
  have hupper : ∀ offset : Int32, offset.toInt < 2 ^ 31 := Int32.toInt_lt
  cases first with
  | register number =>
    have := hregisters number
    cases second with
    | register number' => exact congrArg _ (UInt8.toNat_inj.1 hsame)
    | stack offset => simp only [rank] at hsame; omega
    | memory => simp only [rank] at hsame; omega
  | stack offset =>
    have := hlower offset
    have := hupper offset
    cases second with
    | register number => have := hregisters number; simp only [rank] at hsame; omega
    | stack offset' =>
      have := hlower offset'
      have := hupper offset'
      simp only [rank] at hsame
      exact congrArg _ (Int32.toInt_inj.1 (by omega))
    | memory => simp only [rank] at hsame; omega
  | memory =>
    cases second with
    | register number => have := hregisters number; simp only [rank] at hsame; omega
    | stack offset => have := hupper offset; have := hlower offset; simp only [rank] at hsame; omega
    | memory => rfl

theorem lt_irrefl (slot : Slot) : ¬ slot < slot :=
  Nat.lt_irrefl _

theorem lt_trans {first second third : Slot} (hleft : first < second) (hright : second < third) :
    first < third :=
  Nat.lt_trans (lt_iff_rank.1 hleft) (lt_iff_rank.1 hright)

theorem ne_of_lt {first second : Slot} (hless : first < second) : first ≠ second := by
  rintro rfl
  exact lt_irrefl _ hless

theorem lt_of_not_lt_of_ne {first second : Slot} (hle : ¬ first < second)
    (hne : first ≠ second) : second < first :=
  Nat.lt_of_le_of_ne (Nat.le_of_not_lt hle) fun hsame ↦ hne (rank_injective hsame.symm)

end Slot

end VerifierTrace
