import VerifierTrace.Instruction.Basic
import VerifierTrace.Proofs.Grammar.Target
import VerifierTrace.Proofs.Text.Octets

/-!
# Names that are cut after their first octet

The number of a register and the digits of an offset are what follows the first octet of a name.
`Numeral.signedAt`, `pcOffsetAt` and `Slot.readAt` read names by such a cut, and they are left
without an answer when the cut falls inside a character. They look at what comes first before they
cut, and go on with a sign or a letter of ASCII only. So they always answer, and answer with what
the readers of characters give (`Numeral.signedAt_eq`, `pcOffsetAt_eq`, `Slot.readAt_eq`).
-/

set_option autoImplicit false
set_option relaxedAutoImplicit false

namespace VerifierTrace

open Scan

/-- Reads a sign and decimal digits, which are cut off after the sign. -/
def Numeral.signedAt (bits : Nat) (text : List Char) : Option (Option Int) :=
  match text.head?.bind Numeral.sign? with
  | none => some none
  | some sign => (dropOctets? 1 text).map fun digits ↦
    if Numeral.isNumeral Char.isDigit digits &&
        Numeral.fits bits (sign * Numeral.ofDigits 10 digits) then
      some (sign * Numeral.ofDigits 10 digits)
    else none

/-- Reads the offset in a target such as `pc+3`. -/
def pcOffsetAt (target : String) : Option (Option Int) :=
  match stripStart? ['p', 'c'] target.toList with
  | none => some none
  | some offset => Numeral.signedAt 64 offset

/-- Reads a slot name in either case. -/
def Slot.readAt (name : String) : Option (Except DecodeError Slot) :=
  let lower := name.toList.map Char.toLower
  if lower = ['m', 'e', 'm'] then some (.ok .memory)
  else
    match stripStart? ['f', 'p'] lower with
    | some offset => (Numeral.signedAt 32 offset).map fun
      | some value => .ok (.stack (Int32.ofInt value))
      | none => .error (.invalidSlot name)
    | none =>
      match (octetCodes lower).head? with
      | some 'r' => (dropOctets? 1 lower).map fun digits ↦
        match Slot.registerNumber? digits with
        | some number => Slot.ofRegister number
        | none => .error (.invalidSlot name)
      | some 'w' => (dropOctets? 1 lower).map fun digits ↦
        match Slot.registerNumber? digits with
        | some number =>
          if number = Slot.framePointerNumber.toNat then .error (.invalidSlot name)
          else Slot.ofRegister number
        | none => .error (.invalidSlot name)
      | _ => some (.error (.invalidSlot name))

/-- The first character is cut off when it is one of ASCII. -/
theorem dropOctets?_one {c : Char} (hascii : c.toNat < 128) (text : List Char) :
    dropOctets? 1 (c :: text) = some text := by
  have hcut := dropOctets?_octets_append [c] text
  have hone : octets [c] = 1 := by
    rw [← length_octetCodes, octetCodes_cons_of_lt hascii]
    rfl
  rwa [hone] at hcut

/-- A character of ASCII is the first octet of a text when it is its first character. -/
theorem head?_octetCodes_eq_some_iff {text : List Char} {c : Char} (hascii : c.toNat < 128) :
    (octetCodes text).head? = some c ↔ text.head? = some c := by
  cases text with
  | nil => exact Iff.rfl
  | cons first text =>
    by_cases hfirst : first.toNat < 128
    · rw [octetCodes_cons_of_lt hfirst]
      exact Iff.rfl
    · obtain ⟨code, others, hcodes, -, hwide⟩ :=
        exists_octetCodes_cons (Nat.le_of_not_lt hfirst) text
      rw [hcodes]
      refine iff_of_false ?_ ?_
      · rintro ⟨⟩
        exact Nat.not_le_of_gt hascii (hwide c List.mem_cons_self)
      · rintro ⟨⟩
        exact hfirst hascii

theorem Numeral.signedAt_eq (bits : Nat) (text : List Char) :
    Numeral.signedAt bits text = some (Numeral.signed? bits text) := by
  cases text with
  | nil => rfl
  | cons c digits =>
    rw [Numeral.signedAt, Numeral.signed?, List.head?_cons, Option.bind_some]
    cases hsign : Numeral.sign? c with
    | none => rfl
    | some factor =>
      obtain ⟨sign, rfl, -⟩ := Sign.sign?_eq_some_iff.mp hsign
      have hascii : sign.character.toNat < 128 := by cases sign <;> decide
      simp only [dropOctets?_one hascii, Option.map_some]

theorem pcOffsetAt_eq (target : String) : pcOffsetAt target = some (pcOffset? target) := by
  unfold pcOffsetAt pcOffset?
  split
  · next hnone =>
    split
    · next offset htarget =>
      rw [htarget] at hnone
      cases hnone
    · rfl
  · next offset hoffset =>
    have htarget : target.toList = 'p' :: 'c' :: offset := stripStart?_eq_some_iff.mp hoffset
    rw [htarget]
    exact Numeral.signedAt_eq 64 offset

theorem Slot.readAt_eq (name : String) : Slot.readAt name = some (Slot.ofText name) := by
  unfold Slot.ofText
  split
  · next hlower =>
    rw [Slot.readAt, hlower]
    rfl
  · next offset hlower =>
    have hword : stripStart? ['f', 'p'] ('f' :: 'p' :: offset) = some offset := rfl
    have hmemory : 'f' :: 'p' :: offset ≠ ['m', 'e', 'm'] := nofun
    cases hvalue : Numeral.signed? 32 offset <;>
      simp only [Slot.readAt, hlower, if_neg hmemory, hword, Numeral.signedAt_eq, hvalue,
        Option.map_some]
  · next digits hlower =>
    have hword : stripStart? ['f', 'p'] ('r' :: digits) = none := rfl
    have hascii : 'r'.toNat < 128 := by decide
    have hmemory : 'r' :: digits ≠ ['m', 'e', 'm'] := nofun
    cases hnumber : Slot.registerNumber? digits <;>
      simp only [Slot.readAt, hlower, if_neg hmemory, hword, octetCodes_cons_of_lt hascii,
        List.head?_cons, dropOctets?_one hascii, hnumber, Option.map_some]
  · next digits hlower =>
    have hword : stripStart? ['f', 'p'] ('w' :: digits) = none := rfl
    have hascii : 'w'.toNat < 128 := by decide
    have hmemory : 'w' :: digits ≠ ['m', 'e', 'm'] := nofun
    cases hnumber : Slot.registerNumber? digits <;>
      simp only [Slot.readAt, hlower, if_neg hmemory, hword, octetCodes_cons_of_lt hascii,
        List.head?_cons, dropOctets?_one hascii, hnumber, Option.map_some]
  · next hmemory hoffset hwhole hlow =>
    have hword : stripStart? ['f', 'p'] (name.toList.map Char.toLower) = none := by
      rw [Option.eq_none_iff_forall_ne_some]
      intro offset hfound
      exact hoffset offset (stripStart?_eq_some_iff.mp hfound)
    have hletter : ∀ c : Char, c.toNat < 128 →
        (∀ digits, name.toList.map Char.toLower ≠ c :: digits) →
          (octetCodes (name.toList.map Char.toLower)).head? ≠ some c := by
      intro c hascii hnone hfirst
      obtain ⟨digits, hdigits⟩ :=
        List.head?_eq_some_iff.mp ((head?_octetCodes_eq_some_iff hascii).mp hfirst)
      exact hnone digits hdigits
    simp only [Slot.readAt, if_neg hmemory, hword]
    split
    · next hfirst => exact absurd hfirst (hletter 'r' (by decide) hwhole)
    · next hfirst => exact absurd hfirst (hletter 'w' (by decide) hlow)
    · rfl

end VerifierTrace
