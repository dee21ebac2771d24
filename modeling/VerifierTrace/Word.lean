import VerifierTrace.Text.Numeral

/-!
# Words

A word is an integer of 64 bits in two's complement. Program counters become words and come back
from them, and `Word.sum?` adds words and refuses a sum that wraps around. Each of these is exact:
it answers with a result exactly when the result stands for the same integer
(`ofNat?_eq_some_iff`, `toNat?_eq_some_iff`, `sum?_eq_some_iff`).

Numerals become words by their bits. Decimal digits are a signed number where that fits, and else an
unsigned one, whose bits are taken for a word; hexadecimal digits are an unsigned number at once. On
either way the word is the number modulo `2 ^ 64` (`ofDecimal?_eq_map`, `ofHexadecimal?_eq_map`),
and a minus sign in front, which negates the word, negates the number (`ofInt_signed`).
-/

set_option autoImplicit false
set_option relaxedAutoImplicit false

namespace VerifierTrace.Word

/-- The word of a number, if it is small enough. -/
def ofNat? (number : Nat) : Option Int64 :=
  if number < Numeral.limit 63 then some (Int64.ofNat number) else none

/-- The number of a word, unless it is negative. -/
def toNat? (word : Int64) : Option Nat :=
  if word < 0 then none else some word.toInt.toNat

/-- The sum of two words, unless it wraps around. -/
def sum? (first second : Int64) : Option Int64 :=
  if (first + second).toInt = first.toInt + second.toInt then some (first + second) else none

/-- The word with the bits of an unsigned number of 64 bits. -/
def ofBits (bits : UInt64) : Int64 :=
  bits.toInt64

/-- The word of decimal digits: the signed number that they are, or else the unsigned number. The
digits have no sign, so what fits 64 bits with a sign are the numbers of 63 bits. -/
def ofDecimal? (digits : List Char) : Option Int64 :=
  match Numeral.decimal? 63 digits with
  | some number => some (Int64.ofNat number)
  | none => (Numeral.decimal? 64 digits).map fun number ↦ ofBits (UInt64.ofNat number)

/-- The word of hexadecimal digits, which are an unsigned number. -/
def ofHexadecimal? (digits : List Char) : Option Int64 :=
  (Numeral.hexadecimal? 64 digits).map fun number ↦ ofBits (UInt64.ofNat number)

theorem ofNat?_eq_some_iff {number : Nat} {word : Int64} :
    ofNat? number = some word ↔ word.toInt = number := by
  have hupper : word.toInt < 2 ^ 63 := word.toInt_lt
  unfold ofNat?
  rw [Option.ite_none_right_eq_some, Option.some_inj]
  constructor
  · rintro ⟨hsmall, rfl⟩
    exact Int64.toInt_ofNat_of_lt hsmall
  · intro hsame
    have hsmall : number < 2 ^ 63 := by omega
    refine ⟨hsmall, Int64.toInt_inj.mp ?_⟩
    rw [Int64.toInt_ofNat_of_lt hsmall, hsame]

theorem toNat?_eq_some_iff {word : Int64} {number : Nat} :
    toNat? word = some number ↔ word.toInt = number := by
  have hzero : (0 : Int64).toInt = 0 := rfl
  unfold toNat?
  rw [Option.ite_none_left_eq_some, Option.some_inj, Int64.lt_iff_toInt_lt, hzero]
  omega

theorem sum?_eq_some_iff {first second sum : Int64} :
    sum? first second = some sum ↔ sum.toInt = first.toInt + second.toInt := by
  unfold sum?
  rw [Option.ite_none_right_eq_some, Option.some_inj]
  constructor
  · rintro ⟨hsum, rfl⟩
    exact hsum
  · intro hsum
    have hsame : first + second = sum := by
      rw [← Int64.ofInt_toInt sum, hsum, Int64.ofInt_add, Int64.ofInt_toInt,
        Int64.ofInt_toInt]
    exact ⟨by rw [hsame, hsum], hsame⟩

/-! ### Words of numerals -/

/-- The bits of a number are those of the number modulo `2 ^ 64`. -/
theorem ofBits_ofNat (number : Nat) : ofBits (UInt64.ofNat number) = Int64.ofNat number :=
  UInt64.toInt64_ofNat'

/-- Whether digits are read with a sign or without one makes no difference to the word. -/
theorem ofDecimal?_eq_map (digits : List Char) :
    ofDecimal? digits = (Numeral.decimal? 64 digits).map Int64.ofNat := by
  unfold ofDecimal?
  split
  · rename_i number hsigned
    obtain ⟨hvalid, hnumber⟩ := Option.ite_none_right_eq_some.mp hsigned
    obtain ⟨hnumeral, hsmall⟩ := Bool.and_eq_true_iff.mp hvalid
    have hsmaller : Numeral.limit 63 ≤ Numeral.limit 64 := by decide
    have hunsigned : Numeral.decimal? 64 digits = some (Numeral.ofDigits 10 digits) := by
      have hfits : Numeral.ofDigits 10 digits < Numeral.limit 64 :=
        Nat.lt_of_lt_of_le (of_decide_eq_true hsmall) hsmaller
      simp [Numeral.decimal?, hnumeral, hfits]
    rw [hunsigned, Option.some.inj hnumber, Option.map_some]
  · simp only [ofBits_ofNat]

theorem ofHexadecimal?_eq_map (digits : List Char) :
    ofHexadecimal? digits = (Numeral.hexadecimal? 64 digits).map Int64.ofNat := by
  simp only [ofHexadecimal?, ofBits_ofNat]

/-- Negating the word of a number wraps around to the word of the negated number. -/
theorem ofInt_signed (negative : Bool) (number : Nat) :
    Int64.ofInt (if negative then -number else number) =
      if negative then -Int64.ofNat number else Int64.ofNat number := by
  cases negative with
  | false => exact Int64.ofInt_eq_ofNat
  | true => exact (Int64.ofInt_neg number).trans (congrArg (-·) Int64.ofInt_eq_ofNat)

end VerifierTrace.Word
