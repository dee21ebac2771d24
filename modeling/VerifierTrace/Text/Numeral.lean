/-!
# Numerals

Whole numbers written in decimal or hexadecimal digits. A numeral is a digit run that is not empty,
of any length and with any number of leading zeros, and it is read only when its value fits the
stated number of bits: `decimal?` and `hexadecimal?` read numbers below `2 ^ bits`, and `signed?`
reads a sign and decimal digits whose value lies in `[-2 ^ (bits - 1), 2 ^ (bits - 1))`.

`Numeral.text` writes a number in decimal digits. `isNumeral_text` and `ofDigits_text` say that this
is a numeral of that number, so `decimal?_text` reads it back whenever it fits.
-/

set_option autoImplicit false
set_option relaxedAutoImplicit false

namespace VerifierTrace.Numeral

/-- The value of a digit; the letters of either case stand for ten and up. -/
def digitValue (c : Char) : Nat :=
  if c.isDigit then c.toNat - '0'.toNat else c.toLower.toNat - 'a'.toNat + 10

/-- The value of a digit run, the most significant digit first. -/
def ofDigits (base : Nat) (digits : List Char) : Nat :=
  digits.foldl (fun value c ↦ base * value + digitValue c) 0

/-- Whether a text is a run of the given digits and not empty. -/
def isNumeral (isDigit : Char → Bool) (text : List Char) : Bool :=
  !text.isEmpty && text.all isDigit

/-- The least number that does not fit some bits: two to the power of their number. -/
def limit (bits : Nat) : Nat :=
  Nat.pow 2 bits

/-- A decimal numeral below `2 ^ bits`. -/
def decimal? (bits : Nat) (text : List Char) : Option Nat :=
  if isNumeral Char.isDigit text && ofDigits 10 text < limit bits then some (ofDigits 10 text)
  else none

/-- A hexadecimal numeral below `2 ^ bits`, without any mark in front. -/
def hexadecimal? (bits : Nat) (text : List Char) : Option Nat :=
  if isNumeral Char.isHexDigit text && ofDigits 16 text < limit bits then some (ofDigits 16 text)
  else none

/-- Whether a value is an integer of `bits` bits in two's complement. -/
def fits (bits : Nat) (value : Int) : Bool :=
  -(limit (bits - 1) : Int) ≤ value && value < limit (bits - 1)

/-- The sign that a character stands for. -/
def sign? : Char → Option Int
  | '+' => some 1
  | '-' => some (-1)
  | _ => none

/-- A sign and a decimal numeral, together an integer of `bits` bits. -/
def signed? (bits : Nat) : List Char → Option Int
  | [] => none
  | c :: digits =>
    match sign? c with
    | none => none
    | some sign =>
      if isNumeral Char.isDigit digits && fits bits (sign * ofDigits 10 digits) then
        some (sign * ofDigits 10 digits)
      else none

/-- A number written in decimal digits. -/
def text (number : Nat) : String :=
  number.repr

/-- An integer written in decimal digits, with a sign in front when it is negative. -/
def integerText (number : Int) : String :=
  if number < 0 then "-" ++ text number.natAbs else text number.natAbs

/-! ### Reading what was written -/

theorem digitValue_of_isDigit {c : Char} (hdigit : c.isDigit) :
    digitValue c = c.toNat - '0'.toNat := by
  simp [digitValue, hdigit]

theorem ofDigits_eq_ofDigitChars {digits : List Char} (hdigits : digits.all Char.isDigit) :
    ofDigits 10 digits = Nat.ofDigitChars 10 digits 0 := by
  suffices ∀ start, digits.foldl (fun value c ↦ 10 * value + digitValue c) start =
      digits.foldl (fun value c ↦ 10 * value + (c.toNat - '0'.toNat)) start from this 0
  induction digits with
  | nil => intro start; rfl
  | cons c digits ih =>
    intro start
    obtain ⟨hfirst, hothers⟩ := Bool.and_eq_true_iff.1 hdigits
    rw [List.foldl_cons, List.foldl_cons, digitValue_of_isDigit hfirst]
    exact ih hothers _

theorem isNumeral_text (number : Nat) : isNumeral Char.isDigit (text number).toList := by
  have hwritten : (text number).toList = Nat.toDigits 10 number := by simp [text, Nat.repr]
  have hsome : Nat.toDigits 10 number ≠ [] := Nat.toDigits_ne_nil
  have hdigits : (Nat.toDigits 10 number).all Char.isDigit :=
    List.all_eq_true.2 fun c hc ↦ Nat.isDigit_of_mem_toDigits (by decide) (by decide) hc
  rw [hwritten, isNumeral, hdigits, Bool.and_true, Bool.not_eq_true', List.isEmpty_eq_false_iff]
  exact hsome

theorem ofDigits_text (number : Nat) : ofDigits 10 (text number).toList = number := by
  have hwritten : (text number).toList = Nat.toDigits 10 number := by simp [text, Nat.repr]
  have hdigits := (Bool.and_eq_true_iff.1 (isNumeral_text number)).2
  rw [ofDigits_eq_ofDigitChars hdigits, hwritten]
  exact Nat.ofDigitChars_toDigits (by decide) (by decide)

/-- A number that fits is read back from its digits. -/
theorem decimal?_text {bits number : Nat} (hsmall : number < limit bits) :
    decimal? bits (text number).toList = some number := by
  simp [decimal?, isNumeral_text, ofDigits_text, hsmall]

end VerifierTrace.Numeral
