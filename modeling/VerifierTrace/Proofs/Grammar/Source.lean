import VerifierTrace.Proofs.Grammar.Target

/-!
# The forms of sources

What can be read from is a target or an immediate number. A `NumberForm` is an optional minus sign,
the mark of a base, and digits of a number below `2 ^ 64`; its value is taken modulo `2 ^ 64`. A
number may be followed by blanks and the word `ll`, which are passed without belonging to it.

The reader of sources reads exactly the texts of the forms (`source?_eq_some_iff`). A number ends
where no word character comes next, and the word `ll` belongs to the text whenever it is there, so
`SourceForm.Ends` says what must not come next for a text to be all of the source.
-/

set_option autoImplicit false
set_option relaxedAutoImplicit false

namespace VerifierTrace

open Scan

/-! ### Words -/

theorem Word.ofDecimal?_eq_some_iff {digits : List Char} {word : Int64} :
    ofDecimal? digits = some word ↔ Numeral.isNumeral Char.isDigit digits ∧
      Numeral.ofDigits 10 digits < Numeral.limit 64 ∧
        Int64.ofNat (Numeral.ofDigits 10 digits) = word := by
  rw [ofDecimal?_eq_map, Option.map_eq_some_iff]
  simp only [Numeral.decimal?_eq_some_iff, and_assoc, exists_and_left, exists_eq_left']

theorem Word.ofHexadecimal?_eq_some_iff {digits : List Char} {word : Int64} :
    ofHexadecimal? digits = some word ↔ Numeral.isNumeral Char.isHexDigit digits ∧
      Numeral.ofDigits 16 digits < Numeral.limit 64 ∧
        Int64.ofNat (Numeral.ofDigits 16 digits) = word := by
  rw [ofHexadecimal?_eq_map, Option.map_eq_some_iff]
  simp only [Numeral.hexadecimal?_eq_some_iff, and_assoc, exists_and_left, exists_eq_left']

/-! ### Numbers -/

/-- How the digits of a number are to be read. -/
inductive Radix
  | decimal
  | hexadecimal
  /-- The base is marked by `0X`. -/
  | upperHexadecimal
  deriving DecidableEq, Repr

namespace Radix

def mark : Radix → List Char
  | decimal => []
  | hexadecimal => ['0', 'x']
  | upperHexadecimal => ['0', 'X']

def base : Radix → Nat
  | decimal => 10
  | hexadecimal | upperHexadecimal => 16

def isDigit : Radix → Char → Bool
  | decimal => Char.isDigit
  | hexadecimal | upperHexadecimal => Char.isHexDigit

/-- The digits of every base are among the hexadecimal ones. -/
theorem ofDigits_eq_worth {radix : Radix} {digits : List Char}
    (hdigits : digits.all radix.isDigit) :
    Numeral.ofDigits radix.base digits = Numeral.worth radix.base digits := by
  apply Numeral.ofDigits_eq_worth
  rw [List.all_eq_true] at hdigits ⊢
  intro c hc
  have hdigit := hdigits c hc
  cases radix with
  | decimal =>
    have hdecimal : c.isDigit = true := hdigit
    rw [Char.isHexDigit, hdecimal, Bool.true_or, Bool.true_or]
  | hexadecimal => exact hdigit
  | upperHexadecimal => exact hdigit

/-- The word that digits of a base are read as. -/
def word? : Radix → List Char → Option Int64
  | decimal => Word.ofDecimal?
  | hexadecimal | upperHexadecimal => Word.ofHexadecimal?

/-- Digits are read as a word when they are worth less than `2 ^ 64`, and then as the word of what
they are worth, whichever way they become one. -/
theorem word?_eq_some_iff {radix : Radix} {digits : List Char} {word : Int64} :
    radix.word? digits = some word ↔ Numeral.isNumeral radix.isDigit digits ∧
      Numeral.worth radix.base digits < Nat.pow 2 64 ∧
        Int64.ofNat (Numeral.worth radix.base digits) = word := by
  have hread : radix.word? digits = some word ↔ Numeral.isNumeral radix.isDigit digits ∧
      Numeral.ofDigits radix.base digits < Nat.pow 2 64 ∧
        Int64.ofNat (Numeral.ofDigits radix.base digits) = word := by
    cases radix with
    | decimal => exact Word.ofDecimal?_eq_some_iff
    | hexadecimal => exact Word.ofHexadecimal?_eq_some_iff
    | upperHexadecimal => exact Word.ofHexadecimal?_eq_some_iff
  rw [hread]
  refine and_congr_right fun hnumeral ↦ ?_
  rw [ofDigits_eq_worth (Numeral.all_of_isNumeral hnumeral)]

end Radix

/-- The mark of a base and digits of a number below `2 ^ 64`. -/
structure MagnitudeForm where
  radix : Radix
  digits : List Char
  isNumeral : Numeral.isNumeral radix.isDigit digits
  small : Numeral.worth radix.base digits < Nat.pow 2 64

namespace MagnitudeForm

def text (form : MagnitudeForm) : List Char :=
  form.radix.mark ++ form.digits

def magnitude (form : MagnitudeForm) : Nat :=
  Numeral.worth form.radix.base form.digits

/-- Passes the mark of a hexadecimal number. -/
theorem mark?_eq_some_iff {start marked : Scan} :
    (start.literal? "0x").or (start.literal? "0X") = some marked ↔
      Passes ['0', 'x'] start marked ∨ Passes ['0', 'X'] start marked := by
  rw [or_eq_some_iff_of_exclusive]
  · exact or_congr literal?_eq_some_iff literal?_eq_some_iff
  intro _ _ hlower hupper
  rcases Passes.prefix_or_prefix (literal?_eq_some_iff.mp hlower) (literal?_eq_some_iff.mp hupper)
    with hprefix | hprefix
  · simp at hprefix
  · simp at hprefix

/-- A number in decimal digits has no mark, for the letter of a mark would continue it. -/
theorem not_passes_mark {start stop place : Scan} {digits : List Char} {letter : Char}
    (hnumeral : Numeral.isNumeral Char.isDigit digits) (hpasses : Passes digits start stop)
    (havoids : stop.Avoids isWordChar) (hletter : letter.isDigit = false)
    (hword : isWordChar letter) : ¬ Passes ['0', letter] start place := by
  intro hmark
  have hrest : digits ++ stop.rest = '0' :: letter :: place.rest := hpasses.1.symm.trans hmark.1
  have hall := List.all_eq_true.mp (Numeral.all_of_isNumeral hnumeral)
  cases digits with
  | nil => exact absurd hnumeral (by decide)
  | cons first others =>
    cases others with
    | nil =>
      have hnext : stop.rest = letter :: place.rest := (List.cons.inj hrest).2
      rw [Avoids, hnext] at havoids
      exact absurd (hword.symm.trans havoids) (by decide)
    | cons second others =>
      have hsame : second = letter := (List.cons.inj (List.cons.inj hrest).2).1
      have hdigit := hall second (by simp)
      rw [hsame, hletter] at hdigit
      simp at hdigit

theorem magnitude?_of_mark {start marked stop : Scan} {word : Int64}
    (hmark : (start.literal? "0x").or (start.literal? "0X") = some marked) :
    Operand.magnitude? start = some (word, stop) ↔
      ∃ digits, Passes digits marked stop ∧ stop.Avoids Char.isHexDigit ∧
        Radix.hexadecimal.word? digits = some word := by
  rw [Operand.magnitude?, hmark]
  exact map_run_eq_some_iff fun digits value hvalue ↦
    Numeral.all_of_isNumeral (Word.ofHexadecimal?_eq_some_iff.mp hvalue).1

theorem magnitude?_of_no_mark {start stop : Scan} {word : Int64}
    (hmark : (start.literal? "0x").or (start.literal? "0X") = none) :
    Operand.magnitude? start = some (word, stop) ↔
      ∃ digits, Passes digits start stop ∧ stop.Avoids Char.isDigit ∧
        Radix.decimal.word? digits = some word := by
  rw [Operand.magnitude?, hmark]
  exact map_run_eq_some_iff fun digits value hvalue ↦
    Numeral.all_of_isNumeral (Word.ofDecimal?_eq_some_iff.mp hvalue).1

/-- The digits of a form are read after its mark, and a form without a mark has none before it. -/
theorem magnitude?_of_passes (form : MagnitudeForm) {start stop : Scan}
    (hpasses : Passes form.text start stop) (havoids : stop.Avoids isWordChar) :
    Operand.magnitude? start = some (Int64.ofNat form.magnitude, stop) := by
  obtain ⟨radix, digits, hnumeral, hsmall⟩ := form
  obtain ⟨marked, hmark, hdigits⟩ := passes_append.mp hpasses
  have hhex := havoids.mono fun c ↦ isHexDigit_imp_isWordChar
  have hword := Radix.word?_eq_some_iff.mpr ⟨hnumeral, hsmall, rfl⟩
  cases radix with
  | decimal =>
    refine (magnitude?_of_no_mark ?_).mpr ⟨digits, hpasses, ?_, hword⟩
    · rw [Option.eq_none_iff_forall_ne_some]
      intro place hplace
      rcases mark?_eq_some_iff.mp hplace with hmark | hmark
      · exact not_passes_mark hnumeral hpasses havoids rfl rfl hmark
      · exact not_passes_mark hnumeral hpasses havoids rfl rfl hmark
    · exact havoids.mono fun c ↦ isDigit_imp_isWordChar
  | hexadecimal =>
    exact (magnitude?_of_mark (mark?_eq_some_iff.mpr (Or.inl hmark))).mpr
      ⟨digits, hdigits, hhex, hword⟩
  | upperHexadecimal =>
    exact (magnitude?_of_mark (mark?_eq_some_iff.mpr (Or.inr hmark))).mpr
      ⟨digits, hdigits, hhex, hword⟩

theorem exists_of_magnitude? {start stop : Scan} {word : Int64}
    (h : Operand.magnitude? start = some (word, stop)) :
    ∃ form : MagnitudeForm, Passes form.text start stop ∧ word = Int64.ofNat form.magnitude := by
  cases hmark : (start.literal? "0x").or (start.literal? "0X") with
  | none =>
    obtain ⟨digits, hdigits, -, hword⟩ := (magnitude?_of_no_mark hmark).mp h
    obtain ⟨hnumeral, hsmall, rfl⟩ := Radix.word?_eq_some_iff.mp hword
    exact ⟨⟨.decimal, digits, hnumeral, hsmall⟩, hdigits, rfl⟩
  | some marked =>
    obtain ⟨digits, hdigits, -, hword⟩ := (magnitude?_of_mark hmark).mp h
    obtain ⟨hnumeral, hsmall, rfl⟩ := Radix.word?_eq_some_iff.mp hword
    rcases mark?_eq_some_iff.mp hmark with hlower | hupper
    · exact ⟨⟨.hexadecimal, digits, hnumeral, hsmall⟩,
        passes_append.mpr ⟨marked, hlower, hdigits⟩, rfl⟩
    · exact ⟨⟨.upperHexadecimal, digits, hnumeral, hsmall⟩,
        passes_append.mpr ⟨marked, hupper, hdigits⟩, rfl⟩

theorem exists_head (form : MagnitudeForm) :
    ∃ c, form.text.head? = some c ∧ c.isDigit := by
  obtain ⟨radix, digits, hnumeral, -⟩ := form
  cases radix with
  | decimal =>
    cases digits with
    | nil => exact absurd hnumeral (by decide)
    | cons c digits =>
      exact ⟨c, rfl, List.all_eq_true.mp (Numeral.all_of_isNumeral hnumeral) c List.mem_cons_self⟩
  | hexadecimal => exact ⟨'0', rfl, rfl⟩
  | upperHexadecimal => exact ⟨'0', rfl, rfl⟩

end MagnitudeForm

/-- A number below `2 ^ 64`, with or without a minus sign. -/
structure NumberForm where
  negative : Bool
  magnitude : MagnitudeForm

namespace NumberForm

def minusText : Bool → List Char
  | true => ['-']
  | false => []

def text (form : NumberForm) : List Char :=
  minusText form.negative ++ form.magnitude.text

/-- The value of the number modulo `2 ^ 64`. -/
def value (form : NumberForm) : Int64 :=
  .ofInt (if form.negative then -form.magnitude.magnitude else form.magnitude.magnitude)

/-- The number that is meant, when its text stands at a position of a line. It has eight octets. -/
def operand (form : NumberForm) (offset : Nat) : Operand where
  place := .immediate form.value
  size := 8
  span := ⟨offset, octets form.text⟩

theorem exists_head (form : NumberForm) :
    ∃ c, form.text.head? = some c ∧ (c = '-' ∨ c.isDigit) := by
  obtain ⟨negative, magnitude⟩ := form
  cases negative with
  | true => exact ⟨'-', rfl, Or.inl rfl⟩
  | false =>
    obtain ⟨c, hhead, hdigit⟩ := magnitude.exists_head
    exact ⟨c, hhead, Or.inr hdigit⟩

theorem minus_eq_iff {start unsigned : Scan} {negative : Bool} :
    Operand.minus start = (negative, unsigned) ↔
      Passes (minusText negative) start unsigned ∧
        (negative = false → start.Avoids (· == '-')) := by
  cases hminus : start.literal? "-" with
  | none =>
    have havoids : start.Avoids (· == '-') := (literal?_eq_none_iff rfl).mp hminus
    rw [Operand.minus, hminus, Prod.mk.injEq]
    constructor
    · rintro ⟨rfl, rfl⟩
      exact ⟨passes_nil.mpr rfl, fun _ ↦ havoids⟩
    · rintro ⟨hpasses, -⟩
      cases negative with
      | false => exact ⟨rfl, (passes_nil.mp hpasses).symm⟩
      | true =>
        rw [Avoids, hpasses.head? rfl] at havoids
        simp at havoids
  | some middle =>
    have hmiddle : Passes ['-'] start middle := literal?_eq_some_iff.mp hminus
    rw [Operand.minus, hminus, Prod.mk.injEq]
    constructor
    · rintro ⟨rfl, rfl⟩
      exact ⟨hmiddle, fun h ↦ absurd h (by decide)⟩
    · rintro ⟨hpasses, havoids⟩
      cases negative with
      | true => exact ⟨rfl, hmiddle.unique hpasses⟩
      | false =>
        have hnext := havoids rfl
        rw [Avoids, hmiddle.head? rfl] at hnext
        simp at hnext

end NumberForm

/-! ### The word after a number -/

/-- Blanks and the word `ll`. -/
def longMark? (start : Scan) : Option Scan :=
  start.blanks?.bind (·.keyword? "ll")

/-- The text between a number and what follows it: nothing, or blanks and the word `ll`. -/
def longMarkText : Option Gap → List Char
  | none => []
  | some gap => gap.text ++ "ll".toList

theorem longMark?_eq_some_iff {start stop : Scan} : longMark? start = some stop ↔
    ∃ gap : Gap, Passes (longMarkText (some gap)) start stop ∧ stop.Avoids isWordChar := by
  rw [longMark?, Option.bind_eq_some_iff]
  constructor
  · rintro ⟨middle, hblanks, hword⟩
    obtain ⟨gap, hgap, -⟩ := blanks?_eq_some_iff.mp hblanks
    obtain ⟨hpasses, havoids⟩ := keyword?_eq_some_iff.mp hword
    exact ⟨gap, passes_append.mpr ⟨middle, hgap, hpasses⟩, havoids⟩
  · rintro ⟨gap, hpasses, havoids⟩
    obtain ⟨middle, hgap, hword⟩ := passes_append.mp hpasses
    refine ⟨middle, blanks?_eq_some_iff.mpr ⟨gap, hgap, hword.avoids rfl rfl⟩, ?_⟩
    exact keyword?_eq_some_iff.mpr ⟨hword, havoids⟩

/-- What must not follow a number: a character that continues it or, without the word `ll`, that
word. -/
def NumberEnds (stop : Scan) : Option Gap → Prop
  | none => stop.Avoids isWordChar ∧ longMark? stop = none
  | some _ => stop.Avoids isWordChar

theorem skipLongMark_eq_iff {start stop : Scan} (havoids : start.Avoids isWordChar) :
    Operand.skipLongMark start = stop ↔
      ∃ longMark : Option Gap, Passes (longMarkText longMark) start stop ∧
        NumberEnds stop longMark := by
  cases hmark : longMark? start with
  | none =>
    have hskip : Operand.skipLongMark start = start := congrArg (·.getD start) hmark
    rw [hskip]
    constructor
    · rintro rfl
      exact ⟨none, passes_nil.mpr rfl, havoids, hmark⟩
    · rintro ⟨longMark, hpasses, hends⟩
      cases longMark with
      | none => exact (passes_nil.mp hpasses).symm
      | some gap =>
        rw [longMark?_eq_some_iff.mpr ⟨gap, hpasses, hends⟩] at hmark
        simp at hmark
  | some middle =>
    have hskip : Operand.skipLongMark start = middle := congrArg (·.getD start) hmark
    rw [hskip]
    constructor
    · rintro rfl
      obtain ⟨gap, hpasses, hends⟩ := longMark?_eq_some_iff.mp hmark
      exact ⟨some gap, hpasses, hends⟩
    · rintro ⟨longMark, hpasses, hends⟩
      cases longMark with
      | none =>
        rw [passes_nil.mp hpasses] at hends
        exact absurd (hmark.symm.trans hends.2) (by simp)
      | some gap =>
        have hsame := longMark?_eq_some_iff.mpr ⟨gap, hpasses, hends⟩
        rw [hmark] at hsame
        exact Option.some.inj hsame

/-- The word after a number does not continue the number. -/
theorem avoids_of_longMark {start stop : Scan} {longMark : Option Gap}
    (hpasses : Passes (longMarkText longMark) start stop) (hends : NumberEnds stop longMark) :
    start.Avoids isWordChar := by
  cases longMark with
  | none =>
    rw [← passes_nil.mp hpasses]
    exact hends.1
  | some gap =>
    obtain ⟨middle, hgap, -⟩ := passes_append.mp hpasses
    exact hgap.avoids_of_gap

theorem immediate?_eq_some_iff {start stop : Scan} {operand : Operand} :
    Operand.immediate? start = some (operand, stop) ↔
      ∃ (form : NumberForm) (longMark : Option Gap),
        Passes (form.text ++ longMarkText longMark) start stop ∧ NumberEnds stop longMark ∧
          operand = form.operand start.offset := by
  constructor
  · intro h
    obtain ⟨negative, unsigned, hminus⟩ : ∃ negative unsigned,
        Operand.minus start = (negative, unsigned) := ⟨_, _, rfl⟩
    simp only [Operand.immediate?, hminus] at h
    split at h
    · simp at h
    · rename_i magnitude after hmagnitude
      split at h
      · simp at h
      · rename_i hends
        obtain ⟨rfl, hskip⟩ := Prod.mk.inj (Option.some.inj h)
        obtain ⟨form, hpasses, rfl⟩ := MagnitudeForm.exists_of_magnitude? hmagnitude
        obtain ⟨longMark, hmark, hnumber⟩ :=
          (skipLongMark_eq_iff (avoids_isWordChar_iff.mpr (Bool.not_eq_true _ ▸ hends))).mp hskip
        have htext : Passes (NumberForm.text ⟨negative, form⟩) start after :=
          passes_append.mpr ⟨unsigned, (NumberForm.minus_eq_iff.mp hminus).1, hpasses⟩
        refine ⟨⟨negative, form⟩, longMark, passes_append.mpr ⟨after, htext, hmark⟩, hnumber, ?_⟩
        rw [htext.spanTo, NumberForm.operand, NumberForm.value, Word.ofInt_signed]
        rfl
  · rintro ⟨form, longMark, hpasses, hends, rfl⟩
    obtain ⟨after, htext, hmark⟩ := passes_append.mp hpasses
    obtain ⟨unsigned, hminus, hmagnitude⟩ := passes_append.mp htext
    have havoids := avoids_of_longMark hmark hends
    have hsign : Operand.minus start = (form.negative, unsigned) := by
      refine NumberForm.minus_eq_iff.mpr ⟨hminus, fun hpositive ↦ ?_⟩
      rw [hpositive] at hminus
      rw [← passes_nil.mp hminus]
      obtain ⟨c, hhead, hdigit⟩ := form.magnitude.exists_head
      refine hmagnitude.avoids hhead (beq_eq_false_iff_ne.mpr ?_)
      intro hc
      rw [hc] at hdigit
      simp at hdigit
    have hword : after.continuesWord = false := avoids_isWordChar_iff.mp havoids
    have hskip := (skipLongMark_eq_iff havoids).mpr ⟨longMark, hmark, hends⟩
    simp only [Operand.immediate?, hsign,
      MagnitudeForm.magnitude?_of_passes form.magnitude hmagnitude havoids, hword, hskip,
      htext.spanTo, Bool.false_eq_true, if_false, NumberForm.operand, NumberForm.value,
      Word.ofInt_signed]
    rfl

/-! ### Sources -/

/-- What has a value. -/
inductive SourceForm
  | target (form : TargetForm)
  | number (form : NumberForm) (longMark : Option Gap)

namespace SourceForm

def text : SourceForm → List Char
  | target form => form.text
  | number form longMark => form.text ++ longMarkText longMark

def operand (offset : Nat) : SourceForm → Operand
  | target form => form.operand offset
  | number form _ => form.operand offset

def isRegister : SourceForm → Bool
  | target form => form.isRegister
  | number _ _ => false

/-- What must not follow the text for it to be all of the source. -/
def Ends (stop : Scan) : SourceForm → Prop
  | target form => form.Ends stop
  | number _ longMark => NumberEnds stop longMark

theorem source?_eq_some_iff {start stop : Scan} {operand : Operand} :
    Operand.source? start = some (operand, stop) ↔
      ∃ form : SourceForm, Passes form.text start stop ∧ form.Ends stop ∧
        operand = form.operand start.offset := by
  rw [Operand.source?, or_eq_some_iff_of_exclusive]
  · rw [TargetForm.target?_eq_some_iff, immediate?_eq_some_iff]
    constructor
    · rintro (⟨form, hpasses, hends, hoperand⟩ | ⟨form, longMark, hpasses, hends, hoperand⟩)
      · exact ⟨target form, hpasses, hends, hoperand⟩
      · exact ⟨number form longMark, hpasses, hends, hoperand⟩
    · rintro ⟨form | ⟨form, longMark⟩, hpasses, hends, hoperand⟩
      · exact Or.inl ⟨form, hpasses, hends, hoperand⟩
      · exact Or.inr ⟨form, longMark, hpasses, hends, hoperand⟩
  · rintro ⟨_, _⟩ ⟨_, _⟩ htarget hnumber
    obtain ⟨form, hpasses, -⟩ := TargetForm.target?_eq_some_iff.mp htarget
    obtain ⟨number, longMark, hnumber, -⟩ := immediate?_eq_some_iff.mp hnumber
    obtain ⟨c, hhead, hc⟩ := number.exists_head
    obtain ⟨_, htext, -⟩ := passes_append.mp hnumber
    have hdisjoint : ∀ c ∈ ['r', 'w', '*'], ¬ (c = '-' ∨ c.isDigit) := by simp
    have hmem := form.head_mem
    rw [hpasses.head_unique form.head?_text htext hhead] at hmem
    exact hdisjoint c hmem hc

/-- The characters that a source can begin with. -/
def canBegin (c : Char) : Bool :=
  ['r', 'w', '*', '-'].contains c || c.isDigit

theorem exists_head (form : SourceForm) : ∃ c, form.text.head? = some c ∧ canBegin c := by
  cases form with
  | target form =>
    refine ⟨form.head, form.head?_text, ?_⟩
    exact (by simp [canBegin] : ∀ c ∈ ['r', 'w', '*'], canBegin c) form.head form.head_mem
  | number form longMark =>
    obtain ⟨c, hhead, hc⟩ := form.exists_head
    refine ⟨c, by rw [text, List.head?_append, hhead]; rfl, ?_⟩
    rcases hc with rfl | hdigit
    · decide
    · simp [canBegin, hdigit]

/-- A register is told from the other sources by its first character. -/
theorem exists_head_isRegister (form : SourceForm) :
    ∃ c, form.text.head? = some c ∧ (c == 'r' || c == 'w') = form.isRegister := by
  cases form with
  | target form =>
    refine ⟨form.head, form.head?_text, ?_⟩
    cases form with
    | register form => cases hview : form.view <;> simp [TargetForm.head, hview,
        RegisterView.letter, isRegister, TargetForm.isRegister]
    | reference form => rfl
  | number form longMark =>
    obtain ⟨c, hhead, hc⟩ := form.exists_head
    refine ⟨c, by rw [text, List.head?_append, hhead]; rfl, ?_⟩
    show (c == 'r' || c == 'w') = false
    rw [← Bool.not_eq_true]
    intro hletter
    obtain rfl | rfl : c = 'r' ∨ c = 'w' := by simpa using hletter
    · simp at hc
    · simp at hc

theorem canBegin_of_passes {form : SourceForm} {start stop place : Scan} {text : List Char}
    {c : Char} (hform : Passes form.text start stop) (hpasses : Passes text start place)
    (hhead : text.head? = some c) : canBegin c := by
  obtain ⟨first, hfirst, hbegins⟩ := form.exists_head
  rwa [← hform.head_unique hfirst hpasses hhead]

/-- No source begins with a blank. -/
theorem avoids_isBlank {form : SourceForm} {start stop : Scan}
    (hpasses : Passes form.text start stop) : start.Avoids isBlank := by
  obtain ⟨c, hhead, hbegins⟩ := form.exists_head
  apply hpasses.avoids hhead
  rw [← Bool.not_eq_true]
  intro hblank
  rcases isBlank_iff.mp hblank with rfl | rfl
  · exact absurd hbegins (by decide)
  · exact absurd hbegins (by decide)

/-- A source ends before blanks, and before a character that is no word character, unless the word
`ll` comes next. -/
theorem ends_of_blanks (form : SourceForm) {blanks : Blanks} {start stop : Scan}
    (hblanks : Passes blanks.text start stop) (hword : start.Avoids isWordChar)
    (hblank : stop.Avoids isBlank) (hletter : stop.Avoids (· == 'l')) : form.Ends start := by
  have hmark : longMark? start = none := by
    rw [Option.eq_none_iff_forall_ne_some]
    intro after hafter
    obtain ⟨gap, hgap, -⟩ := longMark?_eq_some_iff.mp hafter
    obtain ⟨middle, hgapBlanks, hletters⟩ := passes_append.mp hgap
    have hmiddle : start.skipBlanks = middle :=
      hgapBlanks.skipBlanks_eq (hletters.avoids rfl rfl)
    rw [← hblanks.skipBlanks_eq hblank, hmiddle, Avoids, hletters.head? rfl] at hletter
    exact absurd hletter (by decide)
  cases form with
  | target form =>
    cases form with
    | register form => exact hword
    | reference form => trivial
  | number form longMark =>
    cases longMark with
    | none => exact ⟨hword, hmark⟩
    | some gap => exact hword

end SourceForm

end VerifierTrace
