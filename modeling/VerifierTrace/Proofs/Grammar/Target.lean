import VerifierTrace.Operand.Reader
import VerifierTrace.Proofs.Grammar.Passing

/-!
# The forms of targets

A form is a part of a line as it is written, with its limits: a `RegisterForm` is the letter of a
view and the digits of a register that has the view, a `ReferenceForm` the tokens of a reference and
the blanks between them. Every form has a text and stands for an operand at the position where it is
written.

The readers of registers and references read exactly the texts of the forms, with the operand that
the form stands for (`register?_eq_some_iff`, `reference?_eq_some_iff`). A register name ends where
no word character comes next. No text begins both a register and a reference, so the reader of
targets reads either (`target?_eq_some_iff`).

The forms spell out what the reader takes from its tables and counts by itself. The widths of a
reference are four words (`AccessWidth.exists_mem_widths_iff`), and digits that are read from left
to right are worth what their places say (`Numeral.ofDigits_eq_worth`).
-/

set_option autoImplicit false
set_option relaxedAutoImplicit false

namespace VerifierTrace

open Scan

/-! ### Numerals -/

theorem Numeral.decimal?_eq_some_iff {bits : Nat} {text : List Char} {value : Nat} :
    Numeral.decimal? bits text = some value ↔ Numeral.isNumeral Char.isDigit text ∧
      Numeral.ofDigits 10 text < Numeral.limit bits ∧ Numeral.ofDigits 10 text = value := by
  simp [Numeral.decimal?, and_assoc]

theorem Numeral.hexadecimal?_eq_some_iff {bits : Nat} {text : List Char} {value : Nat} :
    Numeral.hexadecimal? bits text = some value ↔ Numeral.isNumeral Char.isHexDigit text ∧
      Numeral.ofDigits 16 text < Numeral.limit bits ∧ Numeral.ofDigits 16 text = value := by
  simp [Numeral.hexadecimal?, and_assoc]

theorem Numeral.fits_iff {bits : Nat} {value : Int} :
    Numeral.fits bits value ↔
      -(Numeral.limit (bits - 1) : Int) ≤ value ∧ value < Numeral.limit (bits - 1) := by
  rw [Numeral.fits, Bool.and_eq_true, decide_eq_true_eq, decide_eq_true_eq]

theorem Numeral.all_of_isNumeral {isDigit : Char → Bool} {text : List Char}
    (hnumeral : Numeral.isNumeral isDigit text) : text.all isDigit := by
  rw [Numeral.isNumeral, Bool.and_eq_true] at hnumeral
  exact hnumeral.2

/-- What holds of all hexadecimal digits is found by a look at ASCII. -/
theorem Numeral.forall_isHexDigit (property : Char → Prop)
    (hascii : ∀ code < 128, (Char.ofNat code).isHexDigit → property (Char.ofNat code)) {c : Char}
    (hdigit : c.isHexDigit) : property c := by
  have hc : c.toNat < 128 := by
    have hcode : c.toNat = c.val.toNat := rfl
    have hnine : '9'.val.toNat = 57 := rfl
    have hlower : 'f'.val.toNat = 102 := rfl
    have hupper : 'F'.val.toNat = 70 := rfl
    simp only [Char.isHexDigit, Char.isDigit, Bool.or_eq_true, Bool.and_eq_true,
      decide_eq_true_eq, UInt32.le_iff_toNat_le] at hdigit
    omega
  have hproperty := hascii c.toNat hc
  rw [Char.ofNat_toNat] at hproperty
  exact hproperty hdigit

theorem Numeral.digitValue_lt_of_isHexDigit {c : Char} (hdigit : c.isHexDigit) :
    Numeral.digitValue c < 16 :=
  forall_isHexDigit (Numeral.digitValue · < 16) (by decide) hdigit

/-- The number that a digit stands for: its place among the digits of all bases, whose letters are
written in either case. -/
def Numeral.placeOf (c : Char) : Nat :=
  "0123456789abcdef".toList.idxOf c.toLower

/-- What digits are worth in a base: each counts as often as the base is multiplied with itself
once for every digit after it. -/
def Numeral.worth (base : Nat) : List Char → Nat
  | [] => 0
  | c :: digits => placeOf c * Nat.pow base digits.length + worth base digits

theorem Numeral.digitValue_eq_placeOf {c : Char} (hdigit : c.isHexDigit) :
    Numeral.digitValue c = placeOf c :=
  forall_isHexDigit (fun c ↦ Numeral.digitValue c = placeOf c) (by decide) hdigit

/-- Reading digits from left to right gives what they are worth. -/
theorem Numeral.ofDigits_eq_worth (base : Nat) {digits : List Char}
    (hdigits : digits.all Char.isHexDigit) : Numeral.ofDigits base digits = worth base digits := by
  suffices ∀ start, digits.foldl (fun value c ↦ base * value + Numeral.digitValue c) start =
      start * Nat.pow base digits.length + worth base digits by
    rw [Numeral.ofDigits, this 0, Nat.zero_mul, Nat.zero_add]
  induction digits with
  | nil =>
    intro start
    exact (Nat.mul_one start).symm
  | cons c digits ih =>
    intro start
    obtain ⟨hc, hothers⟩ := Bool.and_eq_true_iff.mp hdigits
    have hpower : Nat.pow base (c :: digits).length = Nat.pow base digits.length * base := rfl
    rw [List.foldl_cons, ih hothers, digitValue_eq_placeOf hc, worth, hpower]
    calc (base * start + placeOf c) * Nat.pow base digits.length + worth base digits
        = base * start * Nat.pow base digits.length +
            placeOf c * Nat.pow base digits.length + worth base digits := by rw [Nat.add_mul]
      _ = start * (Nat.pow base digits.length * base) +
            (placeOf c * Nat.pow base digits.length + worth base digits) := by
        rw [Nat.add_assoc, Nat.mul_comm base start, Nat.mul_assoc, Nat.mul_comm base]

inductive Sign
  | plus
  | minus
  deriving DecidableEq, Repr

namespace Sign

def character : Sign → Char
  | plus => '+'
  | minus => '-'

def factor : Sign → Int
  | plus => 1
  | minus => -1

theorem sign?_eq_some_iff {c : Char} {factor : Int} :
    Numeral.sign? c = some factor ↔ ∃ sign : Sign, c = sign.character ∧ factor = sign.factor := by
  constructor
  · intro h
    unfold Numeral.sign? at h
    split at h
    · exact ⟨plus, rfl, (Option.some.inj h).symm⟩
    · exact ⟨minus, rfl, (Option.some.inj h).symm⟩
    · simp at h
  · rintro ⟨sign, rfl, rfl⟩
    cases sign <;> rfl

theorem isBlank_character (sign : Sign) : isBlank sign.character = false := by
  cases sign <;> rfl

theorem isWordChar_character (sign : Sign) : isWordChar sign.character = false := by
  cases sign <;> rfl

end Sign

/-- The text is a sign and decimal digits, of any number and with any zeros in front, and this is
what it stands for. -/
def Numeral.IsSigned (text : List Char) (value : Int) : Prop :=
  ∃ (sign : Sign) (digits : List Char), Numeral.isNumeral Char.isDigit digits ∧
    text = sign.character :: digits ∧ value = sign.factor * Numeral.ofDigits 10 digits

/-- A sign and decimal digits whose value is an integer of some bits. -/
structure SignedForm (bits : Nat) where
  sign : Sign
  digits : List Char
  isNumeral : Numeral.isNumeral Char.isDigit digits
  fits : Numeral.fits bits (sign.factor * Numeral.ofDigits 10 digits)

namespace SignedForm

variable {bits : Nat}

def text (form : SignedForm bits) : List Char :=
  form.sign.character :: form.digits

def value (form : SignedForm bits) : Int :=
  form.sign.factor * Numeral.ofDigits 10 form.digits

theorem signed?_eq_some_iff {text : List Char} {value : Int} :
    Numeral.signed? bits text = some value ↔
      ∃ form : SignedForm bits, text = form.text ∧ value = form.value := by
  constructor
  · intro h
    unfold Numeral.signed? at h
    split at h
    · simp at h
    · rename_i c digits
      split at h
      · simp at h
      · rename_i factor hsign
        obtain ⟨sign, rfl, rfl⟩ := Sign.sign?_eq_some_iff.mp hsign
        split at h
        · rename_i hvalid
          obtain ⟨hnumeral, hfits⟩ := Bool.and_eq_true_iff.mp hvalid
          exact ⟨⟨sign, digits, hnumeral, hfits⟩, rfl, (Option.some.inj h).symm⟩
        · simp at h
  · rintro ⟨⟨sign, digits, hnumeral, hfits⟩, rfl, rfl⟩
    have hsign := Sign.sign?_eq_some_iff.mpr ⟨sign, rfl, rfl⟩
    simp only [Numeral.signed?, text, value, hsign, hnumeral, hfits, Bool.and_self, if_true]

/-- A signed numeral is read exactly when its value is an integer of the bits. -/
theorem signed?_eq_some_iff_isSigned {text : List Char} {value : Int} :
    Numeral.signed? bits text = some value ↔
      Numeral.IsSigned text value ∧ Numeral.fits bits value := by
  rw [signed?_eq_some_iff]
  constructor
  · rintro ⟨form, rfl, rfl⟩
    exact ⟨⟨form.sign, form.digits, form.isNumeral, rfl, rfl⟩, form.fits⟩
  · rintro ⟨⟨sign, digits, hnumeral, rfl, rfl⟩, hfits⟩
    exact ⟨⟨sign, digits, hnumeral, hfits⟩, rfl, rfl⟩

end SignedForm

/-! ### Register names -/

/-- What a register name gives a view of: the whole register, or its low half. -/
inductive RegisterView
  | whole
  | low
  deriving DecidableEq, Repr

namespace RegisterView

def letter : RegisterView → Char
  | whole => 'r'
  | low => 'w'

/-- The octets of the view. -/
def size : RegisterView → Nat
  | whole => 8
  | low => 4

/-- The last register that has the view; the frame pointer has no low half. -/
def last : RegisterView → Nat
  | whole => 10
  | low => 9

theorem registerView?_eq_some_iff {c : Char} {size last : Nat} :
    Operand.registerView? c = some (size, last) ↔
      ∃ view : RegisterView, c = view.letter ∧ size = view.size ∧ last = view.last := by
  constructor
  · intro h
    unfold Operand.registerView? at h
    split at h
    · obtain ⟨rfl, rfl⟩ := Prod.mk.inj (Option.some.inj h)
      exact ⟨whole, rfl, rfl, rfl⟩
    · obtain ⟨rfl, rfl⟩ := Prod.mk.inj (Option.some.inj h)
      exact ⟨low, rfl, rfl, rfl⟩
    · simp at h
  · rintro ⟨view, rfl, rfl, rfl⟩
    cases view <;> rfl

/-- No view goes beyond the last register. -/
theorem last_le (view : RegisterView) : view.last ≤ Slot.framePointerNumber.toNat := by
  cases view <;> decide

theorem isWordChar_letter (view : RegisterView) : isWordChar view.letter = true := by
  cases view <;> rfl

theorem isBlank_letter (view : RegisterView) : isBlank view.letter = false := by
  cases view <;> rfl

end RegisterView

/-- The letter of a view and the number of a register in one or two digits. -/
structure RegisterForm where
  view : RegisterView
  digits : List Char
  isNumeral : Numeral.isNumeral Char.isDigit digits
  short : digits.length ≤ 2
  inView : Numeral.ofDigits 10 digits ≤ view.last

namespace RegisterForm

def text (form : RegisterForm) : List Char :=
  form.view.letter :: form.digits

def number (form : RegisterForm) : UInt8 :=
  UInt8.ofNat (Numeral.ofDigits 10 form.digits)

/-- The register that is meant, when the name stands at a position of a line. -/
def operand (form : RegisterForm) (offset : Nat) : Operand :=
  ⟨.register form.number, form.view.size, ⟨offset, octets form.text⟩⟩

/-- The name of a register of one digit, which is the last digit of a number. -/
def ofDigit (view : RegisterView) (number : Nat) : RegisterForm where
  view
  digits := [Nat.digitChar (number % 10)]
  isNumeral := by
    have hdigits : ∀ digit < 10, Numeral.isNumeral Char.isDigit [Nat.digitChar digit] := by decide
    exact hdigits _ (Nat.mod_lt number (by decide))
  short := Nat.le_succ 1
  inView := by
    have hdigits : ∀ digit < 10, Numeral.ofDigits 10 [Nat.digitChar digit] ≤ view.last := by
      cases view <;> decide
    exact hdigits _ (Nat.mod_lt number (by decide))

theorem registerNumber?_eq_some_iff {digits : List Char} {number : Nat} :
    Slot.registerNumber? digits = some number ↔ digits.length ≤ 2 ∧
      Numeral.isNumeral Char.isDigit digits ∧ Numeral.ofDigits 10 digits < Numeral.limit 8 ∧
        Numeral.ofDigits 10 digits = number := by
  by_cases hshort : digits.length ≤ 2
  · simp [Slot.registerNumber?, hshort, Numeral.decimal?_eq_some_iff]
  · simp [Slot.registerNumber?, hshort]

theorem lt_limit (form : RegisterForm) :
    Numeral.ofDigits 10 form.digits < Numeral.limit 8 :=
  Nat.lt_of_le_of_lt (Nat.le_trans form.inView form.view.last_le) (by decide)

theorem registerName?_eq_some_iff {start stop : Scan} {number : UInt8} {size : Nat} :
    Operand.registerName? start = some ((number, size), stop) ↔
      ∃ form : RegisterForm, Passes form.text start stop ∧ stop.Avoids isWordChar ∧
        number = form.number ∧ size = form.view.size := by
  constructor
  · intro h
    unfold Operand.registerName? at h
    split at h
    · simp at h
    · rename_i letter rest hrest
      split at h
      · simp at h
      · rename_i size' last hview
        obtain ⟨view, rfl, rfl, rfl⟩ := RegisterView.registerView?_eq_some_iff.mp hview
        obtain ⟨digits, after, hrun⟩ : ∃ digits after,
            (Scan.mk (start.offset + view.letter.utf8Size) rest).run Char.isDigit =
              (digits, after) := ⟨_, _, rfl⟩
        simp only [hrun] at h
        split at h
        · simp at h
        · rename_i found hfound
          split at h
          · rename_i hvalid
            obtain ⟨hshort, hnumeral, -, rfl⟩ := registerNumber?_eq_some_iff.mp hfound
            obtain ⟨hlast, hends⟩ := Bool.and_eq_true_iff.mp hvalid
            obtain ⟨-, hdigits, -⟩ := run_eq_iff.mp hrun
            obtain ⟨hname, rfl⟩ := Prod.mk.inj (Option.some.inj h)
            obtain ⟨rfl, rfl⟩ := Prod.mk.inj hname
            refine ⟨⟨view, digits, hnumeral, hshort, of_decide_eq_true hlast⟩, ?_, ?_, rfl, rfl⟩
            · exact (passes_cons_iff hrest).mpr ⟨rfl, hdigits⟩
            · exact avoids_isWordChar_iff.mpr ((Bool.not_eq_true' _).mp hends)
          · simp at h
  · rintro ⟨form, hpasses, havoids, rfl, rfl⟩
    have hrest : start.rest = form.view.letter :: (form.digits ++ stop.rest) := hpasses.1
    obtain ⟨-, hdigits⟩ := (passes_cons_iff hrest).mp hpasses
    have hview := RegisterView.registerView?_eq_some_iff.mpr ⟨form.view, rfl, rfl, rfl⟩
    have hrun := run_eq_iff.mpr ⟨Numeral.all_of_isNumeral form.isNumeral, hdigits,
      havoids.mono fun c ↦ isDigit_imp_isWordChar⟩
    have hnumber := registerNumber?_eq_some_iff.mpr
      ⟨form.short, form.isNumeral, form.lt_limit, rfl⟩
    rw [avoids_isWordChar_iff] at havoids
    simp only [Operand.registerName?, hrest, hview, hrun, hnumber, havoids, form.inView,
      decide_true, Bool.not_false, Bool.and_self, if_true]
    rfl

theorem register?_eq_some_iff {start stop : Scan} {operand : Operand} :
    Operand.register? start = some (operand, stop) ↔
      ∃ form : RegisterForm, Passes form.text start stop ∧ stop.Avoids isWordChar ∧
        operand = form.operand start.offset := by
  rw [Operand.register?, Option.map_eq_some_iff]
  constructor
  · rintro ⟨⟨⟨number, size⟩, after⟩, hname, hsame⟩
    obtain ⟨form, hpasses, havoids, rfl, rfl⟩ := registerName?_eq_some_iff.mp hname
    obtain ⟨rfl, rfl⟩ := Prod.mk.inj hsame
    refine ⟨form, hpasses, havoids, ?_⟩
    rw [operand, hpasses.spanTo]
  · rintro ⟨form, hpasses, havoids, rfl⟩
    refine ⟨⟨⟨form.number, form.view.size⟩, stop⟩, ?_, ?_⟩
    · exact registerName?_eq_some_iff.mpr ⟨form, hpasses, havoids, rfl, rfl⟩
    · show (Operand.mk _ _ (start.spanTo stop), stop) = _
      rw [operand, hpasses.spanTo]

end RegisterForm

/-! ### References -/

theorem SignedForm.offset?_eq_some_iff {start stop : Scan} {offset : Int32} :
    Operand.offset? start = some (offset, stop) ↔
      ∃ form : SignedForm 32, Passes form.text start stop ∧ stop.Avoids Char.isDigit ∧
        offset = Int32.ofInt form.value := by
  constructor
  · intro h
    unfold Operand.offset? at h
    split at h
    · simp at h
    · rename_i sign rest hrest
      obtain ⟨digits, after, hrun⟩ : ∃ digits after,
          (Scan.mk (start.offset + sign.utf8Size) rest).run Char.isDigit = (digits, after) :=
        ⟨_, _, rfl⟩
      simp only [hrun] at h
      obtain ⟨value, hvalue, hsame⟩ := Option.map_eq_some_iff.mp h
      obtain ⟨rfl, rfl⟩ := Prod.mk.inj hsame
      obtain ⟨form, htext, rfl⟩ := signed?_eq_some_iff.mp hvalue
      obtain ⟨-, hdigits, havoids⟩ := run_eq_iff.mp hrun
      refine ⟨form, ?_, havoids, rfl⟩
      rw [← htext]
      exact (passes_cons_iff hrest).mpr ⟨rfl, hdigits⟩
  · rintro ⟨form, hpasses, havoids, rfl⟩
    have hrest : start.rest = form.sign.character :: (form.digits ++ stop.rest) := hpasses.1
    obtain ⟨-, hdigits⟩ := (passes_cons_iff hrest).mp hpasses
    have hrun := run_eq_iff.mpr ⟨Numeral.all_of_isNumeral form.isNumeral, hdigits, havoids⟩
    have hvalue : Numeral.signed? 32 (form.sign.character :: form.digits) = some form.value :=
      signed?_eq_some_iff.mpr ⟨form, rfl, rfl⟩
    simp only [Operand.offset?, hrest, hrun, hvalue, Option.map_some]

/-- The width of the access to memory. -/
inductive AccessWidth
  | bits8
  | bits16
  | bits32
  | bits64
  deriving DecidableEq, Repr

namespace AccessWidth

def word : AccessWidth → List Char
  | bits8 => "u8".toList
  | bits16 => "u16".toList
  | bits32 => "u32".toList
  | bits64 => "u64".toList

/-- The octets that are accessed. -/
def size : AccessWidth → Nat
  | bits8 => 1
  | bits16 => 2
  | bits32 => 4
  | bits64 => 8

theorem exists_mem_widths_iff (property : List Char → Nat → Prop) :
    (∃ width ∈ Operand.widths, property width.1.toList width.2) ↔
      ∃ width : AccessWidth, property width.word width.size := by
  constructor
  · rintro ⟨width, hwidth, hproperty⟩
    simp only [Operand.widths, List.mem_cons, List.not_mem_nil, or_false] at hwidth
    rcases hwidth with rfl | rfl | rfl | rfl
    · exact ⟨bits8, hproperty⟩
    · exact ⟨bits16, hproperty⟩
    · exact ⟨bits32, hproperty⟩
    · exact ⟨bits64, hproperty⟩
  · rintro ⟨width, hproperty⟩
    cases width with
    | bits8 => exact ⟨("u8", 1), by decide, hproperty⟩
    | bits16 => exact ⟨("u16", 2), by decide, hproperty⟩
    | bits32 => exact ⟨("u32", 4), by decide, hproperty⟩
    | bits64 => exact ⟨("u64", 8), by decide, hproperty⟩

theorem head?_word (width : AccessWidth) : width.word.head? = some 'u' := by
  cases width <;> rfl

end AccessWidth

/-- A reference with the blanks between its tokens: `*(` width `*)(` base offset `)`. -/
structure ReferenceForm where
  width : AccessWidth
  base : RegisterForm
  offset : SignedForm 32
  beforeWidth : Blanks
  afterWidth : Blanks
  beforeAddress : Blanks
  beforeBase : Blanks
  beforeOffset : Blanks
  afterOffset : Blanks

namespace ReferenceForm

def text (form : ReferenceForm) : List Char :=
  "*(".toList ++ (form.beforeWidth.text ++ (form.width.word ++ (form.afterWidth.text ++
    ("*)".toList ++ (form.beforeAddress.text ++ ("(".toList ++ (form.beforeBase.text ++
      (form.base.text ++ (form.beforeOffset.text ++ (form.offset.text ++
        (form.afterOffset.text ++ ")".toList)))))))))))

/-- The reference that is meant, when its text stands at a position of a line. -/
def operand (form : ReferenceForm) (offset : Nat) : Operand :=
  ⟨.reference form.base.number (Int32.ofInt form.offset.value), form.width.size,
    ⟨offset, octets form.text⟩⟩

theorem prefixFree_widths : PrefixFree Prod.fst Operand.widths := by
  decide

/-- The width of a reference is one of four words, and no word character follows it. -/
theorem width?_eq_some_iff {start stop : Scan} {size : Nat} :
    (Operand.widths.findSome? fun (word, size) ↦ (start.keyword? word).map (size, ·)) =
        some (size, stop) ↔
      ∃ width : AccessWidth, Passes width.word start stop ∧ stop.Avoids isWordChar ∧
        width.size = size := by
  have hmatcher : ∀ word after, start.keyword? word = some after →
      ∃ place, Passes word.toList start place :=
    fun word after hafter ↦ ⟨after, (keyword?_eq_some_iff.mp hafter).1⟩
  refine (findSome?_eq_some_iff_of_prefixFree prefixFree_widths hmatcher).trans ?_
  simp only [keyword?_eq_some_iff, and_assoc]
  exact AccessWidth.exists_mem_widths_iff fun word octets ↦
    Passes word start stop ∧ stop.Avoids isWordChar ∧ octets = size

theorem reference?_eq_some_iff {start stop : Scan} {operand : Operand} :
    Operand.reference? start = some (operand, stop) ↔
      ∃ form : ReferenceForm, Passes form.text start stop ∧
        operand = form.operand start.offset := by
  constructor
  · intro h
    simp only [Operand.reference?, Option.bind_eq_bind, Option.bind_eq_some_iff] at h
    obtain ⟨opened, hopened, ⟨size, typed⟩, htyped, cast, hcast, address, haddress,
      ⟨⟨base, view⟩, based⟩, hbased, ⟨offset, displaced⟩, hdisplaced, closed, hclosed, hsame⟩ := h
    obtain ⟨width, hword, -, rfl⟩ := width?_eq_some_iff.mp htyped
    obtain ⟨baseForm, hbase, -, rfl, -⟩ := RegisterForm.registerName?_eq_some_iff.mp hbased
    obtain ⟨offsetForm, hoffset, -, rfl⟩ := SignedForm.offset?_eq_some_iff.mp hdisplaced
    obtain ⟨beforeWidth, hbeforeWidth⟩ := passes_skipBlanks opened
    obtain ⟨afterWidth, hafterWidth⟩ := passes_skipBlanks typed
    obtain ⟨beforeAddress, hbeforeAddress⟩ := passes_skipBlanks cast
    obtain ⟨beforeBase, hbeforeBase⟩ := passes_skipBlanks address
    obtain ⟨beforeOffset, hbeforeOffset⟩ := passes_skipBlanks based
    obtain ⟨afterOffset, hafterOffset⟩ := passes_skipBlanks displaced
    obtain ⟨rfl, rfl⟩ := Prod.mk.inj (Option.some.inj hsame)
    let form : ReferenceForm := ⟨width, baseForm, offsetForm, beforeWidth, afterWidth,
      beforeAddress, beforeBase, beforeOffset, afterOffset⟩
    have hpasses : Passes form.text start closed := by
      simp only [text, passes_append]
      exact ⟨_, literal?_eq_some_iff.mp hopened, _, hbeforeWidth, _, hword, _, hafterWidth,
        _, literal?_eq_some_iff.mp hcast, _, hbeforeAddress, _, literal?_eq_some_iff.mp haddress,
        _, hbeforeBase, _, hbase, _, hbeforeOffset, _, hoffset, _, hafterOffset,
        literal?_eq_some_iff.mp hclosed⟩
    refine ⟨form, hpasses, ?_⟩
    rw [hpasses.spanTo]
    rfl
  · rintro ⟨form, hpasses, rfl⟩
    have hparts := hpasses
    simp only [text, passes_append] at hparts
    obtain ⟨opened, hopened, widthAt, hbeforeWidth, typed, hword, castAt, hafterWidth, cast, hcast,
      addressAt, hbeforeAddress, address, haddress, baseAt, hbeforeBase, based, hbase,
      offsetAt, hbeforeOffset, displaced, hoffset, closeAt, hafterOffset, hclosed⟩ := hparts
    have hsize : Operand.widths.findSome? (fun (word, size) ↦
        (opened.skipBlanks.keyword? word).map (size, ·)) = some (form.width.size, typed) := by
      rw [hbeforeWidth.skipBlanks_eq (hword.avoids form.width.head?_word rfl)]
      refine width?_eq_some_iff.mpr ⟨form.width, hword, ?_, rfl⟩
      exact hafterWidth.avoids_of_blanks (hcast.avoids rfl rfl) isWordChar_eq_false_of_isBlank
    have hname : Operand.registerName? address.skipBlanks =
        some ((form.base.number, form.base.view.size), based) := by
      rw [hbeforeBase.skipBlanks_eq (hbase.avoids rfl form.base.view.isBlank_letter)]
      refine RegisterForm.registerName?_eq_some_iff.mpr ⟨form.base, hbase, ?_, rfl, rfl⟩
      exact hbeforeOffset.avoids_of_blanks
        (hoffset.avoids rfl form.offset.sign.isWordChar_character) isWordChar_eq_false_of_isBlank
    have hvalue : Operand.offset? based.skipBlanks =
        some (Int32.ofInt form.offset.value, displaced) := by
      rw [hbeforeOffset.skipBlanks_eq (hoffset.avoids rfl form.offset.sign.isBlank_character)]
      refine SignedForm.offset?_eq_some_iff.mpr ⟨form.offset, hoffset, ?_, rfl⟩
      exact hafterOffset.avoids_of_blanks (hclosed.avoids rfl rfl) isDigit_eq_false_of_isBlank
    simp only [Operand.reference?, Option.bind_eq_bind, literal?_eq_some_iff.mpr hopened, hsize,
      hafterWidth.literal?_skipBlanks hcast rfl rfl, hname, hvalue,
      hbeforeAddress.literal?_skipBlanks haddress rfl rfl,
      hafterOffset.literal?_skipBlanks hclosed rfl rfl, Option.bind_some, hpasses.spanTo]
    rfl

end ReferenceForm

/-! ### Targets -/

/-- What can be assigned to. -/
inductive TargetForm
  | register (form : RegisterForm)
  | reference (form : ReferenceForm)

namespace TargetForm

def text : TargetForm → List Char
  | register form => form.text
  | reference form => form.text

def operand (offset : Nat) : TargetForm → Operand
  | register form => form.operand offset
  | reference form => form.operand offset

def isRegister : TargetForm → Bool
  | register _ => true
  | reference _ => false

/-- A register name must not be continued by what follows it; a reference is closed by itself. -/
def Ends (stop : Scan) : TargetForm → Prop
  | register _ => stop.Avoids isWordChar
  | reference _ => True

/-- The first character of the text. -/
def head : TargetForm → Char
  | register form => form.view.letter
  | reference _ => '*'

theorem head?_text (form : TargetForm) : form.text.head? = some form.head := by
  cases form <;> rfl

theorem head_mem (form : TargetForm) : form.head ∈ ['r', 'w', '*'] := by
  cases form with
  | register form => cases hview : form.view <;> simp [head, hview, RegisterView.letter]
  | reference form => simp [head]

/-- No target begins with a blank. -/
theorem avoids_isBlank (form : TargetForm) {start stop : Scan}
    (hpasses : Passes form.text start stop) : start.Avoids isBlank := by
  refine hpasses.avoids form.head?_text ?_
  exact (by simp [isBlank] : ∀ c ∈ ['r', 'w', '*'], isBlank c = false) form.head form.head_mem

theorem target?_eq_some_iff {start stop : Scan} {operand : Operand} :
    Operand.target? start = some (operand, stop) ↔
      ∃ form : TargetForm, Passes form.text start stop ∧ form.Ends stop ∧
        operand = form.operand start.offset := by
  rw [Operand.target?, or_eq_some_iff_of_exclusive]
  · rw [RegisterForm.register?_eq_some_iff, ReferenceForm.reference?_eq_some_iff]
    constructor
    · rintro (⟨form, hpasses, havoids, hoperand⟩ | ⟨form, hpasses, hoperand⟩)
      · exact ⟨register form, hpasses, havoids, hoperand⟩
      · exact ⟨reference form, hpasses, trivial, hoperand⟩
    · rintro ⟨form | form, hpasses, hends, hoperand⟩
      · exact Or.inl ⟨form, hpasses, hends, hoperand⟩
      · exact Or.inr ⟨form, hpasses, hoperand⟩
  · rintro ⟨_, _⟩ ⟨_, _⟩ hregister hreference
    obtain ⟨form, hpasses, -⟩ := RegisterForm.register?_eq_some_iff.mp hregister
    obtain ⟨form', hpasses', -⟩ := ReferenceForm.reference?_eq_some_iff.mp hreference
    have hhead : form.view.letter = '*' := hpasses.head_unique rfl hpasses' rfl
    have hword := form.view.isWordChar_letter
    rw [hhead] at hword
    exact absurd hword (by decide)

end TargetForm

end VerifierTrace
