import VerifierTrace.Fact.Reader
import VerifierTrace.Proofs.Grammar.Target

/-!
# Keys that name slots

A key names a slot in either case, and it may end in a mark which tells that the line wrote the
slot. The reader puts a key into lower case before it looks for the mark and for the name. Nothing
is lost or gained by that: the names of a slot in lower case are the texts of a `NameForm`
(`Slot.ofText_eq_ok_iff`), none of which ends in a mark, and a name in lower case names the same
slot (`Slot.ofText_toLower_eq_ok_iff`).

A `SlotKey` is a name with the ending after it, and an `OtherKey` names no slot whatever is taken
for its ending. `SlotKey.slotName_text` and `OtherKey.ofText_slotName_ne_ok` say what the reader
makes of either.
-/

set_option autoImplicit false
set_option relaxedAutoImplicit false

namespace VerifierTrace

open Scan

/-! ### Letter case -/

/-- Lower case moves the capitals of ASCII, and nothing else. -/
theorem val_toLower (c : Char) : c.toLower.val =
    if c.val ≥ 'A'.val ∧ c.val ≤ 'Z'.val then c.val + ('a'.val - 'A'.val) else c.val := by
  delta Char.toLower
  by_cases hupper : c.val ≥ 'A'.val ∧ c.val ≤ 'Z'.val
  · rw [dif_pos hupper, if_pos hupper]
  · rw [dif_neg hupper, if_neg hupper]

theorem toLower_toLower (c : Char) : c.toLower.toLower = c.toLower := by
  apply Char.ext
  rw [val_toLower, val_toLower]
  grind

/-- Lower case puts letters into the place of letters only. -/
theorem eq_of_toLower_eq {c other : Char} (hlower : c.toLower = other)
    (hletter : other.isLower = false) : c = other := by
  have hclass : other.isLower = (decide (other.val ≥ 'a'.val) && decide (other.val ≤ 'z'.val)) :=
    rfl
  have hval : c.toLower.val = other.val := congrArg Char.val hlower
  rw [val_toLower] at hval
  apply Char.ext
  grind

theorem eq_or_eq_of_toLower_eq_w {c : Char} (hlower : c.toLower = 'w') : c = 'w' ∨ c = 'W' := by
  have hval : c.toLower.val = 'w'.val := congrArg Char.val hlower
  rw [val_toLower] at hval
  split at hval
  · have hcapital : c.val = 'W'.val := by grind
    exact .inr (Char.ext hcapital)
  · exact .inl (Char.ext hval)

theorem isAlphanum_of_toLower {c : Char} (hlower : c.toLower.isAlphanum) : c.isAlphanum := by
  rw [isAlphanum_iff, val_toLower] at hlower
  rw [isAlphanum_iff]
  grind

/-! ### Names of slots -/

/-- A name of a slot in lower case. -/
inductive NameForm
  | register (form : RegisterForm)
  | stack (offset : SignedForm 32)
  | memory

namespace NameForm

def text : NameForm → List Char
  | register form => form.text
  | stack offset => 'f' :: 'p' :: offset.text
  | memory => ['m', 'e', 'm']

def slot : NameForm → Slot
  | register form => .register form.number
  | stack offset => .stack (Int32.ofInt offset.value)
  | memory => .memory

/-- Letters, digits and signs, of which names are made. -/
def isNameChar (c : Char) : Bool :=
  c.isAlphanum || c == '+' || c == '-'

theorem isNameChar_of_isDigit {c : Char} (hdigit : c.isDigit) : isNameChar c := by
  simp [isNameChar, Char.isAlphanum, hdigit]

theorem all_isNameChar_of_isNumeral {digits : List Char}
    (hnumeral : Numeral.isNumeral Char.isDigit digits) : digits.all isNameChar := by
  rw [List.all_eq_true]
  intro c hc
  exact isNameChar_of_isDigit (List.all_eq_true.mp (Numeral.all_of_isNumeral hnumeral) c hc)

theorem all_isNameChar_text (form : NameForm) : form.text.all isNameChar := by
  cases form with
  | register form =>
    have hletter : isNameChar form.view.letter = true := by cases form.view <;> rfl
    rw [text, RegisterForm.text, List.all_cons, hletter, Bool.true_and]
    exact all_isNameChar_of_isNumeral form.isNumeral
  | stack offset =>
    have hsign : isNameChar offset.sign.character = true := by cases offset.sign <;> rfl
    rw [text, SignedForm.text, List.all_cons, List.all_cons, List.all_cons, hsign]
    exact all_isNameChar_of_isNumeral offset.isNumeral
  | memory => rfl

theorem text_ne_nil (form : NameForm) : form.text ≠ [] := by
  cases form with
  | register form => exact List.cons_ne_nil _ _
  | stack offset => exact List.cons_ne_nil _ _
  | memory => exact List.cons_ne_nil _ _

end NameForm

namespace Slot

/-- The letter of a view and digits of a number name the register, unless there is none with the
view. -/
theorem ofText_of_letter {name : String} {view : RegisterView} {digits : List Char}
    (hlower : name.toList.map Char.toLower = view.letter :: digits) :
    ofText name = (registerNumber? digits).elim (.error (.invalidSlot name)) fun number ↦
      if number ≤ view.last then .ok (.register (UInt8.ofNat number))
      else if number ≤ framePointerNumber.toNat then .error (.invalidSlot name)
      else .error (.registerOutOfRange number) := by
  have hpointer : framePointerNumber.toNat = 10 := rfl
  unfold ofText
  rw [hlower]
  cases view with
  | whole =>
    simp only [RegisterView.letter, RegisterView.last, ofRegister, hpointer]
    cases registerNumber? digits with
    | none => rfl
    | some number =>
      dsimp only [Option.elim_some]
      grind
  | low =>
    simp only [RegisterView.letter, RegisterView.last, ofRegister, hpointer]
    cases registerNumber? digits with
    | none => rfl
    | some number =>
      dsimp only [Option.elim_some]
      grind

/-- A name that begins with the letter of a view names a slot exactly when it is the name of a
register. -/
theorem ofText_of_letter_eq_ok_iff {name : String} {view : RegisterView} {digits : List Char}
    {slot : Slot} (hlower : name.toList.map Char.toLower = view.letter :: digits) :
    ofText name = .ok slot ↔ ∃ form : RegisterForm, form.view = view ∧ form.digits = digits ∧
      slot = .register form.number := by
  rw [ofText_of_letter hlower]
  constructor
  · intro hread
    cases hnumber : registerNumber? digits with
    | none =>
      rw [hnumber] at hread
      cases hread
    | some number =>
      rw [hnumber, Option.elim_some] at hread
      obtain ⟨hshort, hnumeral, -, rfl⟩ := RegisterForm.registerNumber?_eq_some_iff.mp hnumber
      split at hread
      · next hlast =>
        exact ⟨⟨view, digits, hnumeral, hshort, hlast⟩, rfl, rfl, (Except.ok.inj hread).symm⟩
      · split at hread
        · cases hread
        · cases hread
  · rintro ⟨form, rfl, rfl, rfl⟩
    have hnumber : registerNumber? form.digits = some (Numeral.ofDigits 10 form.digits) :=
      RegisterForm.registerNumber?_eq_some_iff.mpr ⟨form.short, form.isNumeral, form.lt_limit, rfl⟩
    rw [hnumber, Option.elim_some, if_pos form.inView, RegisterForm.number]

/-- The names of slots, in lower case, are the texts of the forms of names. -/
theorem ofText_eq_ok_iff {name : String} {slot : Slot} :
    ofText name = .ok slot ↔
      ∃ form : NameForm, name.toList.map Char.toLower = form.text ∧ slot = form.slot := by
  have hregister : ∀ (view : RegisterView) (digits : List Char),
      name.toList.map Char.toLower = view.letter :: digits → ofText name = .ok slot →
        ∃ form : NameForm, name.toList.map Char.toLower = form.text ∧ slot = form.slot := by
    intro view digits hlower hread
    obtain ⟨form, rfl, rfl, hslot⟩ := (ofText_of_letter_eq_ok_iff hlower).mp hread
    exact ⟨.register form, hlower, hslot⟩
  constructor
  · intro hread
    have h := hread
    unfold ofText at h
    split at h
    · next hlower => exact ⟨.memory, hlower, (Except.ok.inj h).symm⟩
    · next offset hlower =>
      split at h
      · next value hvalue =>
        obtain ⟨form, rfl, rfl⟩ := SignedForm.signed?_eq_some_iff.mp hvalue
        exact ⟨.stack form, hlower, (Except.ok.inj h).symm⟩
      · cases h
    · next digits hlower => exact hregister .whole digits hlower hread
    · next digits hlower => exact hregister .low digits hlower hread
    · cases h
  · rintro ⟨form, hlower, rfl⟩
    cases form with
    | register form => exact (ofText_of_letter_eq_ok_iff hlower).mpr ⟨form, rfl, rfl, rfl⟩
    | stack offset =>
      have hvalue := SignedForm.signed?_eq_some_iff.mpr ⟨offset, rfl, rfl⟩
      unfold ofText
      rw [hlower]
      simp only [NameForm.text, NameForm.slot, hvalue]
    | memory =>
      unfold ofText
      rw [hlower]
      rfl

/-- A name in lower case names the same slot. -/
theorem ofText_toLower_eq_ok_iff {name : List Char} {slot : Slot} :
    ofText (String.ofList (name.map Char.toLower)) = .ok slot ↔
      ofText (String.ofList name) = .ok slot := by
  have hsame : (name.map Char.toLower).map Char.toLower = name.map Char.toLower := by
    rw [List.map_map]
    exact List.map_congr_left fun c _ ↦ toLower_toLower c
  rw [ofText_eq_ok_iff, ofText_eq_ok_iff, String.toList_ofList, String.toList_ofList, hsame]

end Slot

/-! ### Endings and keys -/

/-- What may follow the name of a slot in a key. -/
inductive KeyEnding
  | plain
  | written
  | writtenUpper
  deriving DecidableEq, Repr

namespace KeyEnding

def text : KeyEnding → List Char
  | plain => []
  | written => ['_', 'w']
  | writtenUpper => ['_', 'W']

/-- Whether the ending tells that the line wrote the slot. -/
def isMark : KeyEnding → Bool
  | plain => false
  | written => true
  | writtenUpper => true

end KeyEnding

open FactToken (isKeyChar)

namespace NameForm

variable {c : Char}

theorem isNameChar_of_toLower (hname : isNameChar c.toLower) : isNameChar c := by
  simp only [isNameChar, Bool.or_eq_true, beq_iff_eq] at hname ⊢
  obtain (hletter | hplus) | hminus := hname
  · exact .inl (.inl (isAlphanum_of_toLower hletter))
  · exact .inl (.inr (eq_of_toLower_eq hplus rfl))
  · exact .inr (eq_of_toLower_eq hminus rfl)

theorem isKeyChar_of_isNameChar (hname : isNameChar c) : isKeyChar c := by
  rw [isKeyChar, Bool.and_eq_true, bne_iff_ne, bne_iff_ne]
  constructor
  · rintro rfl
    exact absurd hname (by decide)
  · rintro rfl
    exact absurd hname (by decide)

end NameForm

/-- A name of a slot, in either case, and the ending after it. -/
structure SlotKey where
  name : List Char
  slot : Slot
  names : Slot.ofText (String.ofList name) = .ok slot
  ending : KeyEnding

namespace SlotKey

def text (key : SlotKey) : List Char :=
  key.name ++ key.ending.text

theorem exists_nameForm (key : SlotKey) :
    ∃ form : NameForm, key.name.map Char.toLower = form.text := by
  obtain ⟨form, hlower, -⟩ := Slot.ofText_eq_ok_iff.mp key.names
  rw [String.toList_ofList] at hlower
  exact ⟨form, hlower⟩

theorem all_isNameChar_name (key : SlotKey) : ∀ c ∈ key.name, NameForm.isNameChar c := by
  intro c hc
  obtain ⟨form, hlower⟩ := key.exists_nameForm
  have hmem : c.toLower ∈ form.text := by
    rw [← hlower]
    exact List.mem_map_of_mem hc
  exact NameForm.isNameChar_of_toLower (List.all_eq_true.mp form.all_isNameChar_text _ hmem)

theorem name_ne_nil (key : SlotKey) : key.name ≠ [] := by
  intro hnil
  obtain ⟨form, hlower⟩ := key.exists_nameForm
  rw [hnil] at hlower
  exact form.text_ne_nil hlower.symm

theorem all_isKeyChar (key : SlotKey) : key.text.all isKeyChar := by
  have hending : key.ending.text.all isKeyChar = true := by cases key.ending <;> rfl
  rw [text, List.all_append, hending, Bool.and_true, List.all_eq_true]
  exact fun c hc ↦ NameForm.isKeyChar_of_isNameChar (key.all_isNameChar_name c hc)

end SlotKey

/-- A key that names no slot, whatever of it is taken for its ending. -/
structure OtherKey where
  text : List Char
  isKey : text.all fun c ↦ c != '=' && c != ' '
  noTab : text.head? ≠ some '\t'
  namesNone : ∀ (name : List Char) (ending : KeyEnding) (slot : Slot),
    text = name ++ ending.text → Slot.ofText (String.ofList name) ≠ .ok slot

/-! ### What the reader makes of a key -/

namespace Fact

/-- A mark is taken from the end of a key in either case. -/
theorem slotName_append_of_isMark (name : List Char) {ending : KeyEnding}
    (hmark : ending.isMark = true) :
    slotName (name ++ ending.text) = (name.map Char.toLower, true) := by
  have hlower : ending.text.map Char.toLower = ['_', 'w'] := by
    cases ending with
    | plain => cases hmark
    | written => rfl
    | writtenUpper => rfl
  simp [slotName, hlower]

/-- A key that ends in no mark is put into lower case. -/
theorem slotName_of_forall_ne {key : List Char}
    (hplain : ∀ (name : List Char) (ending : KeyEnding), ending.isMark = true →
      key ≠ name ++ ending.text) :
    slotName key = (key.map Char.toLower, false) := by
  unfold slotName
  split
  · next reversed hreversed =>
    have hkey : key.map Char.toLower = reversed.reverse ++ ['_', 'w'] := by
      rw [← List.reverse_reverse (key.map Char.toLower), hreversed]
      simp
    obtain ⟨name, mark, rfl, -, hmark⟩ := List.map_eq_append_iff.mp hkey
    obtain ⟨underscore, others, rfl, hunderscore, hothers⟩ := List.map_eq_cons_iff.mp hmark
    obtain ⟨letter, rfl, hletter⟩ := List.map_eq_singleton_iff.mp hothers
    obtain rfl := eq_of_toLower_eq hunderscore rfl
    rcases eq_or_eq_of_toLower_eq_w hletter with rfl | rfl
    · exact absurd rfl (hplain name .written rfl)
    · exact absurd rfl (hplain name .writtenUpper rfl)
  · rw [List.reverse_reverse]

end Fact

theorem SlotKey.slotName_text (key : SlotKey) :
    Fact.slotName key.text = (key.name.map Char.toLower, key.ending.isMark) := by
  cases hmark : key.ending.isMark with
  | true => exact Fact.slotName_append_of_isMark key.name hmark
  | false =>
    have hending : key.ending.text = [] := by
      cases hending : key.ending with
      | plain => rfl
      | written => rw [hending] at hmark; cases hmark
      | writtenUpper => rw [hending] at hmark; cases hmark
    rw [SlotKey.text, hending, List.append_nil]
    refine Fact.slotName_of_forall_ne fun name ending hending hsame ↦ ?_
    have hunderscore : '_' ∈ ending.text := by
      cases ending with
      | plain => cases hending
      | written => exact List.mem_cons_self
      | writtenUpper => exact List.mem_cons_self
    have hname := key.all_isNameChar_name '_' (hsame ▸ List.mem_append_right name hunderscore)
    exact absurd hname (by decide)

theorem OtherKey.ofText_slotName_ne_ok (key : OtherKey) (slot : Slot) :
    Slot.ofText (String.ofList (Fact.slotName key.text).1) ≠ .ok slot := by
  by_cases hmarked : ∃ (name : List Char) (ending : KeyEnding), ending.isMark = true ∧
      key.text = name ++ ending.text
  · obtain ⟨name, ending, hmark, hkey⟩ := hmarked
    rw [hkey, Fact.slotName_append_of_isMark name hmark, Ne, Slot.ofText_toLower_eq_ok_iff]
    exact key.namesNone name ending slot hkey
  · have hplain := fun name ending hmark hkey ↦ hmarked ⟨name, ending, hmark, hkey⟩
    rw [Fact.slotName_of_forall_ne hplain, Ne, Slot.ofText_toLower_eq_ok_iff]
    exact key.namesNone key.text .plain slot (List.append_nil _).symm

end VerifierTrace
