import VerifierTrace.Proofs.Grammar.Places
import VerifierTrace.Proofs.Text.Splitting

/-!
# Names of slots and what they denote

A name is read in either case, so everything is said about its lower case: `mem` denotes the
memory, `fp` with a signed numeral a stack slot (`Slot.WritesStack`), and the letter of a register
view with one or two digits a register (`Slot.WritesRegister`). `Slot.ReadsName` says for one name
which of these it denotes and which error it has otherwise, and `Slot.readsName` that this holds of
every name.

The slots that are denoted are the valid ones: all but the registers above the last one. The
canonical names of these, and of no others, are read back (`Slot.ofText_text_eq_ok_iff`).

The operands of a line are read by a grammar of their own. It lets only valid slots through
(`Line.valid_of_mem_slots`), and the text of an operand that is a register is a name of that
register (`Line.ofText_register`). So the slots that a line uses and changes are slots that its
facts can name (`Slot.names_agree`).
-/

set_option autoImplicit false
set_option relaxedAutoImplicit false

namespace VerifierTrace

open Scan

namespace Slot

/-! ### Names in lower case -/

def lowerCase (name : String) : List Char :=
  name.toList.map Char.toLower

/-- The text is `fp` and a signed numeral of the offset. -/
def WritesStack (text : List Char) (offset : Int) : Prop :=
  ∃ digits, text = "fp".toList ++ digits ∧ Numeral.IsSigned digits offset

/-- The text is the letter of the view and one or two digits of the number. -/
def WritesRegister (text : List Char) (view : RegisterView) (number : Nat) : Prop :=
  ∃ digits, text = view.letter :: digits ∧ Numeral.isNumeral Char.isDigit digits ∧
    digits.length ≤ 2 ∧ Numeral.ofDigits 10 digits = number

/-- What reading the name answers: the slot that it denotes, a register that does not exist, or,
for every other name, that it is none. -/
structure ReadsName (name : String) : Prop where
  memory : ofText name = .ok .memory ↔ lowerCase name = "mem".toList
  stack (offset : Int32) :
    ofText name = .ok (.stack offset) ↔ WritesStack (lowerCase name) offset.toInt
  register (number : UInt8) : ofText name = .ok (.register number) ↔
    ∃ view, WritesRegister (lowerCase name) view number.toNat ∧ number.toNat ≤ view.last
  beyond (number : Nat) : ofText name = .error (.registerOutOfRange number) ↔
    10 < number ∧ ∃ view, WritesRegister (lowerCase name) view number
  other : ofText name = .error (.invalidSlot name) ↔
    lowerCase name ≠ "mem".toList ∧
    (∀ offset : Int32, ¬ WritesStack (lowerCase name) offset.toInt) ∧
    ∀ view number, WritesRegister (lowerCase name) view number → view.last < number ∧ number ≤ 10

theorem toInt_ofInt_value (form : SignedForm 32) : (Int32.ofInt form.value).toInt = form.value := by
  obtain ⟨hlow, hhigh⟩ := Numeral.fits_iff.mp form.fits
  exact Int32.toInt_ofInt_of_le hlow hhigh

/-- Two digits are less than a byte. -/
theorem ofDigits_lt_limit {digits : List Char} (hnumeral : Numeral.isNumeral Char.isDigit digits)
    (hshort : digits.length ≤ 2) : Numeral.ofDigits 10 digits < Numeral.limit 8 := by
  have hvalue : ∀ c ∈ digits, Numeral.digitValue c < 16 := by
    intro c hc
    have hdigit := List.all_eq_true.mp (Numeral.all_of_isNumeral hnumeral) c hc
    exact Numeral.digitValue_lt_of_isHexDigit (by simp [Char.isHexDigit, hdigit])
  rcases digits with _ | ⟨c, _ | ⟨d, _ | ⟨e, others⟩⟩⟩
  · decide
  · have hc := hvalue c List.mem_cons_self
    show 10 * 0 + Numeral.digitValue c < 256
    omega
  · have hc := hvalue c List.mem_cons_self
    have hd := hvalue d (List.mem_cons_of_mem c List.mem_cons_self)
    show 10 * (10 * 0 + Numeral.digitValue c) + Numeral.digitValue d < 256
    omega
  · simp only [List.length_cons] at hshort
    omega

theorem registerNumber?_eq_some_iff {digits : List Char} {number : Nat} :
    registerNumber? digits = some number ↔ Numeral.isNumeral Char.isDigit digits ∧
      digits.length ≤ 2 ∧ Numeral.ofDigits 10 digits = number := by
  rw [RegisterForm.registerNumber?_eq_some_iff]
  constructor
  · rintro ⟨hshort, hnumeral, -, hnumber⟩
    exact ⟨hnumeral, hshort, hnumber⟩
  · rintro ⟨hnumeral, hshort, hnumber⟩
    exact ⟨hshort, hnumeral, ofDigits_lt_limit hnumeral hshort, hnumber⟩

section Reading

variable {name : String}

/-- A letter and digits of a number denote the register, unless there is none with the view. -/
theorem ofText_of_writesRegister {view : RegisterView} {number : Nat}
    (hwritten : WritesRegister (lowerCase name) view number) :
    ofText name = if number ≤ view.last then .ok (.register (UInt8.ofNat number))
      else if number ≤ 10 then .error (.invalidSlot name)
      else .error (.registerOutOfRange number) := by
  obtain ⟨digits, hlower, hdigits⟩ := hwritten
  rw [ofText_of_letter hlower, registerNumber?_eq_some_iff.mpr hdigits]
  rfl

/-- The only errors are a register that does not exist and that the name is none. -/
theorem error_of_ofText {error : DecodeError} (hread : ofText name = .error error) :
    error = .invalidSlot name ∨ ∃ number, error = .registerOutOfRange number ∧ 10 < number ∧
      ∃ view, WritesRegister (lowerCase name) view number := by
  have hregister : ∀ (view : RegisterView) (digits : List Char),
      lowerCase name = view.letter :: digits →
        error = .invalidSlot name ∨ ∃ number, error = .registerOutOfRange number ∧ 10 < number ∧
          ∃ view, WritesRegister (lowerCase name) view number := by
    intro view digits hlower
    cases hnumber : registerNumber? digits with
    | none =>
      rw [ofText_of_letter hlower, hnumber] at hread
      exact .inl (Except.error.inj hread).symm
    | some number =>
      have hwritten : WritesRegister (lowerCase name) view number :=
        ⟨digits, hlower, registerNumber?_eq_some_iff.mp hnumber⟩
      rw [ofText_of_writesRegister hwritten] at hread
      split at hread
      · cases hread
      · split at hread
        · exact .inl (Except.error.inj hread).symm
        · next hbeyond =>
          exact .inr
            ⟨number, (Except.error.inj hread).symm, Nat.lt_of_not_le hbeyond, view, hwritten⟩
  unfold ofText at hread
  split at hread
  · cases hread
  · split at hread
    · cases hread
    · exact .inl (Except.error.inj hread).symm
  · next digits hlower => exact hregister .whole digits hlower
  · next digits hlower => exact hregister .low digits hlower
  · exact .inl (Except.error.inj hread).symm

theorem ofText_eq_memory_iff : ofText name = .ok .memory ↔ lowerCase name = "mem".toList := by
  rw [ofText_eq_ok_iff]
  constructor
  · rintro ⟨form, hlower, hslot⟩
    cases form with
    | register form => cases hslot
    | stack offset => cases hslot
    | memory => exact hlower
  · intro hlower
    exact ⟨.memory, hlower, rfl⟩

theorem ofText_eq_stack_iff {offset : Int32} :
    ofText name = .ok (.stack offset) ↔ WritesStack (lowerCase name) offset.toInt := by
  rw [ofText_eq_ok_iff]
  constructor
  · rintro ⟨form, hlower, hslot⟩
    cases form with
    | register form => cases hslot
    | stack form =>
      obtain rfl := Slot.stack.inj hslot
      exact ⟨form.text, hlower, form.sign, form.digits, form.isNumeral, rfl, toInt_ofInt_value form⟩
    | memory => cases hslot
  · rintro ⟨_, hlower, sign, digits, hnumeral, rfl, hoffset⟩
    have hfits : Numeral.fits 32 offset.toInt :=
      Numeral.fits_iff.mpr ⟨offset.le_toInt, offset.toInt_lt⟩
    refine ⟨.stack ⟨sign, digits, hnumeral, hoffset ▸ hfits⟩, hlower, ?_⟩
    rw [NameForm.slot, SignedForm.value, ← hoffset, Int32.ofInt_toInt]

theorem ofText_eq_register_iff {number : UInt8} : ofText name = .ok (.register number) ↔
    ∃ view, WritesRegister (lowerCase name) view number.toNat ∧ number.toNat ≤ view.last := by
  constructor
  · intro hread
    obtain ⟨form, hlower, hslot⟩ := ofText_eq_ok_iff.mp hread
    cases form with
    | register form =>
      obtain rfl := Slot.register.inj hslot
      have hnumber : form.number.toNat = Numeral.ofDigits 10 form.digits :=
        UInt8.toNat_ofNat_of_lt' form.lt_limit
      rw [hnumber]
      exact ⟨form.view, ⟨form.digits, hlower, form.isNumeral, form.short, rfl⟩, form.inView⟩
    | stack form => cases hslot
    | memory => cases hslot
  · rintro ⟨view, hwritten, hlast⟩
    rw [ofText_of_writesRegister hwritten, if_pos hlast, UInt8.ofNat_toNat]

theorem ofText_eq_registerOutOfRange_iff {number : Nat} :
    ofText name = .error (.registerOutOfRange number) ↔
      10 < number ∧ ∃ view, WritesRegister (lowerCase name) view number := by
  constructor
  · intro hread
    rcases error_of_ofText hread with herror | ⟨number', herror, hbeyond⟩
    · cases herror
    · obtain rfl := DecodeError.registerOutOfRange.inj herror
      exact hbeyond
  · rintro ⟨hbeyond, view, hwritten⟩
    have hlast : ¬ number ≤ view.last :=
      Nat.not_le_of_lt (Nat.lt_of_le_of_lt view.last_le hbeyond)
    rw [ofText_of_writesRegister hwritten, if_neg hlast, if_neg (Nat.not_le_of_lt hbeyond)]

theorem ofText_eq_invalidSlot_iff : ofText name = .error (.invalidSlot name) ↔
    lowerCase name ≠ "mem".toList ∧
    (∀ offset : Int32, ¬ WritesStack (lowerCase name) offset.toInt) ∧
    ∀ view number, WritesRegister (lowerCase name) view number →
      view.last < number ∧ number ≤ 10 := by
  constructor
  · intro hread
    refine ⟨fun hmemory ↦ ?_, fun offset hstack ↦ ?_, fun view number hwritten ↦ ?_⟩
    · cases hread.symm.trans (ofText_eq_memory_iff.mpr hmemory)
    · cases hread.symm.trans (ofText_eq_stack_iff.mpr hstack)
    · rw [ofText_of_writesRegister hwritten] at hread
      split at hread
      · cases hread
      · next hlast =>
        split at hread
        · next hten => exact ⟨Nat.lt_of_not_le hlast, hten⟩
        · cases hread
  · rintro ⟨hmemory, hstack, hregister⟩
    cases hread : ofText name with
    | ok slot =>
      cases slot with
      | register number =>
        obtain ⟨view, hwritten, hlast⟩ := ofText_eq_register_iff.mp hread
        exact absurd hlast (Nat.not_le_of_lt (hregister view _ hwritten).1)
      | stack offset => exact absurd (ofText_eq_stack_iff.mp hread) (hstack offset)
      | memory => exact absurd (ofText_eq_memory_iff.mp hread) hmemory
    | error error =>
      rcases error_of_ofText hread with rfl | ⟨number, -, hbeyond, view, hwritten⟩
      · rfl
      · exact absurd hbeyond (Nat.not_lt_of_le (hregister view number hwritten).2)

end Reading

theorem readsName (name : String) : ReadsName name where
  memory := ofText_eq_memory_iff
  stack _ := ofText_eq_stack_iff
  register _ := ofText_eq_register_iff
  beyond _ := ofText_eq_registerOutOfRange_iff
  other := ofText_eq_invalidSlot_iff

example : ofText "W09" = .ok (.register 9) ∧ ofText "w10" = .error (.invalidSlot "w10") ∧
    ofText "w11" = .error (.registerOutOfRange 11) ∧ ofText "FP-00" = .ok (.stack 0) :=
  ⟨rfl, rfl, rfl, rfl⟩

/-! ### Canonical names -/

/-- All slots but the registers above the last one. -/
def Valid : Slot → Prop
  | .register number => number ≤ framePointerNumber
  | .stack _ => True
  | .memory => True

instance : DecidablePred Valid
  | .register number => inferInstanceAs (Decidable (number ≤ framePointerNumber))
  | .stack _ => .isTrue trivial
  | .memory => .isTrue trivial

theorem toLower_of_isDigit {c : Char} (hdigit : c.isDigit) : c.toLower = c := by
  apply Char.ext
  rw [val_toLower]
  have hclass : c.isDigit = (decide (c.val ≥ '0'.val) && decide (c.val ≤ '9'.val)) := rfl
  grind

theorem map_toLower_digits {digits : List Char} (hdigits : digits.all Char.isDigit) :
    digits.map Char.toLower = digits :=
  (List.map_congr_left fun c hc ↦
    toLower_of_isDigit (List.all_eq_true.mp hdigits c hc)).trans (List.map_id' digits)

theorem lowerCase_text (slot : Slot) :
    lowerCase slot.text = slot.lead.map Char.toLower ++ slot.digits := by
  rw [lowerCase, toList_text, List.map_append, map_toLower_digits slot.all_isDigit_digits]

/-- The canonical name of a slot is read back, unless it names a register that does not exist. -/
theorem ofText_text_eq_ok_iff {slot : Slot} : ofText slot.text = .ok slot ↔ slot.Valid := by
  cases slot with
  | register number =>
    rw [ofText_eq_register_iff, Valid, UInt8.le_iff_toNat_le]
    constructor
    · rintro ⟨view, -, hlast⟩
      exact Nat.le_trans hlast view.last_le
    · intro hvalid
      have hshort : ∀ number ≤ framePointerNumber.toNat,
          (Numeral.text number).toList.length ≤ 2 := by decide
      exact ⟨.whole, ⟨_, lowerCase_text _, Numeral.isNumeral_text _, hshort _ hvalid,
        Numeral.ofDigits_text _⟩, hvalid⟩
  | stack offset =>
    have hsigned : Numeral.IsSigned
        ((if offset.toInt < 0 then '-' else '+') :: digits (.stack offset)) offset.toInt := by
      by_cases hnegative : offset.toInt < 0
      · refine ⟨.minus, _, Numeral.isNumeral_text _, by rw [if_pos hnegative]; rfl, ?_⟩
        rw [Numeral.ofDigits_text, Sign.factor]
        omega
      · refine ⟨.plus, _, Numeral.isNumeral_text _, by rw [if_neg hnegative]; rfl, ?_⟩
        rw [Numeral.ofDigits_text, Sign.factor]
        omega
    refine iff_of_true (ofText_eq_stack_iff.mpr ⟨_, ?_, hsigned⟩) trivial
    rw [lowerCase_text, lead]
    split
    · rfl
    · rfl
  | memory => exact iff_of_true rfl trivial

theorem text_injective : Function.Injective text := by
  intro slot slot' hsame
  have hlists : [] ++ slot.text.toList = [] ++ slot'.text.toList := by rw [hsame]
  exact (append_text_injective hlists).2

/-- Every slot that a name denotes is valid. -/
theorem valid_of_ofText {name : String} {slot : Slot} (hread : ofText name = .ok slot) :
    slot.Valid := by
  cases slot with
  | register number =>
    obtain ⟨view, -, hlast⟩ := ofText_eq_register_iff.mp hread
    exact UInt8.le_iff_toNat_le.mpr (Nat.le_trans hlast view.last_le)
  | stack offset => trivial
  | memory => trivial

end Slot

/-! ### Registers in the operands of a line -/

namespace RegisterForm

/-- A register in a line is written by one of its names. -/
theorem ofText_text (form : RegisterForm) :
    Slot.ofText (String.ofList form.text) = .ok (.register form.number) := by
  refine Slot.ofText_eq_ok_iff.mpr ⟨.register form, ?_, rfl⟩
  have hletter : form.view.letter.toLower = form.view.letter := by cases form.view <;> rfl
  rw [String.toList_ofList, NameForm.text, text, List.map_cons, hletter,
    Slot.map_toLower_digits (Numeral.all_of_isNumeral form.isNumeral)]

theorem number_le (form : RegisterForm) : form.number ≤ Slot.framePointerNumber :=
  Slot.valid_of_ofText form.ofText_text

end RegisterForm

/-- The registers of the place exist. -/
def Place.Valid : Place → Prop
  | .register number => (Slot.register number).Valid
  | .reference base _ => (Slot.register base).Valid
  | .immediate _ => True

theorem SourceForm.valid_place (form : SourceForm) (offset : Nat) :
    (form.operand offset).place.Valid := by
  match form with
  | .target (.register form) => exact form.number_le
  | .target (.reference form) => exact form.base.number_le
  | .number form longMark => trivial

/-- The operand is what some text of a line stands for, from a place of the line on. -/
def Operand.StandsAfter (start : Scan) (operand : Operand) : Prop :=
  ∃ (form : SourceForm) (place stop : Scan), start.Reaches place ∧ Passes form.text place stop ∧
    operand = form.operand place.offset

section Operands

variable {start stop place : Scan} {operand : Operand}

theorem Operand.StandsAfter.after (hstands : operand.StandsAfter place)
    (hreaches : start.Reaches place) : operand.StandsAfter start := by
  obtain ⟨form, at', after, hat, hpasses, hoperand⟩ := hstands
  exact ⟨form, at', after, hreaches.trans hat, hpasses, hoperand⟩

theorem SourceForm.standsAfter (form : SourceForm) (hpasses : Passes form.text start stop) :
    (form.operand start.offset).StandsAfter start :=
  ⟨form, start, stop, .refl start, hpasses, rfl⟩

theorem AssignmentForm.standsAfter (form : AssignmentForm) (hpasses : Passes form.text start stop) :
    (form.assignment start.offset).target.StandsAfter start ∧
      (form.assignment start.offset).source.StandsAfter start := by
  obtain ⟨sourceAt, hbeforeSource, hsource⟩ := passes_append.mp hpasses
  obtain ⟨targetAt, hlock, hparts⟩ := passes_append.mp hbeforeSource
  obtain ⟨afterTarget, htarget, -⟩ := passes_append.mp hparts
  have htarget' := (SourceForm.standsAfter (.target form.target) htarget).after hlock.reaches
  have hsource' := (form.source.standsAfter hsource).after hbeforeSource.reaches
  rw [hlock.2] at htarget'
  rw [hbeforeSource.2] at hsource'
  exact ⟨htarget', hsource'⟩

theorem ConditionForm.standsAfter (form : ConditionForm) (hpasses : Passes form.text start stop) :
    (form.condition start.offset).left.StandsAfter start ∧
      (form.condition start.offset).right.StandsAfter start := by
  obtain ⟨rightAt, hbeforeRight, hright⟩ := passes_append.mp hpasses
  obtain ⟨afterLeft, hleft, -⟩ := passes_append.mp hbeforeRight
  have hright' := (form.right.standsAfter hright).after hbeforeRight.reaches
  rw [hbeforeRight.2] at hright'
  exact ⟨SourceForm.standsAfter (.target (.register form.left)) hleft, hright'⟩

/-- The operands of an instruction stand in the line where it was read. -/
theorem Instruction.standsAfter_of_read {pc : Nat} {opcode : Opcode} {instruction : Instruction}
    (hread : Instruction.read pc opcode start = .ok (instruction, stop)) :
    ∀ operand ∈ instruction.operands, operand.StandsAfter start := by
  obtain ⟨form, -, hpasses, -, rfl⟩ := Instruction.read_eq_ok_iff_form.mp hread
  have hpair : ∀ first second : Operand, first.StandsAfter start ∧ second.StandsAfter start →
      ∀ operand ∈ [first, second], operand.StandsAfter start := by
    rintro first second ⟨hfirst, hsecond⟩
    exact List.forall_mem_cons.mpr ⟨hfirst, List.forall_mem_singleton.mpr hsecond⟩
  match form with
  | .assignment form => exact hpair _ _ (form.standsAfter hpasses)
  | .jump (.conditional form) =>
    obtain ⟨targetAt, hbeforeTarget, -⟩ := passes_append.mp hpasses
    obtain ⟨conditionAt, hif, hparts⟩ := passes_append.mp hbeforeTarget
    obtain ⟨afterCondition, hcondition, -⟩ := passes_append.mp hparts
    obtain ⟨hleft, hright⟩ := form.condition.standsAfter hcondition
    rw [hif.2] at hleft hright
    exact hpair _ _ ⟨hleft.after hif.reaches, hright.after hif.reaches⟩
  | .jump (.call _ _) => exact List.forall_mem_nil _
  | .jump (.exit _) => exact List.forall_mem_nil _
  | .jump (.unconditional _ _) => exact List.forall_mem_nil _

/-- The text of a register operand is a name of the register. -/
theorem Operand.StandsAfter.ofText_register {line : String} {number : UInt8}
    (hstands : operand.StandsAfter (Scan.ofText line)) (hplace : operand.place = .register number) :
    ∃ name, operand.span.slice? line = some name ∧ Slot.ofText name = .ok (.register number) := by
  obtain ⟨form, place, stop, hreaches, hpasses, rfl⟩ := hstands
  match form with
  | .target (.register form) =>
    obtain rfl := Place.register.inj hplace
    exact ⟨_, slice?_of_passes hreaches hpasses, form.ofText_text⟩
  | .target (.reference form) => cases hplace
  | .number form longMark => cases hplace

end Operands

/-! ### Slots of a line -/

/-- The slots of the operands of an instruction, and those that it uses and changes. -/
def Instruction.slots (instruction : Instruction) : List Slot :=
  instruction.operands.filterMap Operand.slot? ++ (instruction.reads ++ instruction.writes)

/-- The slots of the instruction and of the facts of a line. -/
def Line.slots (line : Line) : List Slot :=
  line.instruction?.elim [] Instruction.slots ++ line.facts.map Fact.slot

theorem Operand.valid_slot? {operand : Operand} (hplace : operand.place.Valid) :
    ∀ slot ∈ operand.slot?.toList, slot.Valid := by
  obtain ⟨place, size, span⟩ := operand
  cases place with
  | register number => exact List.forall_mem_singleton.mpr hplace
  | reference base offset =>
    show ∀ slot ∈ (if base = Slot.framePointerNumber then some (Slot.stack offset)
      else some .memory).toList, slot.Valid
    split
    · exact List.forall_mem_singleton.mpr trivial
    · exact List.forall_mem_singleton.mpr trivial
  | immediate value => exact List.forall_mem_nil _

theorem Operand.valid_address? {operand : Operand} (hplace : operand.place.Valid) :
    ∀ slot ∈ operand.address?.toList, slot.Valid := by
  obtain ⟨place, size, span⟩ := operand
  cases place with
  | register number => exact List.forall_mem_nil _
  | reference base offset =>
    show ∀ slot ∈ (if base = Slot.framePointerNumber then none
      else some (Slot.register base)).toList, slot.Valid
    split
    · exact List.forall_mem_nil _
    · exact List.forall_mem_singleton.mpr hplace
  | immediate value => exact List.forall_mem_nil _

theorem Assignment.valid_reads {assignment : Assignment} (htarget : assignment.target.place.Valid)
    (hsource : assignment.source.place.Valid) : ∀ slot ∈ assignment.reads, slot.Valid := by
  intro slot hslot
  simp only [reads, Slot.mem_sorted, List.mem_append] at hslot
  obtain ((hslot | hslot) | hslot) | hslot := hslot
  · split at hslot
    · exact Operand.valid_slot? htarget slot hslot
    · cases hslot
  · exact Operand.valid_address? htarget slot hslot
  · exact Operand.valid_address? hsource slot hslot
  · exact Operand.valid_slot? hsource slot hslot

/-- A call uses the argument registers, and any other jump what it compares. -/
theorem Jump.valid_reads {jump : Jump}
    (hcondition : ∀ condition ∈ jump.condition,
      condition.left.place.Valid ∧ condition.right.place.Valid) :
    ∀ slot ∈ jump.reads, slot.Valid := by
  have harguments : ∀ slot ∈ Slot.arguments, slot.Valid := by decide
  obtain ⟨kind, target, targetSpan, condition⟩ := jump
  cases kind with
  | helperCall => exact harguments
  | subprogramCall => exact harguments
  | conditional =>
    cases condition with
    | none => exact List.forall_mem_nil _
    | some condition =>
      obtain ⟨hleft, hright⟩ := hcondition condition rfl
      intro slot hslot
      simp only [reads, Slot.mem_sorted, List.mem_append] at hslot
      rcases hslot with hslot | hslot
      · exact Operand.valid_slot? hleft slot hslot
      · exact Operand.valid_slot? hright slot hslot
  | unconditional => exact List.forall_mem_nil _
  | exit => exact List.forall_mem_nil _

theorem Jump.valid_writes (jump : Jump) : ∀ slot ∈ jump.writes, slot.Valid := by
  have hresult : ∀ slot ∈ Slot.returnValue :: Slot.arguments, slot.Valid := by decide
  have hcaller : ∀ slot ∈ Slot.returnValue :: Slot.calleeSaved, slot.Valid := by decide
  obtain ⟨kind, target, targetSpan, condition⟩ := jump
  cases kind with
  | helperCall => exact hresult
  | subprogramCall => exact hcaller
  | conditional => exact List.forall_mem_nil _
  | unconditional => exact List.forall_mem_nil _
  | exit => exact List.forall_mem_nil _

/-- An instruction with valid operands uses and changes valid slots only. -/
theorem Instruction.valid_slots {instruction : Instruction}
    (hoperands : ∀ operand ∈ instruction.operands, operand.place.Valid) :
    ∀ slot ∈ instruction.slots, slot.Valid := by
  obtain ⟨pc, opcode, operation, span⟩ := instruction
  intro slot hslot
  simp only [slots, List.mem_append, List.mem_filterMap] at hslot
  obtain ⟨operand, hoperand, hslot⟩ | hreads | hwrites := hslot
  · exact Operand.valid_slot? (hoperands operand hoperand) slot (Option.mem_toList.mpr hslot)
  · cases operation with
    | assignment assignment =>
      exact Assignment.valid_reads (hoperands _ List.mem_cons_self)
        (hoperands _ (List.mem_cons_of_mem _ List.mem_cons_self)) slot hreads
    | jump jump =>
      refine Jump.valid_reads (fun condition hcondition ↦ ?_) slot hreads
      have hpair : ∀ operand ∈ jump.condition.elim [] fun condition ↦
          [condition.left, condition.right], operand.place.Valid := hoperands
      rw [Option.mem_def.mp hcondition] at hpair
      exact ⟨hpair _ List.mem_cons_self, hpair _ (List.mem_cons_of_mem _ List.mem_cons_self)⟩
  · cases operation with
    | assignment assignment =>
      exact Operand.valid_slot? (hoperands _ List.mem_cons_self) slot hwrites
    | jump jump => exact jump.valid_writes slot hwrites

namespace Line

theorem standsAfter_of_mem_operands {text : String} {instruction : Instruction}
    (hinstruction : (ofText text).instruction? = some instruction) :
    ∀ operand ∈ instruction.operands, operand.StandsAfter (Scan.ofText (ofText text).raw) := by
  unfold instruction? at hinstruction
  split at hinstruction
  · next found facts hcontent =>
    obtain rfl := Option.some.inj hinstruction
    obtain ⟨head, ending, place, after, stop, hhead, -, hread, -⟩ :=
      exists_of_readContent (content_ofText_eq_instruction_iff.mp hcontent)
    intro operand hoperand
    rw [raw_ofText]
    exact (Instruction.standsAfter_of_read hread operand hoperand).after hhead.reaches
  · cases hinstruction

theorem standsIn_of_isPlaced {line : Line} (hplaced : line.content.IsPlaced line.raw) :
    ∀ fact ∈ line.facts, fact.StandsIn line.raw := by
  obtain ⟨raw, content⟩ := line
  cases content with
  | instruction read found => exact hplaced.2.standsIn
  | sourceComment text => exact List.forall_mem_nil _
  | unrecognized error => exact List.forall_mem_nil _

/-- All slots of a line are valid. -/
theorem valid_of_mem_slots (text : String) : ∀ slot ∈ (ofText text).slots, slot.Valid := by
  intro slot hslot
  rcases List.mem_append.mp hslot with hslot | hslot
  · cases hinstruction : (ofText text).instruction? with
    | none =>
      rw [hinstruction] at hslot
      cases hslot
    | some instruction =>
      rw [hinstruction] at hslot
      refine Instruction.valid_slots (fun operand hoperand ↦ ?_) slot hslot
      obtain ⟨form, place, -, -, -, rfl⟩ :=
        standsAfter_of_mem_operands hinstruction operand hoperand
      exact form.valid_place place.offset
  · obtain ⟨fact, hfact, rfl⟩ := List.mem_map.mp hslot
    obtain ⟨key, name, -, -, hread, -⟩ :=
      standsIn_of_isPlaced (LineContent.isPlaced_ofText text) fact hfact
    exact Slot.valid_of_ofText hread

end Line

/-- Slots are denoted alike everywhere. A name denotes the slot that it is written for, or it fails
as it should; the canonical names are names of the slots, as far as these are valid, and no two are
alike; all slots of a line are valid, and a register that is read in an instruction is written by a
name of the same register. -/
theorem Slot.names_agree :
    (∀ name, Slot.ReadsName name) ∧
    (∀ slot : Slot, Slot.ofText slot.text = .ok slot ↔ slot.Valid) ∧
    Function.Injective Slot.text ∧
    (∀ text, (∀ slot ∈ (Line.ofText text).slots, slot.Valid) ∧
      ∀ instruction ∈ (Line.ofText text).instruction?, ∀ operand ∈ instruction.operands,
        ∀ number, operand.place = .register number →
          ∃ name, operand.span.slice? (Line.ofText text).raw = some name ∧
            Slot.ofText name = .ok (.register number)) ∧
    ∀ start stop number size, Operand.registerName? start = some ((number, size), stop) →
      ∃ name, Passes name start stop ∧
        Slot.ofText (String.ofList name) = .ok (.register number) := by
  refine ⟨Slot.readsName, fun slot ↦ Slot.ofText_text_eq_ok_iff, Slot.text_injective,
    fun text ↦ ⟨Line.valid_of_mem_slots text, ?_⟩, ?_⟩
  · intro instruction hinstruction operand hoperand number hplace
    exact (Line.standsAfter_of_mem_operands hinstruction operand hoperand).ofText_register hplace
  · intro start stop number size hread
    obtain ⟨form, hpasses, -, rfl, -⟩ := RegisterForm.registerName?_eq_some_iff.mp hread
    exact ⟨form.text, hpasses, form.ofText_text⟩

/-- A line that stores a register below the frame pointer and states a fact about it. -/
def storeLine : String := "0: (7b) *(u64 *)(r10 -8) = r2 ; R2=1"

/-- The instruction of `storeLine`. -/
def store : Instruction where
  pc := some 0
  opcode := ⟨0x7b⟩
  operation := .assignment
    ⟨.assign, ⟨.reference 10 (-8), 8, ⟨8, 16⟩⟩, ⟨.register 2, 8, ⟨27, 2⟩⟩, none, false⟩
  span := ⟨8, 21⟩

theorem Slot.names_agree_storeLine :
    (Slot.stack (-8) ∈ (Line.ofText storeLine).slots ∧ (Slot.stack (-8)).Valid) ∧
    ((Line.ofText storeLine).instruction? = some store ∧
      ∃ name, (Span.mk 27 2).slice? (Line.ofText storeLine).raw = some name ∧
        Slot.ofText name = .ok (.register 2)) ∧
    (Operand.registerName? (Scan.ofText "w9 ") = some ((9, 4), ⟨2, [' ']⟩) ∧
      ∃ name, Passes name (Scan.ofText "w9 ") ⟨2, [' ']⟩ ∧
        Slot.ofText (String.ofList name) = .ok (.register 9)) := by
  obtain ⟨-, -, -, hlines, hnames⟩ := Slot.names_agree
  obtain ⟨hslots, hregisters⟩ := hlines storeLine
  have hslot : Slot.stack (-8) ∈ (Line.ofText storeLine).slots := by decide +kernel
  have hline : (Line.ofText storeLine).instruction? = some store := by decide +kernel
  have hread : Operand.registerName? (Scan.ofText "w9 ") = some ((9, 4), ⟨2, [' ']⟩) := by
    decide +kernel
  exact ⟨⟨hslot, hslots _ hslot⟩,
    ⟨hline, hregisters store hline ⟨.register 2, 8, ⟨27, 2⟩⟩ (by decide) 2 rfl⟩,
    ⟨hread, hnames _ _ _ _ hread⟩⟩

end VerifierTrace
