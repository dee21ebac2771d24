import VerifierTrace.Proofs.Grammar.AssignmentLine
import VerifierTrace.Proofs.Grammar.JumpLine

/-!
# The lines that hold instructions

An `OperationForm` is what an instruction does as it is written, an assignment or a jump, and a
`LineForm` is the syntax tree of a whole line with an instruction of any class. The texts of these
trees are all the lines that are read as instructions (`Line.content_ofText_eq_iff_form`).

The code of a line is what stands before its comment: the head, the text of the instruction and the
blanks after it. No form of the grammar holds a semicolon or a character that ends a line, neither
in its words and symbols nor in its numbers and blanks (`LineForm.isCode`). So the code ends at the
first semicolon, and what is removed from the end of a line is removed from its comment alone.
-/

set_option autoImplicit false
set_option relaxedAutoImplicit false

namespace VerifierTrace

open Scan

/-! ### Code -/

/-- The characters that cannot stand in the code of a line: the one before a comment, and those
that end a line. -/
def codeEnds : List Char :=
  [';', '\n', '\r']

def IsCode (text : List Char) : Prop :=
  ∀ c ∈ text, c ∉ codeEnds

instance (text : List Char) : Decidable (IsCode text) :=
  decidable_of_iff (text.all fun c ↦ c ∉ codeEnds) (by simp [IsCode])

theorem isCode_nil : IsCode [] :=
  fun _ hmem ↦ absurd hmem List.not_mem_nil

theorem isCode_append {first second : List Char} :
    IsCode (first ++ second) ↔ IsCode first ∧ IsCode second :=
  List.forall_mem_append

theorem isCode_of_all {text : List Char} {inClass : Char → Bool} (hall : text.all inClass)
    (hclass : codeEnds.any inClass = false) : IsCode text :=
  fun c hmem hend ↦ List.any_eq_false.mp hclass c hend (List.all_eq_true.mp hall c hmem)

theorem isCode_of_isNumeral {isDigit : Char → Bool} {digits : List Char}
    (hnumeral : Numeral.isNumeral isDigit digits) (hclass : codeEnds.any isDigit = false) :
    IsCode digits :=
  isCode_of_all (Numeral.all_of_isNumeral hnumeral) hclass

theorem IsCode.semicolon_not_mem {text : List Char} (hcode : IsCode text) : ';' ∉ text :=
  fun hmem ↦ hcode ';' hmem (by decide)

/-- Code does not end in a character that ends a line. -/
theorem IsCode.isLineEnd_getLast? {text : List Char} (hcode : IsCode text) :
    ∀ c ∈ text.getLast?, isLineEnd c = false := by
  intro c hc
  rw [← Bool.not_eq_true]
  intro hend
  refine hcode c (List.mem_of_getLast? hc) ?_
  obtain rfl | rfl : c = '\n' ∨ c = '\r' := by simpa [isLineEnd] using hend
  · decide
  · decide

theorem Blanks.isCode (blanks : Blanks) : IsCode blanks.text :=
  isCode_of_all blanks.all_isBlank (by decide)

/-! #### Operands -/

theorem RegisterForm.isCode (form : RegisterForm) : IsCode form.text := by
  have hletter : IsCode [form.view.letter] := by cases form.view <;> decide
  exact isCode_append.mpr ⟨hletter, isCode_of_isNumeral form.isNumeral (by decide)⟩

theorem SignedForm.isCode {bits : Nat} (form : SignedForm bits) : IsCode form.text := by
  have hsign : IsCode [form.sign.character] := by cases form.sign <;> decide
  exact isCode_append.mpr ⟨hsign, isCode_of_isNumeral form.isNumeral (by decide)⟩

theorem ReferenceForm.isCode (form : ReferenceForm) : IsCode form.text := by
  have hwidth : IsCode form.width.word := by cases form.width <;> decide
  simp only [text, isCode_append]
  exact ⟨by decide, form.beforeWidth.isCode, hwidth, form.afterWidth.isCode, by decide,
    form.beforeAddress.isCode, by decide, form.beforeBase.isCode, form.base.isCode,
    form.beforeOffset.isCode, form.offset.isCode, form.afterOffset.isCode, by decide⟩

theorem TargetForm.isCode (form : TargetForm) : IsCode form.text := by
  cases form with
  | register form => exact form.isCode
  | reference form => exact form.isCode

theorem MagnitudeForm.isCode (form : MagnitudeForm) : IsCode form.text := by
  have hmark : IsCode form.radix.mark := by cases form.radix <;> decide
  have hclass : codeEnds.any form.radix.isDigit = false := by cases form.radix <;> decide
  exact isCode_append.mpr ⟨hmark, isCode_of_isNumeral form.isNumeral hclass⟩

theorem NumberForm.isCode (form : NumberForm) : IsCode form.text := by
  have hminus : IsCode (minusText form.negative) := by cases form.negative <;> decide
  exact isCode_append.mpr ⟨hminus, form.magnitude.isCode⟩

theorem SourceForm.isCode (form : SourceForm) : IsCode form.text := by
  cases form with
  | target form => exact form.isCode
  | number form longMark =>
    refine isCode_append.mpr ⟨form.isCode, ?_⟩
    cases longMark with
    | none => exact isCode_nil
    | some gap => exact isCode_append.mpr ⟨gap.isCode, by decide⟩

/-! #### Assignments -/

theorem ModifierForm.isCode (form : ModifierForm) : IsCode form.text := by
  cases form with
  | negate => decide
  | byteSwap order width after =>
    have hword : IsCode (swapWord order width) := by cases order <;> cases width <;> decide
    exact isCode_append.mpr ⟨hword, after.isCode⟩
  | signExtend width after =>
    have hword : IsCode (castWord width) := by cases width <;> decide
    exact isCode_append.mpr ⟨hword, after.isCode⟩

theorem AssignmentForm.isCode (form : AssignmentForm) : IsCode form.text := by
  have hlock : IsCode (lockText form.lock) := by
    cases form.lock with
    | none => exact isCode_nil
    | some gap => exact isCode_append.mpr ⟨by decide, gap.isCode⟩
  have hsymbol : IsCode form.operator.spelling := by cases form.operator <;> decide
  have hmodifier : IsCode (modifierText form.modifier) := by
    cases form.modifier with
    | none => exact isCode_nil
    | some modifier => exact modifier.isCode
  simp only [text, beforeSource, isCode_append]
  exact ⟨⟨hlock, form.target.isCode, form.beforeOperator.isCode, hsymbol,
    form.beforeModifier.isCode, hmodifier⟩, form.source.isCode⟩

/-! #### Jumps -/

theorem ConditionForm.isCode (form : ConditionForm) : IsCode form.text := by
  have hsymbol : IsCode form.comparator.spelling := by cases form.comparator <;> decide
  simp only [text, beforeSource, isCode_append]
  exact ⟨⟨form.left.isCode, form.beforeComparator.isCode, hsymbol,
    form.beforeRight.isCode⟩, form.right.isCode⟩

theorem GotoForm.isCode (form : GotoForm) : IsCode form.text := by
  have hword : IsCode form.spelling.word.toList := by cases form.spelling <;> decide
  exact isCode_append.mpr ⟨hword, form.after.isCode⟩

theorem DestinationForm.isCode (form : DestinationForm) : IsCode form.text :=
  isCode_of_all form.all_isTargetChar (by decide)

theorem JumpForm.isCode (form : JumpForm) : IsCode form.text := by
  cases form with
  | call afterCall target =>
    simp only [text, isCode_append]
    exact ⟨⟨by decide, afterCall.isCode⟩, target.isCode⟩
  | exit spelled => cases spelled <;> decide
  | unconditional goto target =>
    exact isCode_append.mpr ⟨goto.isCode, target.isCode⟩
  | conditional form =>
    simp only [text, BranchForm.text, BranchForm.beforeTarget, BranchForm.beforeCondition,
      isCode_append]
    exact ⟨⟨⟨by decide, form.afterIf.isCode⟩, form.condition.isCode,
      form.beforeGoto.isCode, form.goto.isCode⟩, form.target.isCode⟩

/-! #### Heads -/

theorem OpcodeForm.isCode (form : OpcodeForm) : IsCode form.text := by
  have hdigits : form.digits.all Char.isHexDigit := by simp [digits, form.isHigh, form.isLow]
  simp only [text, isCode_append]
  exact ⟨by decide, isCode_of_all hdigits (by decide), by decide⟩

theorem HeadForm.isCode (form : HeadForm) : IsCode form.text := by
  simp only [text, isCode_append]
  exact ⟨form.indent.isCode, isCode_of_isNumeral form.isNumeral (by decide), by decide,
    form.beforeOpcode.isCode, form.opcodeForm.isCode, form.afterOpcode.isCode⟩

/-! ### Operations -/

/-- What an instruction does, as it is written. -/
inductive OperationForm
  | assignment (form : AssignmentForm)
  | jump (form : JumpForm)

namespace OperationForm

def text : OperationForm → List Char
  | assignment form => form.text
  | jump form => form.text

/-- The operation that is meant, when its text stands at a position of a line. -/
def operation (offset : Nat) : OperationForm → Operation
  | assignment form => .assignment (form.assignment offset)
  | jump form => .jump (form.jump offset)

/-- The opcode is one of the instructions that are written in the form. -/
def Belongs (opcode : Opcode) : OperationForm → Prop
  | assignment _ => opcode.instructionClass.isJump = false
  | jump form => opcode.instructionClass.isJump = true ∧ opcode.code ∈ form.codes

/-- What must not follow the text for it to be all of the operation. -/
def Ends (stop : Scan) : OperationForm → Prop
  | assignment form => form.source.Ends stop
  | jump form => form.Ends stop

theorem isCode (form : OperationForm) : IsCode form.text := by
  cases form with
  | assignment form => exact form.isCode
  | jump form => exact form.isCode

/-- No operation begins with a blank, and where it has no text, neither does what follows it. -/
theorem avoids_isBlank (form : OperationForm) {start stop : Scan}
    (hpasses : Passes form.text start stop) (hstop : form.text = [] → stop.Avoids isBlank) :
    start.Avoids isBlank := by
  cases form with
  | assignment form => exact form.avoids_isBlank hpasses
  | jump form => exact form.avoids_isBlank hpasses hstop

/-- An ending lets every operation before it end. -/
theorem ends_of_ending (form : OperationForm) (ending : EndingForm) {start stop : Scan}
    (hpasses : Passes ending.text start stop) (hstop : stop.rest = []) : form.Ends start := by
  cases form with
  | assignment form => exact form.source.ends_of_ending ending hpasses hstop
  | jump form => exact form.ends_of_ending ending hpasses hstop

/-- The only operation without a text is an exit, which has no position. -/
theorem operation_eq_of_text_eq_nil {form : OperationForm} (hnone : form.text = [])
    (offset offset' : Nat) : form.operation offset = form.operation offset' := by
  cases form with
  | assignment form =>
    have htarget : form.target.text.head? = none := by
      have hparts := List.append_eq_nil_iff.mp (List.append_eq_nil_iff.mp hnone).1
      rw [(List.append_eq_nil_iff.mp hparts.2).1]
      rfl
    rw [form.target.head?_text] at htarget
    cases htarget
  | jump form =>
    cases form with
    | call afterCall target =>
      exact absurd hnone (List.append_ne_nil_of_right_ne_nil _ target.nonempty)
    | exit spelled => rfl
    | unconditional goto target =>
      exact absurd hnone (List.append_ne_nil_of_right_ne_nil _ target.nonempty)
    | conditional form =>
      exact absurd hnone (List.append_ne_nil_of_right_ne_nil _ form.target.nonempty)

end OperationForm

/-- An instruction is read exactly from the text of a form that its opcode is written in. -/
theorem Instruction.read_eq_ok_iff_form {pc : Nat} {opcode : Opcode} {start stop : Scan}
    {instruction : Instruction} : read pc opcode start = .ok (instruction, stop) ↔
      ∃ form : OperationForm, form.Belongs opcode ∧ Passes form.text start stop ∧
        form.Ends stop ∧ instruction = ⟨some pc, opcode, form.operation start.offset,
          ⟨start.offset, octets form.text⟩⟩ := by
  cases hclass : opcode.instructionClass.isJump with
  | false =>
    rw [read_eq_ok_iff hclass]
    constructor
    · rintro ⟨form, hpasses, hends, hsame⟩
      exact ⟨.assignment form, hclass, hpasses, hends, hsame⟩
    · rintro ⟨form | form, hbelongs, hpasses, hends, hsame⟩
      · exact ⟨form, hpasses, hends, hsame⟩
      · exact absurd (hclass.symm.trans hbelongs.1) (by decide)
  | true =>
    rw [read_eq_ok_iff_of_isJump hclass]
    constructor
    · rintro ⟨form, hcode, hpasses, hends, hsame⟩
      exact ⟨.jump form, ⟨hclass, hcode⟩, hpasses, hends, hsame⟩
    · rintro ⟨form | form, hbelongs, hpasses, hends, hsame⟩
      · exact absurd (hclass.symm.trans hbelongs) (by decide)
      · exact ⟨form, hbelongs.2, hpasses, hends, hsame⟩

/-! ### Lines -/

/-- The syntax tree of a line with an instruction. -/
structure LineForm where
  head : HeadForm
  body : OperationForm
  belongs : body.Belongs head.opcode
  ending : EndingForm
  /-- Around an exit that is not spelled out, the blanks belong to the head. -/
  anchored : body.text = [] → ending.blanks.text = []

namespace LineForm

/-- What stands before the comment. -/
def code (form : LineForm) : List Char :=
  form.head.text ++ (form.body.text ++ form.ending.blanks.text)

def text (form : LineForm) : List Char :=
  form.code ++ commentText form.ending.comment

/-- The instruction that the line holds. -/
def instruction (form : LineForm) : Instruction where
  pc := some form.head.pc
  opcode := form.head.opcode
  operation := form.body.operation (octets form.head.text)
  span := ⟨octets form.head.text, octets form.body.text⟩

/-- The facts that the line states. -/
def facts (form : LineForm) : List Fact :=
  form.ending.facts (octets (form.head.text ++ form.body.text))

theorem isCode (form : LineForm) : IsCode form.code := by
  simp only [code, isCode_append]
  exact ⟨form.head.isCode, form.body.isCode, form.ending.blanks.isCode⟩

theorem text_eq (form : LineForm) :
    form.text = form.head.text ++ (form.body.text ++ form.ending.text) := by
  simp only [text, code, EndingForm.text, List.append_assoc]

/-- Blanks may be put at the end of the code, and any comment after them. Around an exit that is not
spelled out they belong to the head, which moves the exit and changes nothing else of it. -/
theorem exists_padded (form : LineForm) (more : Blanks) (comment : Option (List Char)) :
    ∃ padded : LineForm, padded.code = form.code ++ more.text ∧
      padded.ending.comment = comment ∧ padded.instruction.pc = form.instruction.pc ∧
        padded.instruction.operation = form.instruction.operation := by
  have hareBlank : ∀ blanks : Blanks, (blanks.text ++ more.text).all isBlank := by
    intro blanks
    rw [List.all_append, blanks.all_isBlank, more.all_isBlank]
    rfl
  by_cases hnone : form.body.text = []
  · let head : HeadForm :=
      { form.head with afterOpcode := ⟨_, hareBlank form.head.afterOpcode⟩ }
    refine ⟨⟨head, form.body, form.belongs, ⟨.spaces 0, comment⟩, fun _ ↦ rfl⟩, ?_, rfl, rfl,
      OperationForm.operation_eq_of_text_eq_nil hnone _ _⟩
    simp [code, hnone, form.anchored hnone, head, HeadForm.text, Blanks.spaces]
  · refine ⟨⟨form.head, form.body, form.belongs, ⟨⟨_, hareBlank form.ending.blanks⟩, comment⟩,
      fun hnone' ↦ absurd hnone' hnone⟩, ?_, rfl, rfl, rfl⟩
    simp only [code, List.append_assoc]

end LineForm

namespace Line

theorem readContent_eq_ok_iff_form {raw : String} {instruction : Instruction}
    {facts : List Fact} :
    readContent (Scan.ofText raw) = .ok (.instruction instruction facts) ↔
      ∃ form : LineForm, raw.toList = form.text ∧ instruction = form.instruction ∧
        facts = form.facts := by
  rw [readContent_eq_ok_iff]
  constructor
  · rintro ⟨head, ending, place, after, stop, hhead, hplace, hread, hending, hstop, rfl⟩
    obtain ⟨body, hbelongs, hbody, -, rfl⟩ := Instruction.read_eq_ok_iff_form.mp hread
    have hanchored : body.text = [] → ending.blanks.text = [] := by
      intro hnone
      rw [hnone] at hbody
      rw [← passes_nil.mp hbody] at hplace
      obtain ⟨_, hblanks, -⟩ := passes_append.mp hending
      exact Blanks.text_eq_nil_of_avoids hblanks hplace
    have hall : Passes (head.text ++ (body.text ++ ending.text)) (Scan.ofText raw) stop :=
      passes_append.mpr ⟨place, hhead, passes_append.mpr ⟨after, hbody, hending⟩⟩
    refine ⟨⟨head, body, hbelongs, ending, hanchored⟩, ?_, ?_, ?_⟩
    · rw [toList_eq_of_passes hall hstop, LineForm.text_eq]
    · rw [offset_of_passes hhead]
      rfl
    · rw [offset_of_passes (passes_append.mpr ⟨place, hhead, hbody⟩)]
      rfl
  · rintro ⟨form, htext, rfl, rfl⟩
    rw [form.text_eq] at htext
    obtain ⟨place, hhead, hrest⟩ := passes_append.mp (passes_of_toList_eq htext)
    obtain ⟨after, hbody, hending⟩ := passes_append.mp hrest
    have hplace : place.Avoids isBlank := by
      refine form.body.avoids_isBlank hbody fun hnone ↦ ?_
      obtain ⟨_, hblanks, hcomment⟩ := passes_append.mp hending
      rw [form.anchored hnone] at hblanks
      rw [← passes_nil.mp hblanks]
      exact avoids_of_comment hcomment rfl rfl
    refine ⟨form.head, form.ending, place, after, _, hhead, hplace, ?_, hending, rfl, ?_⟩
    · refine Instruction.read_eq_ok_iff_form.mpr ⟨form.body, form.belongs, hbody,
        form.body.ends_of_ending form.ending hending rfl, ?_⟩
      rw [offset_of_passes hhead]
      rfl
    · rw [offset_of_passes (passes_append.mpr ⟨place, hhead, hbody⟩)]
      rfl

/-- A line is read as an instruction exactly when, its end removed, it is the text of a syntax
tree. -/
theorem content_ofText_eq_iff_form {raw : String} {instruction : Instruction}
    {facts : List Fact} : (ofText raw).content = .instruction instruction facts ↔
      ∃ form : LineForm, (withoutLineEnd raw).toList = form.text ∧
        instruction = form.instruction ∧ facts = form.facts :=
  content_ofText_eq_instruction_iff.trans readContent_eq_ok_iff_form

end Line

end VerifierTrace
