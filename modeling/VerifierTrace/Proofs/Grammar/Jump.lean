import VerifierTrace.Proofs.Grammar.Condition

/-!
# The forms of jumps

A `JumpForm` is a control transfer as it is written: a call, an exit, a plain jump or a conditional
one. Its limits are in its parts. The word `goto` has a long form, the blanks after a word of the
grammar must not be missing, and a target is a run of target characters that is not empty. An exit
may be written as nothing at all.

Which form an instruction has is a matter of its operation code alone (`JumpForm.codes`). In the
jump classes the reader of instructions reads exactly the texts of the forms of the code, with the
jump that the form stands for (`JumpForm.read_eq_ok_iff`, `Instruction.read_eq_ok_iff_of_isJump`).
-/

set_option autoImplicit false
set_option relaxedAutoImplicit false

namespace VerifierTrace

open Scan

/-! ### Words of the grammar -/

namespace Scan

theorem keywordAndBlanks_eq_ok_iff {keyword : String} {start stop : Scan} :
    start.keywordAndBlanks keyword = .ok stop ↔
      ∃ gap : Gap, Passes (keyword.toList ++ gap.text) start stop ∧ stop.Avoids isBlank := by
  rw [← keyword?_bind_blanks?_eq_some_iff, Option.bind_eq_some_iff]
  simp only [keywordAndBlanks, bind_eq_ok_iff, require_eq_ok_iff]

end Scan

/-- The two spellings of a plain jump. -/
inductive GotoWord
  | short
  | long
  deriving DecidableEq, Repr

def GotoWord.word : GotoWord → String
  | short => "goto"
  | long => "gotol"

/-- The word of a plain jump and the blanks after it. -/
structure GotoForm where
  spelling : GotoWord
  after : Gap

namespace GotoForm

def text (form : GotoForm) : List Char :=
  form.spelling.word.toList ++ form.after.text

/-- Where the short word and blanks come next, the long word does not. -/
theorem keyword?_long_eq_none {gap : Gap} {start stop : Scan}
    (hpasses : Passes (GotoWord.short.word.toList ++ gap.text) start stop) :
    start.keyword? GotoWord.long.word = none := by
  rw [Option.eq_none_iff_forall_ne_some]
  intro place hplace
  have hlong : Passes (GotoWord.short.word.toList ++ ['l']) start place :=
    (keyword?_eq_some_iff.mp hplace).1
  obtain ⟨middle, hword, hgap⟩ := passes_append.mp hpasses
  obtain ⟨middle', hword', hletter⟩ := passes_append.mp hlong
  have hends := hgap.avoids_of_gap
  rw [hword.unique hword', Avoids, hletter.head? rfl] at hends
  exact absurd hends (by decide)

theorem goto_eq_ok_iff {start stop : Scan} : start.goto = .ok stop ↔
    ∃ form : GotoForm, Passes form.text start stop ∧ stop.Avoids isBlank := by
  constructor
  · intro h
    cases hlong : start.keyword? "gotol" with
    | some place =>
      simp only [Scan.goto, hlong, require_eq_ok_iff] at h
      obtain ⟨gap, hpasses, havoids⟩ := keyword?_bind_blanks?_eq_some_iff.mp
        (Option.bind_eq_some_iff.mpr ⟨place, hlong, h⟩)
      exact ⟨⟨.long, gap⟩, hpasses, havoids⟩
    | none =>
      simp only [Scan.goto, hlong] at h
      obtain ⟨gap, hpasses, havoids⟩ := keywordAndBlanks_eq_ok_iff.mp h
      exact ⟨⟨.short, gap⟩, hpasses, havoids⟩
  · rintro ⟨⟨spelling, gap⟩, hpasses, havoids⟩
    cases spelling with
    | short =>
      have hlong : start.keyword? "gotol" = none := keyword?_long_eq_none hpasses
      simp only [Scan.goto, hlong]
      exact keywordAndBlanks_eq_ok_iff.mpr ⟨gap, hpasses, havoids⟩
    | long =>
      obtain ⟨place, hlong, hblanks⟩ := Option.bind_eq_some_iff.mp
        (keyword?_bind_blanks?_eq_some_iff.mpr ⟨gap, hpasses, havoids⟩)
      have hword : start.keyword? "gotol" = some place := hlong
      simp only [Scan.goto, hword, require_eq_ok_iff]
      exact hblanks

theorem head?_text (form : GotoForm) : form.text.head? = some 'g' := by
  have hword : form.spelling.word.toList.head? = some 'g' := by cases form.spelling <;> decide
  rw [text, List.head?_append, hword]
  rfl

end GotoForm

/-! ### Targets -/

/-- Where control goes: a run of letters, digits and five signs that is not empty. -/
structure DestinationForm where
  text : List Char
  areTarget : text.all fun c ↦
    c.isAlphanum || c == '_' || c == '+' || c == '-' || c == '#' || c == '.'
  nonempty : text ≠ []

namespace DestinationForm

/-- The target that is meant. -/
def name (form : DestinationForm) : String :=
  String.ofList form.text

/-- The characters of a target are those that are read as one. -/
theorem all_isTargetChar (form : DestinationForm) : form.text.all isTargetChar :=
  form.areTarget

theorem isTargetChar_eq_false_of_isBlank (c : Char) (hblank : isBlank c) :
    isTargetChar c = false := by
  rcases isBlank_iff.mp hblank with rfl | rfl
  · rfl
  · rfl

/-- No target begins with a blank. -/
theorem avoids_isBlank (form : DestinationForm) {start stop : Scan}
    (hpasses : Passes form.text start stop) : start.Avoids isBlank := by
  obtain ⟨c, hhead⟩ := Option.ne_none_iff_exists'.mp (mt List.head?_eq_none_iff.mp form.nonempty)
  refine hpasses.avoids hhead ?_
  rw [← Bool.not_eq_true]
  intro hblank
  have htarget := List.all_eq_true.mp form.all_isTargetChar c (List.mem_of_head? hhead)
  rw [isTargetChar_eq_false_of_isBlank c hblank] at htarget
  simp at htarget

theorem target_eq_ok_iff {start stop : Scan} {name : String} {span : Span} :
    start.target = .ok ((name, span), stop) ↔
      ∃ form : DestinationForm, Passes form.text start stop ∧ stop.Avoids isTargetChar ∧
        name = form.name ∧ span = ⟨start.offset, octets form.text⟩ := by
  constructor
  · intro h
    obtain ⟨text, after, hrun⟩ : ∃ text after,
        start.run isTargetChar = (text, after) := ⟨_, _, rfl⟩
    simp only [Scan.target, hrun] at h
    split at h
    · simp [Scan.fault] at h
    · rename_i hnonempty
      obtain ⟨hall, hpasses, havoids⟩ := run_eq_iff.mp hrun
      obtain ⟨hfound, rfl⟩ := Prod.mk.inj (Except.ok.inj h)
      obtain ⟨rfl, rfl⟩ := Prod.mk.inj hfound
      refine ⟨⟨text, hall, fun hnone ↦ hnonempty (List.isEmpty_iff.mpr hnone)⟩, hpasses, havoids,
        rfl, hpasses.spanTo⟩
  · rintro ⟨form, hpasses, havoids, rfl, rfl⟩
    have hrun := run_eq_iff.mpr ⟨form.all_isTargetChar, hpasses, havoids⟩
    have hnonempty : form.text.isEmpty = false := List.isEmpty_eq_false_iff.mpr form.nonempty
    simp only [Scan.target, hrun, hnonempty, hpasses.spanTo, Bool.false_eq_true, if_false]
    rfl

/-- Reads a word and a target after it. -/
theorem bind_target_eq_ok_iff {Word : Type} {wordText : Word → List Char} {start stop : Scan}
    {word? : Except LineError Scan}
    (hword : ∀ place, word? = .ok place ↔
      ∃ word, Passes (wordText word) start place ∧ place.Avoids isBlank)
    (jumpTo : String → Span → Jump) {jump : Jump} :
    (do let beforeTarget ← word?
        let ((name, span), after) ← beforeTarget.target
        return (jumpTo name span, after) : Except LineError (Jump × Scan)) = .ok (jump, stop) ↔
      ∃ word target, Passes (wordText word ++ DestinationForm.text target) start stop ∧
        stop.Avoids isTargetChar ∧
        jump = jumpTo target.name ⟨start.offset + octets (wordText word), octets target.text⟩ := by
  simp only [bind_eq_ok_iff]
  constructor
  · rintro ⟨targetAt, hfound, ⟨⟨name, span⟩, after⟩, htarget, hsame⟩
    obtain ⟨word, hwordText, -⟩ := (hword targetAt).mp hfound
    obtain ⟨target, htargetText, havoids, rfl, rfl⟩ := target_eq_ok_iff.mp htarget
    obtain ⟨rfl, rfl⟩ := Prod.mk.inj (Except.ok.inj hsame)
    refine ⟨word, target, passes_append.mpr ⟨_, hwordText, htargetText⟩, havoids, ?_⟩
    rw [hwordText.2]
  · rintro ⟨word, target, hpasses, havoids, rfl⟩
    obtain ⟨targetAt, hwordText, htarget⟩ := passes_append.mp hpasses
    refine ⟨targetAt, (hword targetAt).mpr ⟨word, hwordText, target.avoids_isBlank htarget⟩,
      ((target.name, ⟨targetAt.offset, octets target.text⟩), stop), ?_, ?_⟩
    · exact target_eq_ok_iff.mpr ⟨target, htarget, havoids, rfl, rfl⟩
    · rw [hwordText.2]
      rfl

end DestinationForm

/-! ### Conditional jumps -/

/-- A conditional jump with the blanks between its parts: `if condition goto target`. -/
structure BranchForm where
  afterIf : Gap
  condition : ConditionForm
  beforeGoto : Gap
  goto : GotoForm
  target : DestinationForm

namespace BranchForm

/-- What stands before the condition. -/
def beforeCondition (form : BranchForm) : List Char :=
  "if".toList ++ form.afterIf.text

/-- What stands before the target. -/
def beforeTarget (form : BranchForm) : List Char :=
  form.beforeCondition ++ (form.condition.text ++ (form.beforeGoto.text ++ form.goto.text))

def text (form : BranchForm) : List Char :=
  form.beforeTarget ++ form.target.text

/-- The jump that is meant, when its text stands at a position of a line. -/
def jump (form : BranchForm) (offset : Nat) : Jump where
  kind := .conditional
  target := form.target.name
  targetSpan := some ⟨offset + octets form.beforeTarget, octets form.target.text⟩
  condition := some (form.condition.condition (offset + octets form.beforeCondition))

theorem exists_of_readConditional {start stop : Scan} {jump : Jump}
    (h : Jump.readConditional start = .ok (jump, stop)) :
    ∃ form : BranchForm, Passes form.text start stop ∧ stop.Avoids isTargetChar ∧
      jump = form.jump start.offset := by
  simp only [Jump.readConditional, bind_eq_ok_iff, require_eq_ok_iff] at h
  obtain ⟨conditionAt, hif, ⟨condition, afterCondition⟩, hcondition, gotoAt, hblanks, targetAt,
    hgoto, ⟨⟨name, span⟩, after⟩, htarget, hsame⟩ := h
  obtain ⟨afterIf, hifText, -⟩ := keywordAndBlanks_eq_ok_iff.mp hif
  obtain ⟨conditionForm, hconditionText, -, rfl⟩ :=
    ConditionForm.readCondition_eq_ok_iff.mp hcondition
  obtain ⟨beforeGoto, hbeforeGoto, -⟩ := blanks?_eq_some_iff.mp hblanks
  obtain ⟨goto, hgotoText, -⟩ := GotoForm.goto_eq_ok_iff.mp hgoto
  obtain ⟨target, htargetText, havoids, rfl, rfl⟩ := DestinationForm.target_eq_ok_iff.mp htarget
  let form : BranchForm := ⟨afterIf, conditionForm, beforeGoto, goto, target⟩
  have hbeforeCondition : Passes form.beforeCondition start conditionAt := hifText
  have hbeforeTarget : Passes form.beforeTarget start targetAt := by
    simp only [beforeTarget, passes_append]
    exact ⟨_, hbeforeCondition, _, hconditionText, _, hbeforeGoto, hgotoText⟩
  obtain ⟨rfl, rfl⟩ := Prod.mk.inj (Except.ok.inj hsame)
  refine ⟨form, passes_append.mpr ⟨_, hbeforeTarget, htargetText⟩, havoids, ?_⟩
  rw [BranchForm.jump, ← hbeforeTarget.2, ← hbeforeCondition.2]

theorem readConditional_of_passes (form : BranchForm) {start stop : Scan}
    (hpasses : Passes form.text start stop) (hends : stop.Avoids isTargetChar) :
    Jump.readConditional start = .ok (form.jump start.offset, stop) := by
  obtain ⟨targetAt, hbeforeTarget, htarget⟩ := passes_append.mp hpasses
  obtain ⟨conditionAt, hbeforeCondition, hparts⟩ := passes_append.mp hbeforeTarget
  obtain ⟨afterCondition, hcondition, hparts⟩ := passes_append.mp hparts
  obtain ⟨gotoAt, hbeforeGoto, hgoto⟩ := passes_append.mp hparts
  have hgotoAt : gotoAt.Avoids isBlank := hgoto.avoids form.goto.head?_text rfl
  have hrightEnds : form.condition.right.Ends afterCondition :=
    form.condition.right.ends_of_blanks hbeforeGoto hbeforeGoto.avoids_of_gap hgotoAt
      (hgoto.avoids form.goto.head?_text rfl)
  simp only [Jump.readConditional, bind_eq_ok_iff, require_eq_ok_iff]
  refine ⟨conditionAt, ?_, (form.condition.condition conditionAt.offset, afterCondition), ?_,
    gotoAt, ?_, targetAt, ?_,
    ((form.target.name, ⟨targetAt.offset, octets form.target.text⟩), stop), ?_, ?_⟩
  · exact keywordAndBlanks_eq_ok_iff.mpr
      ⟨form.afterIf, hbeforeCondition, form.condition.avoids_isBlank hcondition⟩
  · exact form.condition.readCondition_of_passes hcondition hrightEnds
  · exact blanks?_eq_some_iff.mpr ⟨form.beforeGoto, hbeforeGoto, hgotoAt⟩
  · exact GotoForm.goto_eq_ok_iff.mpr ⟨form.goto, hgoto, form.target.avoids_isBlank htarget⟩
  · exact DestinationForm.target_eq_ok_iff.mpr ⟨form.target, htarget, hends, rfl, rfl⟩
  · rw [hbeforeTarget.2, hbeforeCondition.2]
    rfl

end BranchForm

/-! ### Jumps -/

/-- A control transfer with the blanks between its parts. -/
inductive JumpForm
  | call (afterCall : Gap) (target : DestinationForm)
  | exit (spelled : Bool)
  | unconditional (goto : GotoForm) (target : DestinationForm)
  | conditional (form : BranchForm)

namespace JumpForm

def exitText : Bool → List Char
  | true => "exit".toList
  | false => []

def text : JumpForm → List Char
  | call afterCall target => ("call".toList ++ afterCall.text) ++ target.text
  | exit spelled => exitText spelled
  | unconditional goto target => goto.text ++ target.text
  | conditional form => form.text

/-- The operation codes of the jumps that are written in the form. -/
def codes : JumpForm → List Nat
  | call _ _ => [0x8]
  | exit _ => [0x9]
  | unconditional _ _ => [0x0]
  | conditional _ => [0x1, 0x2, 0x3, 0x4, 0x5, 0x6, 0x7, 0xa, 0xb, 0xc, 0xd]

/-- The jump that is meant, when its text stands at a position of a line. A call is one of a
subprogram when its target names an offset from the program counter. -/
def jump (offset : Nat) : JumpForm → Jump
  | call afterCall target =>
    ⟨if (pcOffset? target.name).isSome then .subprogramCall else .helperCall, target.name,
      some ⟨offset + octets ("call".toList ++ afterCall.text), octets target.text⟩, none⟩
  | exit _ => ⟨.exit, "", none, none⟩
  | unconditional goto target =>
    ⟨.unconditional, target.name, some ⟨offset + octets goto.text, octets target.text⟩, none⟩
  | conditional form => form.jump offset

/-- What must not follow the text for it to be all of the jump: a character that continues the
target or the word, or the word `exit` where it could have been written. -/
def Ends (stop : Scan) : JumpForm → Prop
  | call _ _ | unconditional _ _ | conditional _ => stop.Avoids isTargetChar
  | exit true => stop.Avoids isWordChar
  | exit false => stop.keyword? "exit" = none

theorem readCall_eq_ok_iff {start stop : Scan} {jump : Jump} :
    Jump.readCall start = .ok (jump, stop) ↔
      ∃ afterCall target, Passes (call afterCall target).text start stop ∧
        stop.Avoids isTargetChar ∧ jump = (call afterCall target).jump start.offset :=
  DestinationForm.bind_target_eq_ok_iff (fun _ ↦ keywordAndBlanks_eq_ok_iff) fun name span ↦
    ⟨if (pcOffset? name).isSome then .subprogramCall else .helperCall, name, some span, none⟩

theorem readGoto_eq_ok_iff {start stop : Scan} {jump : Jump} :
    Jump.readGoto start = .ok (jump, stop) ↔
      ∃ goto target, Passes (unconditional goto target).text start stop ∧
        stop.Avoids isTargetChar ∧ jump = (unconditional goto target).jump start.offset :=
  DestinationForm.bind_target_eq_ok_iff (fun _ ↦ GotoForm.goto_eq_ok_iff) fun name span ↦
    ⟨.unconditional, name, some span, none⟩

theorem readExit_eq_iff {start stop : Scan} {jump : Jump} :
    Jump.readExit start = (jump, stop) ↔
      ∃ spelled, Passes (exit spelled).text start stop ∧ (exit spelled).Ends stop ∧
        jump = (exit spelled).jump start.offset := by
  rw [Jump.readExit, Prod.mk.injEq]
  cases hexit : start.keyword? "exit" with
  | none =>
    constructor
    · rintro ⟨rfl, rfl⟩
      exact ⟨false, passes_nil.mpr rfl, hexit, rfl⟩
    · rintro ⟨spelled, hpasses, hends, rfl⟩
      cases spelled with
      | true =>
        rw [keyword?_eq_some_iff.mpr ⟨hpasses, hends⟩] at hexit
        simp at hexit
      | false => exact ⟨rfl, (passes_nil.mp hpasses).symm⟩
  | some place =>
    have hplace := keyword?_eq_some_iff.mp hexit
    constructor
    · rintro ⟨rfl, rfl⟩
      exact ⟨true, hplace.1, hplace.2, rfl⟩
    · rintro ⟨spelled, hpasses, hends, rfl⟩
      cases spelled with
      | true => exact ⟨rfl, hplace.1.unique hpasses⟩
      | false =>
        rw [passes_nil.mp hpasses] at hends
        exact absurd (hexit.symm.trans hends) (by simp)

theorem readConditional_eq_ok_iff {start stop : Scan} {jump : Jump} :
    Jump.readConditional start = .ok (jump, stop) ↔
      ∃ form, Passes (conditional form).text start stop ∧ stop.Avoids isTargetChar ∧
        jump = (conditional form).jump start.offset := by
  constructor
  · exact BranchForm.exists_of_readConditional
  · rintro ⟨form, hpasses, havoids, rfl⟩
    exact form.readConditional_of_passes hpasses havoids

end JumpForm

/-! ### Operation codes -/

namespace JumpOperation

/-- The code of an operation. -/
def code : JumpOperation → Nat
  | ja => 0x0
  | jeq => 0x1
  | jgt => 0x2
  | jge => 0x3
  | jset => 0x4
  | jne => 0x5
  | jsgt => 0x6
  | jsge => 0x7
  | call => 0x8
  | exit => 0x9
  | jlt => 0xa
  | jle => 0xb
  | jslt => 0xc
  | jsle => 0xd

theorem ofCode?_eq_some_iff {number : Nat} {operation : JumpOperation} :
    ofCode? number = some operation ↔ number = operation.code := by
  constructor
  · intro h
    unfold ofCode? at h
    split at h <;> cases h <;> rfl
  · rintro rfl
    cases operation <;> rfl

theorem exists_code_of_mem_codes {form : JumpForm} {number : Nat} (hcode : number ∈ form.codes) :
    ∃ operation : JumpOperation, number = operation.code := by
  have hall : ∀ number < 0xe, (ofCode? number).isSome = true := by decide
  have hsmall : number < 0xe := by
    have hcodes : ∀ code ∈ form.codes, code < 0xe := by
      cases form <;> simp [JumpForm.codes]
    exact hcodes number hcode
  obtain ⟨operation, hoperation⟩ := Option.isSome_iff_exists.mp (hall number hsmall)
  exact ⟨operation, ofCode?_eq_some_iff.mp hoperation⟩

end JumpOperation

namespace JumpForm

variable {operation : JumpOperation} {start stop : Scan} {jump : Jump}

theorem exists_of_read (h : Jump.read operation start = .ok (jump, stop)) :
    ∃ form : JumpForm, operation.code ∈ form.codes ∧ Passes form.text start stop ∧
      form.Ends stop ∧ jump = form.jump start.offset := by
  cases operation with
  | call =>
    obtain ⟨afterCall, target, hread⟩ := readCall_eq_ok_iff.mp h
    exact ⟨call afterCall target, by simp [codes, JumpOperation.code], hread⟩
  | exit =>
    obtain ⟨spelled, hread⟩ := readExit_eq_iff.mp (Except.ok.inj h)
    exact ⟨exit spelled, by simp [codes, JumpOperation.code], hread⟩
  | ja =>
    obtain ⟨goto, target, hread⟩ := readGoto_eq_ok_iff.mp h
    exact ⟨unconditional goto target, by simp [codes, JumpOperation.code], hread⟩
  | _ =>
    obtain ⟨form, hread⟩ := readConditional_eq_ok_iff.mp h
    exact ⟨conditional form, by simp [codes, JumpOperation.code], hread⟩

/-- The form of a text is the one that the operation is read in. -/
theorem read_of_passes (form : JumpForm) (hcode : operation.code ∈ form.codes)
    (hpasses : Passes form.text start stop) (hends : form.Ends stop) :
    Jump.read operation start = .ok (form.jump start.offset, stop) := by
  cases form with
  | call afterCall target =>
    obtain rfl : operation = .call := by
      cases operation <;> simp_all [codes, JumpOperation.code]
    exact readCall_eq_ok_iff.mpr ⟨afterCall, target, hpasses, hends, rfl⟩
  | exit spelled =>
    obtain rfl : operation = .exit := by
      cases operation <;> simp_all [codes, JumpOperation.code]
    exact congrArg Except.ok (readExit_eq_iff.mpr ⟨spelled, hpasses, hends, rfl⟩)
  | unconditional goto target =>
    obtain rfl : operation = .ja := by
      cases operation <;> simp_all [codes, JumpOperation.code]
    exact readGoto_eq_ok_iff.mpr ⟨goto, target, hpasses, hends, rfl⟩
  | conditional form =>
    have hread := readConditional_eq_ok_iff.mpr ⟨form, hpasses, hends, rfl⟩
    revert hcode
    cases operation with
    | call => simp [codes, JumpOperation.code]
    | exit => simp [codes, JumpOperation.code]
    | ja => simp [codes, JumpOperation.code]
    | _ => exact fun _ ↦ hread

theorem read_eq_ok_iff : Jump.read operation start = .ok (jump, stop) ↔
    ∃ form : JumpForm, operation.code ∈ form.codes ∧ Passes form.text start stop ∧
      form.Ends stop ∧ jump = form.jump start.offset := by
  constructor
  · exact exists_of_read
  · rintro ⟨form, hcode, hpasses, hends, rfl⟩
    exact form.read_of_passes hcode hpasses hends

end JumpForm

/-! ### Instructions of the jump classes -/

namespace Instruction

variable {opcode : Opcode} {start stop : Scan}

theorem readOperation_eq_ok_iff_of_isJump {result : Operation}
    (hclass : opcode.instructionClass.isJump = true) :
    readOperation opcode start = .ok (result, stop) ↔
      ∃ form : JumpForm, opcode.code ∈ form.codes ∧ Passes form.text start stop ∧
        form.Ends stop ∧ result = .jump (form.jump start.offset) := by
  have hfound : ∀ operation, opcode.jumpOperation? = some operation ↔
      opcode.code = operation.code := by
    intro operation
    rw [Opcode.jumpOperation?, if_pos hclass, JumpOperation.ofCode?_eq_some_iff]
  rw [readOperation, if_pos hclass]
  simp only [bind_eq_ok_iff, require_eq_ok_iff, hfound]
  constructor
  · rintro ⟨operation, hoperation, ⟨jump, after⟩, hread, hsame⟩
    obtain ⟨rfl, rfl⟩ := Prod.mk.inj (Except.ok.inj hsame)
    obtain ⟨form, hcode, hpasses, hends, rfl⟩ := JumpForm.read_eq_ok_iff.mp hread
    exact ⟨form, hoperation ▸ hcode, hpasses, hends, rfl⟩
  · rintro ⟨form, hcode, hpasses, hends, rfl⟩
    obtain ⟨operation, hoperation⟩ := JumpOperation.exists_code_of_mem_codes hcode
    refine ⟨operation, hoperation, (form.jump start.offset, stop), ?_, rfl⟩
    exact form.read_of_passes (hoperation ▸ hcode) hpasses hends

/-- In the jump classes the jump is read that belongs to the operation code, and no other. -/
theorem read_eq_ok_iff_of_isJump {pc : Nat} {instruction : Instruction}
    (hclass : opcode.instructionClass.isJump = true) :
    read pc opcode start = .ok (instruction, stop) ↔
      ∃ form : JumpForm, opcode.code ∈ form.codes ∧ Passes form.text start stop ∧
        form.Ends stop ∧ instruction = ⟨some pc, opcode, .jump (form.jump start.offset),
          ⟨start.offset, octets form.text⟩⟩ := by
  rw [read, bind_eq_ok_iff]
  constructor
  · rintro ⟨⟨operation, after⟩, hoperation, hsame⟩
    obtain ⟨rfl, rfl⟩ := Prod.mk.inj (Except.ok.inj hsame)
    obtain ⟨form, hcode, hpasses, hends, rfl⟩ :=
      (readOperation_eq_ok_iff_of_isJump hclass).mp hoperation
    exact ⟨form, hcode, hpasses, hends, by rw [hpasses.spanTo]⟩
  · rintro ⟨form, hcode, hpasses, hends, rfl⟩
    refine ⟨(.jump (form.jump start.offset), stop), ?_, ?_⟩
    · exact (readOperation_eq_ok_iff_of_isJump hclass).mpr ⟨form, hcode, hpasses, hends, rfl⟩
    · rw [← hpasses.spanTo]
      rfl

end Instruction

end VerifierTrace
