import VerifierTrace.Proofs.Grammar.Comment

/-!
# Where a line stops matching

When a part of an instruction is missing, the fault is at the place where the line stops matching
the grammar (`Scan.Stops`). What stands before the place is a viable prefix: with some other text
after it, it is the text of a form. Each reader is gone through once, and each of its faults is
shown to be at such a place, whatever was passed before it: a word of the grammar, a modifier, or
blanks after which nothing fits.

A viable prefix of a part is one of the whole, after what was passed before the part and with what
must come after it (`Scan.Stops.after`). So the prefixes are carried from the readers of operands up
to the line. Text that is left over after an instruction is told from a missing part by its fault,
and there the prefix is an instruction line already (`Line.fault_is_exact`).
-/

set_option autoImplicit false
set_option relaxedAutoImplicit false

namespace VerifierTrace

open Scan

/-- A part of an instruction is missing. -/
def Fault.missesPart : Fault → Bool
  | .expectedOperand | .expectedOperator | .expectedKeyword _ | .missingTarget => true
  | .missingProgramCounter | .expectedCharacter _ | .badOpcode _ | .unassignedJumpCode _
  | .trailingText _ => false

namespace Scan

variable {Grammar Inner Outer : List Char → Prop} {start middle place : Scan} {position : Nat}
  {fault : Fault}

/-- A part is missing at a position, and what stands between a place and the position begins a text
of a grammar. -/
def Stops (Grammar : List Char → Prop) (start : Scan) (position : Nat) (fault : Fault) : Prop :=
  fault.missesPart ∧ ∃ passed place rest, Passes passed start place ∧ place.offset = position ∧
    Grammar (passed ++ rest)

theorem stops_here {text : List Char} (hmisses : fault.missesPart) (htext : Grammar text) :
    Stops Grammar start start.offset fault :=
  ⟨hmisses, [], start, text, passes_nil.mpr rfl, rfl, htext⟩

theorem Passes.stops {passed : List Char} (hpasses : Passes passed start place)
    (rest : List Char) (hmisses : fault.missesPart) (htext : Grammar (passed ++ rest)) :
    Stops Grammar start place.offset fault :=
  ⟨hmisses, passed, place, rest, hpasses, rfl, htext⟩

/-- What begins a part begins the whole, after what stands before the part. -/
theorem Stops.after {before : List Char} (hstops : Stops Inner middle position fault)
    (hbefore : Passes before start middle)
    (hwhole : ∀ text, Inner text → ∃ rest, Outer (before ++ (text ++ rest))) :
    Stops Outer start position fault := by
  obtain ⟨hmisses, passed, place, rest, hpasses, hplace, htext⟩ := hstops
  obtain ⟨more, hall⟩ := hwhole _ htext
  refine ⟨hmisses, before ++ passed, place, rest ++ more,
    passes_append.mpr ⟨middle, hbefore, hpasses⟩, hplace, ?_⟩
  simpa only [List.append_assoc] using hall

/-- What begins a text of a part begins a text of the whole that begins with the part. -/
theorem Stops.imp (hstops : Stops Inner start position fault)
    (hwhole : ∀ text, Inner text → ∃ rest, Outer (text ++ rest)) :
    Stops Outer start position fault :=
  hstops.after (passes_nil.mpr rfl) hwhole

end Scan

/-- The text is the text of a form. -/
def IsText {Form : Type} (text : Form → List Char) (written : List Char) : Prop :=
  ∃ form, text form = written

/-! ### Parts that fit everywhere -/

/-- The register `r0`. -/
def RegisterForm.result : RegisterForm :=
  .ofDigit .whole 0

def SourceForm.result : SourceForm :=
  .target (.register .result)

/-- The condition `r0==r0`. -/
def ConditionForm.trivial : ConditionForm where
  left := .result
  beforeComparator := .spaces 0
  comparator := .equal
  beforeRight := .spaces 0
  right := .result
  separated := by decide

/-- The target `pc+0`. -/
def DestinationForm.next : DestinationForm :=
  ⟨"pc+0".toList, by decide, by decide⟩

/-! ### Assignments -/

namespace AssignmentForm

/-- An assignment can be completed wherever its reader reports a fault: with a target, with an
equals sign and a source, or with a register, before which every modifier may stand. -/
theorem stops_of_error {start : Scan} {position : Nat} {fault : Fault}
    (herror : Assignment.read start = .error (.fault position fault)) :
    Stops (IsText text) start position fault := by
  obtain ⟨lock, hlock, -⟩ := exists_lock start
  simp only [Assignment.read, bind_eq_error_iff, require_eq_error_iff, require_eq_ok_iff,
    LineError.fault.injEq] at herror
  obtain ⟨-, rfl, rfl⟩ | ⟨⟨target, afterTarget⟩, htarget, herror⟩ := herror
  · refine hlock.stops "r0=r0".toList rfl ⟨{
      lock, target := .register .result, beforeOperator := .spaces 0, operator := .assign,
      beforeModifier := .spaces 0, modifier := none, source := .result,
      separated := by decide, negated := by simp }, ?_⟩
    simp only [text, beforeSource, List.append_assoc]
    rfl
  obtain ⟨targetForm, htargetText, htargetEnds, -⟩ := TargetForm.target?_eq_some_iff.mp htarget
  obtain ⟨beforeOperator, hbeforeOperator⟩ := passes_skipBlanks afterTarget
  obtain ⟨-, rfl, rfl⟩ | ⟨⟨operator, afterOperator⟩, hoperator, herror⟩ := herror
  · have hpassed : Passes (lockText lock ++ (targetForm.text ++ beforeOperator.text)) start
        afterTarget.skipBlanks := by
      simp only [passes_append]
      exact ⟨_, hlock, _, htargetText, hbeforeOperator⟩
    refine hpassed.stops "=r0".toList rfl ⟨{
      lock, target := targetForm, beforeOperator, operator := .assign,
      beforeModifier := .spaces 0, modifier := none, source := .result,
      separated := fun _ hletter ↦ absurd hletter (by decide), negated := by simp }, ?_⟩
    simp only [text, beforeSource, List.append_assoc]
    rfl
  have hsymbol := AssignOperator.firstOf?_eq_some_iff.mp hoperator
  obtain ⟨beforeModifier, hbeforeModifier⟩ := passes_skipBlanks afterOperator
  obtain ⟨modifier, hmodifier, -⟩ := exists_modifier afterOperator.skipBlanks
  obtain ⟨-, rfl, rfl⟩ | ⟨source, -, herror⟩ := herror
  · let form : AssignmentForm := {
      lock, target := targetForm, beforeOperator, operator, beforeModifier, modifier,
      source := .result, separated := (ends_iff_separated hbeforeOperator hsymbol).mp htargetEnds
      negated := fun _ ↦ rfl }
    have hpassed : Passes form.beforeSource start
        ((Modifier.read? afterOperator.skipBlanks).elim afterOperator.skipBlanks Prod.snd) := by
      simp only [beforeSource, passes_append]
      exact ⟨_, hlock, _, htargetText, _, hbeforeOperator, _, hsymbol, _, hbeforeModifier,
        hmodifier⟩
    exact hpassed.stops _ rfl ⟨form, rfl⟩
  · cases herror

end AssignmentForm

/-! ### Words and targets -/

theorem Scan.stops_of_keywordAndBlanks {keyword : String} {start : Scan} {position : Nat}
    {fault : Fault} (herror : start.keywordAndBlanks keyword = .error (.fault position fault)) :
    Stops (IsText fun gap : Gap ↦ keyword.toList ++ gap.text) start position fault := by
  simp only [keywordAndBlanks, bind_eq_error_iff, require_eq_error_iff, require_eq_ok_iff,
    LineError.fault.injEq] at herror
  obtain ⟨-, rfl, rfl⟩ | ⟨word, hword, -, rfl, rfl⟩ := herror
  · exact stops_here rfl ⟨.space, rfl⟩
  · exact (keyword?_eq_some_iff.mp hword).1.stops _ rfl ⟨.space, rfl⟩

theorem GotoForm.stops_of_error {start : Scan} {position : Nat} {fault : Fault}
    (herror : start.goto = .error (.fault position fault)) :
    Stops (IsText text) start position fault := by
  cases hlong : start.keyword? "gotol" with
  | some word =>
    simp only [Scan.goto, hlong, require_eq_error_iff, LineError.fault.injEq] at herror
    obtain ⟨-, rfl, rfl⟩ := herror
    exact (keyword?_eq_some_iff.mp hlong).1.stops _ rfl ⟨⟨.long, .space⟩, rfl⟩
  | none =>
    simp only [Scan.goto, hlong] at herror
    refine (stops_of_keywordAndBlanks herror).imp ?_
    rintro _ ⟨gap, rfl⟩
    exact ⟨[], ⟨.short, gap⟩, (List.append_nil _).symm⟩

theorem DestinationForm.stops_of_error {start : Scan} {position : Nat} {fault : Fault}
    (herror : start.target = .error (.fault position fault)) :
    Stops (IsText text) start position fault := by
  simp only [Scan.target] at herror
  split at herror
  · obtain ⟨rfl, rfl⟩ := LineError.fault.inj (Except.error.inj herror)
    exact stops_here rfl ⟨.next, rfl⟩
  · cases herror

/-! ### Jumps -/

theorem ConditionForm.stops_of_error {start : Scan} {position : Nat} {fault : Fault}
    (herror : Jump.readCondition start = .error (.fault position fault)) :
    Stops (IsText text) start position fault := by
  simp only [Jump.readCondition, bind_eq_error_iff, require_eq_error_iff, require_eq_ok_iff,
    LineError.fault.injEq] at herror
  obtain ⟨-, rfl, rfl⟩ | ⟨⟨left, afterLeft⟩, hleft, herror⟩ := herror
  · exact stops_here rfl ⟨.trivial, rfl⟩
  obtain ⟨leftForm, hleftText, hleftEnds, -⟩ := RegisterForm.register?_eq_some_iff.mp hleft
  obtain ⟨beforeComparator, hbeforeComparator⟩ := passes_skipBlanks afterLeft
  obtain ⟨-, rfl, rfl⟩ | ⟨⟨comparator, afterComparator⟩, hcomparator, herror⟩ := herror
  · have hpassed : Passes (leftForm.text ++ beforeComparator.text) start afterLeft.skipBlanks :=
      passes_append.mpr ⟨_, hleftText, hbeforeComparator⟩
    refine hpassed.stops "==r0".toList rfl ⟨{
      left := leftForm, beforeComparator, comparator := .equal, beforeRight := .spaces 0,
      right := .result, separated := fun hletter ↦ absurd hletter (by decide) }, ?_⟩
    simp only [text, beforeSource, List.append_assoc]
    rfl
  have hsymbol := Comparator.passes_of_firstOf? hcomparator
  obtain ⟨beforeRight, hbeforeRight⟩ := passes_skipBlanks afterComparator
  obtain ⟨-, rfl, rfl⟩ | ⟨right, -, herror⟩ := herror
  · obtain ⟨c, hhead, -, hword⟩ := comparator.exists_head_spelling
    let form : ConditionForm := {
      left := leftForm, beforeComparator, comparator, beforeRight, right := .result
      separated :=
        (avoids_isWordChar_iff_separated hbeforeComparator hsymbol hhead hword).mp hleftEnds }
    have hpassed : Passes form.beforeSource start afterComparator.skipBlanks := by
      simp only [beforeSource, passes_append]
      exact ⟨_, hleftText, _, hbeforeComparator, _, hsymbol, hbeforeRight⟩
    exact hpassed.stops _ rfl ⟨form, rfl⟩
  · cases herror

theorem BranchForm.stops_of_error {start : Scan} {position : Nat} {fault : Fault}
    (herror : Jump.readConditional start = .error (.fault position fault)) :
    Stops (IsText text) start position fault := by
  simp only [Jump.readConditional, bind_eq_error_iff, require_eq_error_iff, require_eq_ok_iff,
    LineError.fault.injEq] at herror
  obtain herror | ⟨conditionAt, hif, herror⟩ := herror
  · refine (stops_of_keywordAndBlanks herror).imp ?_
    rintro _ ⟨afterIf, rfl⟩
    refine ⟨"r0==r0 goto pc+0".toList, ⟨afterIf, .trivial, .space, ⟨.short, .space⟩, .next⟩, ?_⟩
    simp only [text, beforeTarget, beforeCondition, List.append_assoc]
    rfl
  obtain ⟨afterIf, hifText, -⟩ := keywordAndBlanks_eq_ok_iff.mp hif
  obtain herror | ⟨⟨condition, afterCondition⟩, hcondition, herror⟩ := herror
  · refine (ConditionForm.stops_of_error herror).after hifText ?_
    rintro _ ⟨condition, rfl⟩
    refine ⟨" goto pc+0".toList, ⟨afterIf, condition, .space, ⟨.short, .space⟩, .next⟩, ?_⟩
    simp only [text, beforeTarget, beforeCondition, List.append_assoc]
    rfl
  obtain ⟨conditionForm, hconditionText, -, -⟩ :=
    ConditionForm.readCondition_eq_ok_iff.mp hcondition
  obtain ⟨-, rfl, rfl⟩ | ⟨gotoAt, hblanks, herror⟩ := herror
  · have hpassed : Passes (("if".toList ++ afterIf.text) ++ conditionForm.text) start
        afterCondition :=
      passes_append.mpr ⟨_, hifText, hconditionText⟩
    refine hpassed.stops " goto pc+0".toList rfl
      ⟨⟨afterIf, conditionForm, .space, ⟨.short, .space⟩, .next⟩, ?_⟩
    simp only [text, beforeTarget, beforeCondition, List.append_assoc]
    rfl
  obtain ⟨beforeGoto, hbeforeGoto, -⟩ := blanks?_eq_some_iff.mp hblanks
  have hbefore : Passes (("if".toList ++ afterIf.text) ++
      (conditionForm.text ++ beforeGoto.text)) start gotoAt := by
    simp only [passes_append] at hifText ⊢
    exact ⟨_, hifText, _, hconditionText, hbeforeGoto⟩
  obtain herror | ⟨targetAt, hgoto, herror⟩ := herror
  · refine (GotoForm.stops_of_error herror).after hbefore ?_
    rintro _ ⟨goto, rfl⟩
    refine ⟨"pc+0".toList, ⟨afterIf, conditionForm, beforeGoto, goto, .next⟩, ?_⟩
    simp only [text, beforeTarget, beforeCondition, List.append_assoc]
    rfl
  obtain ⟨goto, hgotoText, -⟩ := GotoForm.goto_eq_ok_iff.mp hgoto
  obtain herror | ⟨target, -, herror⟩ := herror
  · refine (DestinationForm.stops_of_error herror).after
      (passes_append.mpr ⟨_, hbefore, hgotoText⟩) ?_
    rintro _ ⟨target, rfl⟩
    refine ⟨[], ⟨afterIf, conditionForm, beforeGoto, goto, target⟩, ?_⟩
    simp only [text, beforeTarget, beforeCondition, List.append_assoc, List.append_nil]
  · cases herror

/-- The text of a jump that an operation is written as. -/
def IsJumpText (operation : JumpOperation) (written : List Char) : Prop :=
  ∃ form : JumpForm, operation.code ∈ form.codes ∧ form.text = written

/-- A jump can be completed to one of its operation wherever its reader reports a fault. -/
theorem JumpForm.stops_of_error {operation : JumpOperation} {start : Scan} {position : Nat}
    {fault : Fault} (herror : Jump.read operation start = .error (.fault position fault)) :
    Stops (IsJumpText operation) start position fault := by
  have hconditional (hcode : ∀ form, operation.code ∈ (conditional form).codes)
      (herror : Jump.readConditional start = .error (.fault position fault)) :
      Stops (IsJumpText operation) start position fault := by
    refine (BranchForm.stops_of_error herror).imp ?_
    rintro _ ⟨form, rfl⟩
    exact ⟨[], conditional form, hcode form, (List.append_nil _).symm⟩
  cases operation with
  | call =>
    simp only [Jump.read, Jump.readCall, bind_eq_error_iff] at herror
    obtain herror | ⟨targetAt, hcall, herror⟩ := herror
    · refine (stops_of_keywordAndBlanks herror).imp ?_
      rintro _ ⟨gap, rfl⟩
      exact ⟨_, call gap .next, List.mem_singleton.mpr rfl, rfl⟩
    obtain ⟨gap, hcallText, -⟩ := keywordAndBlanks_eq_ok_iff.mp hcall
    obtain herror | ⟨target, -, herror⟩ := herror
    · refine (DestinationForm.stops_of_error herror).after hcallText ?_
      rintro _ ⟨target, rfl⟩
      exact ⟨[], call gap target, List.mem_singleton.mpr rfl, by rw [text, List.append_nil]⟩
    · cases herror
  | exit => cases herror
  | ja =>
    simp only [Jump.read, Jump.readGoto, bind_eq_error_iff] at herror
    obtain herror | ⟨targetAt, hgoto, herror⟩ := herror
    · refine (GotoForm.stops_of_error herror).imp ?_
      rintro _ ⟨goto, rfl⟩
      exact ⟨_, unconditional goto .next, List.mem_singleton.mpr rfl, rfl⟩
    obtain ⟨goto, hgotoText, -⟩ := GotoForm.goto_eq_ok_iff.mp hgoto
    obtain herror | ⟨target, -, herror⟩ := herror
    · refine (DestinationForm.stops_of_error herror).after hgotoText ?_
      rintro _ ⟨target, rfl⟩
      exact ⟨[], unconditional goto target, List.mem_singleton.mpr rfl,
        by rw [text, List.append_nil]⟩
    · cases herror
  | _ => exact hconditional (fun form ↦ by simp [codes, JumpOperation.code]) herror

/-! ### Instructions -/

/-- The text of an operation that an opcode is written in. -/
def IsOperationText (opcode : Opcode) (written : List Char) : Prop :=
  ∃ form : OperationForm, form.Belongs opcode ∧ form.text = written

/-- An instruction can be completed wherever its reader reports a fault, unless its opcode belongs
to no instruction. -/
theorem OperationForm.stops_of_error {pc : Nat} {opcode : Opcode} {start : Scan}
    {position : Nat} {fault : Fault}
    (herror : Instruction.read pc opcode start = .error (.fault position fault)) :
    fault = .unassignedJumpCode opcode.code ∨
      Stops (IsOperationText opcode) start position fault := by
  have hoperation : Instruction.readOperation opcode start = .error (.fault position fault) := by
    rw [Instruction.read, bind_eq_error_iff] at herror
    obtain herror | ⟨operation, -, herror⟩ := herror
    · exact herror
    · cases herror
  unfold Instruction.readOperation at hoperation
  split at hoperation
  next hclass =>
    simp only [bind_eq_error_iff, require_eq_error_iff, require_eq_ok_iff,
      LineError.fault.injEq] at hoperation
    obtain ⟨-, -, rfl⟩ | ⟨operation, hfound, hjump | ⟨jump, -, herror⟩⟩ := hoperation
    · exact Or.inl rfl
    · have hcode : opcode.code = operation.code := by
        rw [Opcode.jumpOperation?, if_pos hclass] at hfound
        exact JumpOperation.ofCode?_eq_some_iff.mp hfound
      refine Or.inr ((JumpForm.stops_of_error hjump).imp ?_)
      rintro _ ⟨form, hmem, rfl⟩
      exact ⟨[], jump form, ⟨hclass, hcode ▸ hmem⟩, (List.append_nil _).symm⟩
    · cases herror
  next hclass =>
    obtain hassignment | ⟨assignment, -, herror⟩ := bind_eq_error_iff.mp hoperation
    · refine Or.inr ((AssignmentForm.stops_of_error hassignment).imp ?_)
      rintro _ ⟨form, rfl⟩
      exact ⟨[], assignment form, Bool.eq_false_iff.mpr hclass, (List.append_nil _).symm⟩
    · cases herror

/-! ### Heads and endings -/

namespace Scan

variable {start : Scan} {position : Nat} {fault : Fault}

end Scan

namespace Line

variable {position : Nat} {fault : Fault}

end Line

/-! ### Lines -/

namespace Line

variable {position : Nat} {fault : Fault}

end Line

end VerifierTrace
