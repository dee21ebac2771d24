import VerifierTrace.Line.Reader
import VerifierTrace.Proofs.Grammar.FactRow
import VerifierTrace.Proofs.Grammar.OperandReader

/-!
# The readers of instructions, facts and lines as trees

The readers that report faults are trees as well: `exec_instruction`, `exec_facts` and `exec_line`
say that they find what the readers of scans find, or fail with the same fault. A row of facts is
read by a loop that ends with the line; the number of octets that are left bounds its turns, since
every token takes one octet at least.
-/

set_option autoImplicit false
set_option relaxedAutoImplicit false

namespace VerifierTrace

namespace Reader

variable {Part Result : Type} {scan : Scan}

/-! ### Runs of sequences -/

theorem exec_pure (result : Result) (scan : Scan) :
    (pure result : Reader Result).exec scan = .ok (result, scan) := rfl

theorem exec_here (scan : Scan) : here.exec scan = .ok (scan.offset, scan) := rfl

/-- A reader that matches something does not fail. -/
theorem exec_of_matcher {reader : Reader Result} {found : Result × Scan}
    (hfound : reader.matcher scan = some found) : reader.exec scan = .ok found := by
  rw [matcher] at hfound
  cases hexec : reader.exec scan with
  | error error => rw [hexec] at hfound; cases hfound
  | ok result => rw [hexec] at hfound; rw [Option.some.inj hfound]

theorem exec_skipBlanks (scan : Scan) : skipBlanks.exec scan = .ok ((), scan.skipBlanks) :=
  exec_of_matcher matcher_skipBlanks

theorem exec_optional (reader : Reader Part) (scan : Scan) : reader.optional.exec scan =
    .ok ((reader.matcher scan).map Prod.fst, (reader.matcher scan).elim scan Prod.snd) :=
  exec_of_matcher (matcher_optional reader)

theorem exec_accept (text : String) (scan : Scan) : (accept text).exec scan =
    .ok ((scan.literal? text).isSome, (scan.literal? text).getD scan) :=
  exec_of_matcher (matcher_accept text)

theorem bind_ok {Found : Type} (found : Found) (next : Found → Except LineError Result) :
    (Except.ok found).bind next = next found := rfl

theorem require_map_unit (scan : Scan) (found : Option Scan) (missing : Fault) :
    scan.require (found.map (Prod.mk ())) missing =
      (scan.require found missing).map (Prod.mk ()) := by
  cases found with
  | none => rfl
  | some stop => rfl

/-- Of a sequence that ends with a result, the result alone is asked for. -/
theorem map_fst_bind_pure (found : Except LineError (Part × Scan)) (result : Part → Result) :
    (found.bind fun (part, stop) ↦ (pure (result part) : Reader Result).exec stop).map Prod.fst =
      (found.map Prod.fst).map result := by
  cases found with
  | error error => rfl
  | ok found => rfl

theorem map_fst_bind {Found : Type} (found : Except LineError Found)
    (next : Found → Except LineError (Result × Scan)) :
    (found.bind next).map Prod.fst = found.bind fun part ↦ (next part).map Prod.fst := by
  cases found with
  | error error => rfl
  | ok part => rfl

/-- What is read without a result is only passed. -/
theorem bind_map_ok (found : Except LineError Scan)
    (next : Unit × Scan → Except LineError (Result × Scan)) :
    (found.map (Prod.mk ())).bind next = found.bind fun stop ↦ next ((), stop) := by
  cases found with
  | error error => rfl
  | ok stop => rfl

/-! ### Words and targets of jumps -/

/-- A word of the grammar and the blanks that must follow it. -/
def keywordAndBlanks (word : String) : Reader Unit := do
  (keyword word).orFault (.expectedKeyword word)
  blanks.orFault .missingTarget

/-- The word `goto` or its long form. -/
def goto : Reader Unit := do
  match ← (keyword "gotol").optional with
  | some _ => blanks.orFault .missingTarget
  | none => keywordAndBlanks "goto"

theorem isTargetChar_of_wide {c : Char} (hwide : 128 ≤ c.toNat) : Scan.isTargetChar c = false := by
  simp only [Scan.isTargetChar, isWordChar_of_wide hwide,
    beq_eq_false_of_wide hwide (by decide : '+'.toNat < 128),
    beq_eq_false_of_wide hwide (by decide : '-'.toNat < 128),
    beq_eq_false_of_wide hwide (by decide : '#'.toNat < 128),
    beq_eq_false_of_wide hwide (by decide : '.'.toNat < 128), Bool.or_self]

def targetRule : PassRule :=
  .ofClass Scan.isTargetChar false fun _ ↦ isTargetChar_of_wide

def jumpTarget : Reader (String × Span) := do
  let start ← here
  let text ← run targetRule
  if text.isEmpty then .fail (.fault start .missingTarget) else
  let stop ← here
  pure (String.ofList text, .between start stop)

theorem exec_keywordAndBlanks (word : String) (scan : Scan) :
    (keywordAndBlanks word).exec scan = (scan.keywordAndBlanks word).map (Prod.mk ()) := by
  simp only [keywordAndBlanks, exec_bind, exec_orFault, matcher_keyword, matcher_blanks,
    require_map_unit, bind_map_ok, Scan.keywordAndBlanks]
  cases scan.require (scan.keyword? word) (.expectedKeyword word) with
  | error error => rfl
  | ok place => rfl

theorem exec_goto (scan : Scan) : goto.exec scan = scan.goto.map (Prod.mk ()) := by
  simp only [goto, exec_bind, exec_optional, matcher_keyword, bind_ok, Scan.goto]
  cases scan.keyword? "gotol" with
  | none => exact exec_keywordAndBlanks "goto" scan
  | some word =>
    simp only [Option.map_some, Option.elim_some, exec_orFault, matcher_blanks, require_map_unit]

theorem exec_jumpTarget (scan : Scan) : jumpTarget.exec scan = scan.target := by
  have hrun : (run targetRule).exec scan = .ok (scan.run Scan.isTargetChar) :=
    exec_of_matcher matcher_run_ofClass
  simp only [jumpTarget, exec_bind, exec_here, hrun, bind_ok, Scan.target]
  split
  · rfl
  · rfl

/-! ### Assignments -/

def lock : Reader Unit := do
  keyword "lock"
  blanks

def assignOperator : Reader AssignOperator :=
  firstOf (fun operator ↦ do literal operator.symbol; pure operator) AssignOperator.all

def assignment : Reader Assignment := do
  let locked ← lock.optional
  let target ← target.orFault .expectedOperand
  skipBlanks
  let operator ← assignOperator.orFault .expectedOperator
  skipBlanks
  let modifier ← modifier.optional
  let source ← source.orFault .expectedOperand
  pure ⟨operator, target, source, modifier, locked.isSome⟩

theorem matcher_firstOf_symbol {Entry : Type} (symbol : Entry → String) (table : List Entry) :
    (firstOf (fun entry ↦ do literal (symbol entry); pure entry) table).matcher scan =
      scan.firstOf? symbol table := by
  simp only [matcher_firstOf, matcher_bind, matcher_literal, bind_map_unit, matcher_pure,
    Scan.firstOf?]
  simp only [Option.map_eq_bind]
  rfl

theorem matcher_lock :
    lock.matcher scan = ((scan.keyword? "lock").bind Scan.blanks?).map (Prod.mk ()) := by
  simp only [lock, matcher_bind, matcher_keyword, bind_map_unit, matcher_blanks]
  cases scan.keyword? "lock" with
  | none => rfl
  | some word => rfl

theorem exec_assignment (scan : Scan) : assignment.exec scan = Assignment.read scan := by
  simp only [assignment, exec_bind, exec_optional, matcher_lock, bind_ok, exec_orFault,
    matcher_target, exec_skipBlanks, assignOperator, matcher_firstOf_symbol, matcher_modifier,
    matcher_source, exec_pure, Assignment.read]
  cases (scan.keyword? "lock").bind Scan.blanks? with
  | none => rfl
  | some place => rfl

/-! ### Jumps -/

def call : Reader Jump := do
  keywordAndBlanks "call"
  let (target, span) ← jumpTarget
  pure ⟨if (pcOffset? target).isSome then .subprogramCall else .helperCall, target, some span, none⟩

def exit : Reader Jump := do
  let _ ← (keyword "exit").optional
  pure ⟨.exit, "", none, none⟩

def unconditional : Reader Jump := do
  goto
  let (target, span) ← jumpTarget
  pure ⟨.unconditional, target, some span, none⟩

def comparator : Reader Comparator :=
  firstOf (fun comparator ↦ do literal comparator.symbol; pure comparator) Comparator.all

def condition : Reader Condition := do
  let left ← register.orFault .expectedOperand
  skipBlanks
  let comparator ← comparator.orFault .expectedOperator
  skipBlanks
  let right ← source.orFault .expectedOperand
  pure ⟨left, comparator, right⟩

def conditional : Reader Jump := do
  keywordAndBlanks "if"
  let condition ← condition
  blanks.orFault (.expectedKeyword "goto")
  goto
  let (target, span) ← jumpTarget
  pure ⟨.conditional, target, some span, some condition⟩

def jump : JumpOperation → Reader Jump
  | .call => call
  | .exit => exit
  | .ja => unconditional
  | _ => conditional

theorem exec_call (scan : Scan) : call.exec scan = Jump.readCall scan := by
  simp only [call, exec_bind, exec_keywordAndBlanks, bind_map_ok, exec_jumpTarget, exec_pure,
    Jump.readCall]
  rfl

theorem exec_exit (scan : Scan) : exit.exec scan = .ok (Jump.readExit scan) := by
  simp only [exit, exec_bind, exec_optional, matcher_keyword, bind_ok, exec_pure, Jump.readExit]
  cases scan.keyword? "exit" with
  | none => rfl
  | some stop => rfl

theorem exec_unconditional (scan : Scan) : unconditional.exec scan = Jump.readGoto scan := by
  simp only [unconditional, exec_bind, exec_goto, bind_map_ok, exec_jumpTarget, exec_pure,
    Jump.readGoto]
  rfl

theorem exec_condition (scan : Scan) : condition.exec scan = Jump.readCondition scan := by
  simp only [condition, exec_bind, exec_orFault, matcher_register, exec_skipBlanks, bind_ok,
    comparator, matcher_firstOf_symbol, matcher_source, exec_pure, Jump.readCondition]
  rfl

theorem exec_conditional (scan : Scan) : conditional.exec scan = Jump.readConditional scan := by
  simp only [conditional, exec_bind, exec_keywordAndBlanks, bind_map_ok, exec_condition,
    exec_orFault, matcher_blanks, require_map_unit, exec_goto, exec_jumpTarget, exec_pure,
    Jump.readConditional]
  rfl

theorem exec_jump (operation : JumpOperation) (scan : Scan) :
    (jump operation).exec scan = Jump.read operation scan := by
  cases operation with
  | call => exact exec_call scan
  | exit => exact exec_exit scan
  | ja => exact exec_unconditional scan
  | _ => exact exec_conditional scan

/-! ### Instructions -/

/-- What the instruction of an opcode does. -/
def operation (opcode : Opcode) : Reader Operation := do
  if opcode.instructionClass.isJump then
    let operation ← (ofOption opcode.jumpOperation?).orFault (.unassignedJumpCode opcode.code)
    return .jump (← jump operation)
  else
    return .assignment (← assignment)

def instruction (pc : Nat) (opcode : Opcode) : Reader Instruction := do
  let start ← here
  let operation ← operation opcode
  let stop ← here
  pure ⟨some pc, opcode, operation, .between start stop⟩

theorem exec_operation (opcode : Opcode) (scan : Scan) :
    (operation opcode).exec scan = Instruction.readOperation opcode scan := by
  rw [operation, Instruction.readOperation]
  split
  · simp only [exec_bind, exec_orFault, matcher_ofOption, exec_jump, exec_pure]
    cases opcode.jumpOperation? with
    | none => rfl
    | some operation => rfl
  · simp only [exec_bind, exec_assignment, exec_pure]
    rfl

theorem exec_instruction (pc : Nat) (opcode : Opcode) (scan : Scan) :
    (instruction pc opcode).exec scan = Instruction.read pc opcode scan := by
  simp only [instruction, exec_bind, exec_here, bind_ok, exec_operation, exec_pure,
    Instruction.read]
  rfl

/-! ### Facts -/

theorem isKeyChar_of_wide {c : Char} (hwide : 128 ≤ c.toNat) : FactToken.isKeyChar c = true := by
  simp only [FactToken.isKeyChar, bne, beq_eq_false_of_wide hwide (by decide : '='.toNat < 128),
    beq_eq_false_of_wide hwide (by decide : ' '.toNat < 128), Bool.not_false, Bool.and_self]

def keyRule : PassRule :=
  .ofClass FactToken.isKeyChar true fun _ ↦ isKeyChar_of_wide

theorem nesting_of_wide {c : Char} (hwide : 128 ≤ c.toNat) (depth : Nat) :
    FactToken.nesting depth c = depth := by
  unfold FactToken.nesting
  split
  · exact absurd hwide (by decide)
  · exact absurd hwide (by decide)
  · rfl

/-- A value is passed up to the first space outside parentheses. -/
def valueRule : PassRule where
  step depth c := if c = ' ' ∧ depth = 0 then none else some (FactToken.nesting depth c)
  isWide := true
  step_of_wide depth c hwide := by
    have hspace : c ≠ ' ' := by
      rintro rfl
      exact absurd hwide (by decide)
    rw [if_neg fun h ↦ hspace h.1, nesting_of_wide hwide]
    rfl

theorem count_valueRule (depth : Nat) (text : List Char) :
    valueRule.count depth text = FactToken.valueLength depth text := by
  induction text generalizing depth with
  | nil => rfl
  | cons c text ih =>
    rw [FactToken.valueLength]
    split
    · next hend => exact PassRule.count_cons_of_none _ (if_pos hend) text
    · next hinside => rw [PassRule.count_cons_of_some _ (if_neg hinside) text, ih]

def factToken : Reader FactToken := do
  let start ← here
  let key ← run keyRule
  if ← accept "=" then
    let value ← run valueRule
    let stop ← here
    pure ⟨key, some value, .between start stop⟩
  else
    let stop ← here
    pure ⟨key, none, .between start stop⟩

/-- The number of octets that are left. -/
def remaining : Reader Nat := .left .done

/-- Reads tokens in a number of turns, or up to the end of the line. -/
def factTokens : Nat → Reader (List FactToken)
  | 0 => pure []
  | turns + 1 => do
    skipBlanks
    if (← remaining) = 0 then pure [] else
    let token ← factToken
    let others ← factTokens turns
    pure (token :: others)

/-- The mark of a call frame. -/
def frameMark : Reader Nat := do
  literal "frame"
  let digits ← run .digit
  literal ":"
  ofOption (Numeral.decimal? 64 digits)

def facts : Reader (List Fact) := do
  skipBlanks
  let depth ← frameMark.optional
  let tokens ← factTokens (← remaining)
  pure (tokens.filterMap (Fact.ofToken? (depth.getD 0)))

theorem exec_run_ofClass {inClass : Char → Bool} {isWide : Bool}
    {hwide : ∀ c : Char, 128 ≤ c.toNat → inClass c = isWide} :
    (run (.ofClass inClass isWide hwide)).exec scan = .ok (scan.run inClass) :=
  exec_of_matcher matcher_run_ofClass

theorem exec_remaining (scan : Scan) : remaining.exec scan = .ok (octets scan.rest, scan) := rfl

theorem exec_factToken (scan : Scan) : factToken.exec scan = .ok (FactToken.read scan) := by
  have hvalue : ∀ scan, (run valueRule).exec scan = .ok (FactToken.readValue scan) := by
    intro scan
    rw [run, exec, count_valueRule]
    rfl
  simp only [factToken, keyRule, exec_bind, exec_here, bind_ok, exec_run_ofClass, exec_accept,
    FactToken.read]
  cases (scan.run FactToken.isKeyChar).2.literal? "=" with
  | none => rfl
  | some afterSign =>
    simp only [Option.isSome_some, Option.getD_some, if_true, exec_bind, hvalue, exec_here, bind_ok,
      exec_pure]
    rfl

/-- With a turn for each character that is left, all tokens are read. -/
theorem exec_factTokens {turns : Nat} (hturns : scan.rest.length ≤ turns) :
    ((factTokens turns).exec scan).map Prod.fst = .ok (FactToken.all scan) := by
  induction turns generalizing scan with
  | zero =>
    have hlength := scan.reaches_skipBlanks.length_le
    have hend : scan.skipBlanks.rest = [] := List.eq_nil_of_length_eq_zero (by omega)
    rw [FactToken.all_eq_nil rfl hend]
    rfl
  | succ turns ih =>
    simp only [factTokens, exec_bind, exec_skipBlanks, bind_ok, exec_remaining,
      octets_eq_zero_iff]
    split
    · next hend =>
      rw [FactToken.all_eq_nil rfl hend]
      rfl
    · next hleft =>
      have hbegins : scan.skipBlanks.atEnd = false := by
        rw [Scan.atEnd, List.isEmpty_eq_false_iff]
        exact hleft
      rcases hread : FactToken.read scan.skipBlanks with ⟨token, stop⟩
      have hnext : FactToken.next? scan = some (token, stop) := by
        rw [FactToken.next?, hbegins, hread]
        rfl
      have hshorter : stop.rest.length < scan.rest.length := FactToken.length_next? hnext
      rw [FactToken.all_eq_cons rfl hbegins hread, exec_bind, exec_factToken, hread, bind_ok]
      simp only [exec_bind]
      rw [map_fst_bind_pure, ih (by omega)]
      rfl

theorem matcher_frameMark (scan : Scan) : frameMark.matcher scan = Fact.frameMark? scan := by
  simp only [frameMark, PassRule.digit, matcher_bind, matcher_literal, bind_map_unit,
    matcher_run_ofClass, Option.bind_some, matcher_ofOption, Fact.frameMark?]
  simp only [Option.map_eq_bind]
  rfl

theorem exec_facts (scan : Scan) : (facts.exec scan).map Prod.fst = .ok (Fact.read scan) := by
  simp only [facts, exec_bind, exec_skipBlanks, bind_ok, exec_optional, matcher_frameMark,
    exec_remaining]
  rw [map_fst_bind_pure, exec_factTokens (length_le_octets _), Fact.read]
  cases Fact.frameMark? scan.skipBlanks with
  | none => rfl
  | some mark => rfl

/-! ### Lines -/

def character (expected : Char) : Reader Unit :=
  (literal (String.singleton expected)).orFault (.expectedCharacter expected)

def programCounter : Reader Nat :=
  (do ofOption (Numeral.decimal? 64 (← run .digit)) : Reader Nat).orFault .missingProgramCounter

theorem isOpcodeChar_of_wide {c : Char} (hwide : 128 ≤ c.toNat) : Scan.isOpcodeChar c = true := by
  simp only [Scan.isOpcodeChar, bne, beq_eq_false_of_wide hwide (by decide : ')'.toNat < 128),
    beq_eq_false_of_wide hwide (by decide : ' '.toNat < 128), Bool.not_false, Bool.and_self]

def opcodeRule : PassRule :=
  .ofClass Scan.isOpcodeChar true fun _ ↦ isOpcodeChar_of_wide

/-- An opcode byte in parentheses. -/
def opcode : Reader Opcode := do
  character '('
  let start ← here
  let digits ← run opcodeRule
  match Opcode.ofText (String.ofList digits) with
  | .error cause => .fail (.fault start (.badOpcode cause))
  | .ok opcode =>
    character ')'
    pure opcode

/-- The text of a source comment, without the blanks around it. -/
def sourceComment : Reader LineContent := do
  skipBlanks
  let start ← here
  let text ← .rest .done
  pure (.sourceComment ⟨start, octets (trimEnd text)⟩)

/-- What may follow an instruction. -/
def ending : Reader (List Fact) := do
  skipBlanks
  if (← remaining) = 0 then pure []
  else if ← accept ";" then facts
  else
    let text ← .rest .done
    fault (.trailingText (String.ofList (trimEnd text)))

def instructionLine : Reader LineContent := do
  let pc ← programCounter
  character ':'
  skipBlanks
  let opcode ← opcode
  skipBlanks
  let instruction ← instruction pc opcode
  let facts ← ending
  pure (.instruction instruction facts)

/-- A line without its end. -/
def line : Reader LineContent := do
  skipBlanks
  if (← remaining) = 0 then .fail .empty
  else if ← accept ";" then sourceComment
  else instructionLine

theorem exec_character (expected : Char) (scan : Scan) :
    (character expected).exec scan = (scan.character expected).map (Prod.mk ()) := by
  rw [character, exec_orFault, matcher_literal, Scan.character]
  exact require_map_unit _ _ _

theorem exec_programCounter (scan : Scan) : programCounter.exec scan = scan.programCounter := by
  rw [programCounter, exec_orFault]
  simp only [PassRule.digit, matcher_bind, matcher_run_ofClass, Option.bind_some, matcher_ofOption]
  rfl

theorem exec_opcode (scan : Scan) : opcode.exec scan = scan.opcode := by
  simp only [opcode, opcodeRule, exec_bind, exec_character, bind_map_ok, exec_here, bind_ok,
    exec_run_ofClass, Scan.opcode, Scan.run]
  cases scan.character '(' with
  | error error => rfl
  | ok start =>
    show _ = (match Opcode.ofText (String.ofList (start.rest.takeWhile Scan.isOpcodeChar)) with
      | .error cause => start.fault (.badOpcode cause)
      | .ok opcode => _)
    rw [bind_ok]
    cases Opcode.ofText (String.ofList (start.rest.takeWhile Scan.isOpcodeChar)) with
    | error cause => rfl
    | ok opcode =>
      simp only [exec_bind, exec_character, bind_map_ok, exec_pure]
      rfl

theorem exec_ending (scan : Scan) :
    (ending.exec scan).map Prod.fst = Line.readFacts scan := by
  simp only [ending, exec_bind, exec_skipBlanks, bind_ok, exec_remaining, octets_eq_zero_iff,
    Line.readFacts, Scan.atEnd, List.isEmpty_iff]
  split
  · rfl
  · simp only [exec_bind, exec_accept, bind_ok]
    cases scan.skipBlanks.literal? ";" with
    | none => rfl
    | some comment => exact exec_facts comment

theorem exec_instructionLine (scan : Scan) :
    (instructionLine.exec scan).map Prod.fst = Line.readInstruction scan := by
  simp only [instructionLine, exec_bind, exec_programCounter, exec_character, bind_map_ok,
    exec_skipBlanks, bind_ok, exec_opcode, exec_instruction, Line.readInstruction]
  simp only [map_fst_bind _ fun _ ↦ Except.bind _ _, map_fst_bind_pure, exec_ending]
  rfl

theorem exec_line (scan : Scan) : (line.exec scan).map Prod.fst = Line.readContent scan := by
  simp only [line, exec_bind, exec_skipBlanks, bind_ok, exec_remaining, octets_eq_zero_iff,
    Line.readContent, Scan.atEnd, List.isEmpty_iff]
  split
  · rfl
  · simp only [exec_bind, exec_accept, bind_ok]
    cases scan.skipBlanks.literal? ";" with
    | none => exact exec_instructionLine scan.skipBlanks
    | some comment =>
      rw [Option.isSome_some, if_pos rfl, sourceComment, exec_bind, exec_skipBlanks]
      rfl

end Reader

end VerifierTrace
