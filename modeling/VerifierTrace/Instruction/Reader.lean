import VerifierTrace.Instruction.Basic
import VerifierTrace.LineError
import VerifierTrace.Operand.Reader

/-!
# Reading instructions

The opcode decides which grammar the text of an instruction follows: an assignment outside the jump
classes, and in them a call, an exit, a plain jump or a conditional jump by the operation code. Each
reader answers with what it read and the place right after the last token, or with the first fault.
-/

set_option autoImplicit false
set_option relaxedAutoImplicit false

namespace VerifierTrace

namespace Scan

/-- Passes a word of the grammar and the blanks that must follow it. -/
def keywordAndBlanks (scan : Scan) (keyword : String) : Except LineError Scan := do
  let word ← scan.require (scan.keyword? keyword) (.expectedKeyword keyword)
  word.require word.blanks? .missingTarget

/-- Passes `goto` or its long form `gotol`. -/
def goto (scan : Scan) : Except LineError Scan :=
  match scan.keyword? "gotol" with
  | some word => word.require word.blanks? .missingTarget
  | none => scan.keywordAndBlanks "goto"

/-- The characters of a jump target. -/
def isTargetChar (c : Char) : Bool :=
  isWordChar c || c == '+' || c == '-' || c == '#' || c == '.'

/-- Reads the target of a jump or a call. -/
def target (scan : Scan) : Except LineError ((String × Span) × Scan) :=
  let (text, stop) := scan.run isTargetChar
  if text.isEmpty then scan.fault .missingTarget
  else .ok ((String.ofList text, scan.spanTo stop), stop)

end Scan

/-- Reads `[lock] target operator [modifier] source`. -/
def Assignment.read (scan : Scan) : Except LineError (Assignment × Scan) := do
  let locked := (scan.keyword? "lock").bind Scan.blanks?
  let start := locked.getD scan
  let (target, afterTarget) ← start.require (Operand.target? start) .expectedOperand
  let beforeOperator := afterTarget.skipBlanks
  let (operator, afterOperator) ← beforeOperator.require
    (beforeOperator.firstOf? AssignOperator.symbol AssignOperator.all) .expectedOperator
  let beforeModifier := afterOperator.skipBlanks
  let modified := Modifier.read? beforeModifier
  let beforeSource := modified.elim beforeModifier Prod.snd
  let (source, stop) ← beforeSource.require (Operand.source? beforeSource) .expectedOperand
  return (⟨operator, target, source, modified.map Prod.fst, locked.isSome⟩, stop)

namespace Jump

/-- Reads `call target`. A target of the form `pc+3` is a subprogram, and any other a helper. -/
def readCall (scan : Scan) : Except LineError (Jump × Scan) := do
  let beforeTarget ← scan.keywordAndBlanks "call"
  let ((target, span), stop) ← beforeTarget.target
  let kind : JumpKind := if (pcOffset? target).isSome then .subprogramCall else .helperCall
  return (⟨kind, target, some span, none⟩, stop)

/-- Reads `exit`, which may be missing. -/
def readExit (scan : Scan) : Jump × Scan :=
  (⟨.exit, "", none, none⟩, (scan.keyword? "exit").getD scan)

/-- Reads `goto target`. -/
def readGoto (scan : Scan) : Except LineError (Jump × Scan) := do
  let beforeTarget ← scan.goto
  let ((target, span), stop) ← beforeTarget.target
  return (⟨.unconditional, target, some span, none⟩, stop)

/-- Reads `register comparator operand`. -/
def readCondition (scan : Scan) : Except LineError (Condition × Scan) := do
  let (left, afterLeft) ← scan.require (Operand.register? scan) .expectedOperand
  let beforeComparator := afterLeft.skipBlanks
  let (comparator, afterComparator) ← beforeComparator.require
    (beforeComparator.firstOf? Comparator.symbol Comparator.all) .expectedOperator
  let beforeRight := afterComparator.skipBlanks
  let (right, stop) ← beforeRight.require (Operand.source? beforeRight) .expectedOperand
  return (⟨left, comparator, right⟩, stop)

/-- Reads `if condition goto target`. -/
def readConditional (scan : Scan) : Except LineError (Jump × Scan) := do
  let beforeCondition ← scan.keywordAndBlanks "if"
  let (condition, afterCondition) ← readCondition beforeCondition
  let beforeGoto ← afterCondition.require afterCondition.blanks? (.expectedKeyword "goto")
  let beforeTarget ← beforeGoto.goto
  let ((target, span), stop) ← beforeTarget.target
  return (⟨.conditional, target, some span, some condition⟩, stop)

/-- Reads the control transfer of a jump operation. -/
def read (operation : JumpOperation) (scan : Scan) : Except LineError (Jump × Scan) :=
  match operation with
  | .call => readCall scan
  | .exit => .ok (readExit scan)
  | .ja => readGoto scan
  | _ => readConditional scan

end Jump

namespace Instruction

/-- Reads what the instruction of an opcode does. -/
def readOperation (opcode : Opcode) (scan : Scan) : Except LineError (Operation × Scan) := do
  if opcode.instructionClass.isJump then
    let operation ← scan.require opcode.jumpOperation? (.unassignedJumpCode opcode.code)
    let (jump, stop) ← Jump.read operation scan
    return (.jump jump, stop)
  else
    let (assignment, stop) ← Assignment.read scan
    return (.assignment assignment, stop)

/-- Reads the text of an instruction whose program counter and opcode are known. -/
def read (pc : Nat) (opcode : Opcode) (scan : Scan) : Except LineError (Instruction × Scan) := do
  let (operation, stop) ← readOperation opcode scan
  return (⟨some pc, opcode, operation, scan.spanTo stop⟩, stop)

end Instruction

end VerifierTrace
