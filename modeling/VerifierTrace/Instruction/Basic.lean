import VerifierTrace.Instruction.Operator
import VerifierTrace.Opcode
import VerifierTrace.Operand.Basic
import VerifierTrace.Word

/-!
# Instructions

An instruction either assigns or transfers control. `Instruction.reads` and `Instruction.writes` are
the slots that it uses and changes in meaning and not in letter: `r1 += r2` reads its own target, a
reference outside the stack reads its address register, and a call reads the argument registers
although none of them is written in the line. Both are sorted lists of distinct slots.

`pcOffset?` reads a target of the form `pc+3`, and `Instruction.branchTarget?` is the program
counter that such a target names, counted from the instruction after this one.
-/

set_option autoImplicit false
set_option relaxedAutoImplicit false

namespace VerifierTrace

/-- `target operator modifier source`, such as `r1 += r2`. -/
structure Assignment where
  operator : AssignOperator
  target : Operand
  source : Operand
  modifier : Option Modifier
  /-- Whether the word `lock` makes the assignment one atomic update of memory. -/
  atomic : Bool
  deriving DecidableEq, Repr

namespace Assignment

/-- The target if the operator is compound, the address register of every reference outside the
stack, and the source unless it is a number. -/
def reads (assignment : Assignment) : List Slot :=
  Slot.sorted
    ((if assignment.operator.isCompound then assignment.target.slot?.toList else []) ++
      assignment.target.address?.toList ++ assignment.source.address?.toList ++
      assignment.source.slot?.toList)

/-- Exactly the target. -/
def writes (assignment : Assignment) : List Slot :=
  assignment.target.slot?.toList

end Assignment

/-- The kinds of control transfer. -/
inductive JumpKind
  | unconditional
  | conditional
  | helperCall
  | subprogramCall
  | exit
  deriving DecidableEq, Repr

def JumpKind.text : JumpKind → String
  | unconditional => "goto"
  | conditional => "conditional goto"
  | helperCall => "helper call"
  | subprogramCall => "subprogram call"
  | exit => "exit"

/-- The comparison of a conditional jump. -/
structure Condition where
  left : Operand
  comparator : Comparator
  right : Operand
  deriving DecidableEq, Repr

/-- The program counter offset in a target such as `pc+3`: a sign and digits of a value that fits
64 bits. -/
def pcOffset? (target : String) : Option Int :=
  match target.toList with
  | 'p' :: 'c' :: offset => Numeral.signed? 64 offset
  | _ => none

/-- A control transfer with the text of its target, which is empty when there is none. -/
structure Jump where
  kind : JumpKind
  target : String
  targetSpan : Option Span
  condition : Option Condition
  deriving DecidableEq, Repr

namespace Jump

/-- A call reads the argument registers, and a conditional jump what it compares. -/
def reads (jump : Jump) : List Slot :=
  match jump.kind with
  | .helperCall | .subprogramCall => Slot.arguments
  | .conditional =>
    match jump.condition with
    | some condition =>
      Slot.sorted (condition.left.slot?.toList ++ condition.right.slot?.toList)
    | none => []
  | .unconditional | .exit => []

/-- A helper may change the result and argument registers, a subprogram the result and the registers
that its caller finds again. -/
def writes (jump : Jump) : List Slot :=
  match jump.kind with
  | .helperCall => Slot.returnValue :: Slot.arguments
  | .subprogramCall => Slot.returnValue :: Slot.calleeSaved
  | .unconditional | .conditional | .exit => []

end Jump

/-- What an instruction does. -/
inductive Operation
  | assignment (assignment : Assignment)
  | jump (jump : Jump)
  deriving DecidableEq, Repr

/-- An instruction at a program counter, with the stretch of the line that it takes up. -/
structure Instruction where
  pc : Option Nat
  opcode : Opcode
  operation : Operation
  span : Span
  deriving DecidableEq, Repr

namespace Instruction

def assignment? (instruction : Instruction) : Option Assignment :=
  match instruction.operation with
  | .assignment assignment => some assignment
  | .jump _ => none

def jump? (instruction : Instruction) : Option Jump :=
  match instruction.operation with
  | .assignment _ => none
  | .jump jump => some jump

def jumpKind? (instruction : Instruction) : Option JumpKind :=
  instruction.jump?.map Jump.kind

/-- The slots that the instruction uses. -/
def reads (instruction : Instruction) : List Slot :=
  match instruction.operation with
  | .assignment assignment => assignment.reads
  | .jump jump => jump.reads

/-- The slots that the instruction changes. -/
def writes (instruction : Instruction) : List Slot :=
  match instruction.operation with
  | .assignment assignment => assignment.writes
  | .jump jump => jump.writes

/-- The operands in the order of the line. -/
def operands (instruction : Instruction) : List Operand :=
  match instruction.operation with
  | .assignment assignment => [assignment.target, assignment.source]
  | .jump jump => jump.condition.elim [] fun condition ↦ [condition.left, condition.right]

def isSubprogramCall (instruction : Instruction) : Bool :=
  instruction.jumpKind? == some .subprogramCall

def isExit (instruction : Instruction) : Bool :=
  instruction.jumpKind? == some .exit

/-- The program counter that a target such as `pc+3` names. It is found in words, step by step, so
there is none when the own counter is no word, when a sum on the way would wrap around, or when the
named counter would be negative. -/
def branchTarget? (instruction : Instruction) : Option Nat := do
  let pc ← Word.ofNat? (← instruction.pc)
  let jump ← instruction.jump?
  let offset ← pcOffset? jump.target
  let sum ← Word.sum? pc (Int64.ofInt offset)
  let target ← Word.sum? sum 1
  Word.toNat? target

/-! ### Reads and writes are sets -/

theorem pairwise_reads (instruction : Instruction) : instruction.reads.Pairwise (· < ·) := by
  obtain ⟨pc, opcode, operation, span⟩ := instruction
  cases operation with
  | assignment assignment => exact Slot.pairwise_sorted _
  | jump jump =>
    obtain ⟨kind, target, targetSpan, condition⟩ := jump
    cases kind with
    | unconditional => exact List.Pairwise.nil
    | conditional =>
      cases condition with
      | none => exact List.Pairwise.nil
      | some condition => exact Slot.pairwise_sorted _
    | helperCall => exact (by decide : Slot.arguments.Pairwise (· < ·))
    | subprogramCall => exact (by decide : Slot.arguments.Pairwise (· < ·))
    | exit => exact List.Pairwise.nil

theorem pairwise_writes (instruction : Instruction) : instruction.writes.Pairwise (· < ·) := by
  obtain ⟨pc, opcode, operation, span⟩ := instruction
  cases operation with
  | assignment assignment =>
    show (assignment.target.slot?.toList).Pairwise (· < ·)
    cases assignment.target.slot? <;> simp
  | jump jump =>
    obtain ⟨kind, target, targetSpan, condition⟩ := jump
    cases kind with
    | helperCall => exact (by decide : (Slot.returnValue :: Slot.arguments).Pairwise (· < ·))
    | subprogramCall => exact (by decide : (Slot.returnValue :: Slot.calleeSaved).Pairwise (· < ·))
    | unconditional | conditional | exit => exact List.Pairwise.nil

end Instruction

end VerifierTrace
