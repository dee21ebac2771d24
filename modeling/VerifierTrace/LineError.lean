import VerifierTrace.DecodeError
import VerifierTrace.Text.Scan

/-!
# Why a line is no instruction

A line that is neither an instruction nor a source comment is kept with the first fault found in it
and the position of that fault. None of these faults stops the reading of a log.
`LineError.message` is the wording of each, and `LineError.offset?` the position that it names. A
reader reports a fault where it stands (`Scan.fault`), or when it misses what it requires there
(`Scan.require`).
-/

set_option autoImplicit false
set_option relaxedAutoImplicit false

namespace VerifierTrace

/-- What is wrong at a position of a line. -/
inductive Fault
  /-- The line does not begin with a program counter. -/
  | missingProgramCounter
  /-- A punctuation character is missing. -/
  | expectedCharacter (expected : Char)
  /-- The text between the parentheses is not an opcode byte. -/
  | badOpcode (cause : DecodeError)
  /-- The opcode is that of a jump, and its operation code is unassigned. -/
  | unassignedJumpCode (code : Nat)
  /-- There is no register, reference or number where one is required. -/
  | expectedOperand
  /-- There is no operator or comparator where one is required. -/
  | expectedOperator
  /-- A word of the grammar is missing. -/
  | expectedKeyword (keyword : String)
  /-- A jump or a call has no target. -/
  | missingTarget
  /-- Text is left over after the instruction. -/
  | trailingText (text : String)
  deriving DecidableEq, Repr

def Fault.message : Fault → String
  | missingProgramCounter => "expected program counter"
  | expectedCharacter expected => "expected '" ++ String.singleton expected ++ "'"
  | badOpcode cause => cause.message
  | unassignedJumpCode code =>
    "unassigned jump operation code 0x" ++ String.ofList (Nat.toDigits 16 code)
  | expectedOperand => "expected operand"
  | expectedOperator => "expected operator"
  | expectedKeyword keyword => "expected '" ++ keyword ++ "'"
  | missingTarget => "expected jump target"
  | trailingText text => "unexpected text '" ++ text ++ "'"

/-- The first fault of a line. -/
inductive LineError
  /-- The line holds nothing but blanks. -/
  | empty
  | fault (offset : Nat) (fault : Fault)
  deriving DecidableEq, Repr

namespace LineError

def message : LineError → String
  | .empty => "empty line"
  | .fault offset found => "byte " ++ offset.repr ++ ": " ++ found.message

/-- The position that the error points at. -/
def offset? : LineError → Option Nat
  | .empty => none
  | .fault offset _ => some offset

end LineError

namespace Scan

/-- Reports a fault at this place. -/
def fault {Result : Type} (scan : Scan) (fault : Fault) : Except LineError Result :=
  .error (.fault scan.offset fault)

/-- Takes what a matcher found, or reports a fault at this place. -/
def require {Result : Type} (scan : Scan) (found : Option Result) (fault : Fault) :
    Except LineError Result :=
  found.elim (scan.fault fault) .ok

end Scan

end VerifierTrace
