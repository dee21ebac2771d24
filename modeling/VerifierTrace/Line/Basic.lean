import VerifierTrace.Fact.Basic
import VerifierTrace.Instruction.Basic
import VerifierTrace.LineError

/-!
# Lines of a log

A line is kept as it was, without the characters that end it, together with what it turned out to
be: an instruction with the facts stated after it, a comment from the source program, or anything
else with the first fault in it.
-/

set_option autoImplicit false
set_option relaxedAutoImplicit false

namespace VerifierTrace

inductive LineContent
  | instruction (instruction : Instruction) (facts : List Fact)
  | sourceComment (text : Span)
  | unrecognized (error : LineError)
  deriving DecidableEq, Repr

structure Line where
  raw : String
  content : LineContent
  deriving DecidableEq, Repr

namespace Line

def instruction? (line : Line) : Option Instruction :=
  match line.content with
  | .instruction instruction _ => some instruction
  | _ => none

/-- The facts of an instruction line, and none for any other line. -/
def facts (line : Line) : List Fact :=
  match line.content with
  | .instruction _ facts => facts
  | _ => []

/-- Why the line was not recognized. -/
def error? (line : Line) : Option LineError :=
  match line.content with
  | .unrecognized error => some error
  | _ => none

def isInstruction (line : Line) : Bool :=
  line.instruction?.isSome

end Line

end VerifierTrace
