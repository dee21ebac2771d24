import VerifierTrace.Line.Basic
import VerifierTrace.Machine.Frame

/-!
# The machine

The state of a program after a line of its log is the frame of the running function and the frames
of the callers that wait for it, the innermost first. `Machine.advance` is the transition of one
instruction: a subprogram call puts a new frame on top, an exit takes the top one off, and every
other instruction changes the top one. An exit without a caller ends the program, and what follows
begins in a fresh one. Facts in the line count only for the frame at the depth that they name.

Nothing is executed. The values are the texts that the log reports, and an instruction only tells
which slots were used and changed and which frame is the running one.
-/

set_option autoImplicit false
set_option relaxedAutoImplicit false

namespace VerifierTrace

/-- The running frame and the frames of the waiting callers, the innermost first. -/
structure Machine where
  frame : Frame
  callers : List Frame
  deriving DecidableEq, Repr

namespace Machine

/-- The machine before the first instruction. -/
def initial : Machine :=
  ⟨.initial, []⟩

/-- How many callers wait. -/
def depth (machine : Machine) : Nat :=
  machine.callers.length

/-- The machine as it was when the running function was called. -/
def caller? (machine : Machine) : Option Machine :=
  match machine.callers with
  | [] => none
  | frame :: callers => some ⟨frame, callers⟩

/-- The frames after the instruction of a line, before its facts are known. -/
def transfer (machine : Machine) (index : Nat) (instruction : Instruction) : Machine :=
  match instruction.jumpKind? with
  | some .subprogramCall => ⟨machine.frame.call index, machine.frame :: machine.callers⟩
  | some .exit =>
    let result := (machine.frame.cell Slot.returnValue).value
    match machine.callers with
    | [] => ⟨Frame.initial.resume index result, []⟩
    | caller :: callers => ⟨caller.resume index result, callers⟩
  | _ => ⟨machine.frame.run index instruction, machine.callers⟩

/-- Notes which instruction and line the running frame is at. -/
def locate (machine : Machine) (index : Nat) (pc : Option Nat) : Machine :=
  { machine with frame := { machine.frame with pc := pc, line := some index } }

/-- Takes over those facts of a line that are about the running frame. -/
def learn (machine : Machine) (index : Nat) (facts : List Fact) : Machine :=
  { machine with
    frame := machine.frame.learn index (facts.filter fun fact ↦ fact.depth == machine.depth) }

/-- The machine after the instruction and the facts of the line with an index. -/
def advance (machine : Machine) (index : Nat) (instruction : Instruction) (facts : List Fact) :
    Machine :=
  ((machine.transfer index instruction).locate index instruction.pc).learn index facts

/-- The machine after a line, if the line is an instruction. -/
def next? (machine : Machine) (index : Nat) (line : Line) : Option Machine :=
  match line.content with
  | .instruction instruction facts => some (machine.advance index instruction facts)
  | .sourceComment _ | .unrecognized _ => none

end Machine

end VerifierTrace
