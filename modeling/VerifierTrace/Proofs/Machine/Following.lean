import VerifierTrace.Proofs.Machine.Transition

/-!
# Following the lines of a log

A machine follows some lines, each with its index: an instruction advances it, and any other line
leaves it as it is.
-/

set_option autoImplicit false
set_option relaxedAutoImplicit false

namespace VerifierTrace

namespace Machine

/-- The machine after a line, which it takes no notice of unless it is an instruction. -/
def read (machine : Machine) (index : Nat) (line : Line) : Machine :=
  (machine.next? index line).getD machine

/-- The machine after some lines, each with its index. -/
def follow (machine : Machine) (lines : List (Nat × Line)) : Machine :=
  lines.foldl (fun machine line ↦ machine.read line.1 line.2) machine

theorem read_of_instruction (machine : Machine) (index : Nat) {line : Line}
    {instruction : Instruction} (hinstruction : line.instruction? = some instruction) :
    machine.read index line = machine.advance index instruction line.facts := by
  rw [read, next?_eq_map, hinstruction]
  rfl

theorem read_of_none (machine : Machine) (index : Nat) {line : Line}
    (hnone : line.instruction? = none) : machine.read index line = machine := by
  rw [read, next?_eq_map, hnone]
  rfl

theorem follow_concat (machine : Machine) (lines : List (Nat × Line)) (index : Nat) (line : Line) :
    machine.follow (lines ++ [(index, line)]) = (machine.follow lines).read index line :=
  List.foldl_append

end Machine

end VerifierTrace
