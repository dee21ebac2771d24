import VerifierTrace.Log.Basic

/-!
# Where a value came from

The dependencies of a slot at a line are the lines that its value came from, the nearest first. The
first is the last writer of the slot before the line. From a writer the chain goes on to the last
writer, before it, of the slot that it reads, as long as it reads exactly one; it ends at a writer
that reads none or several, and at a length that the query sets.
-/

set_option autoImplicit false
set_option relaxedAutoImplicit false

namespace VerifierTrace

/-- The slot that an instruction reads, if it reads exactly one. -/
def Instruction.soleRead? (instruction : Instruction) : Option Slot :=
  match instruction.reads with
  | [slot] => some slot
  | _ => none

namespace Log

/-- The last writer of a slot as of a line. -/
def writerAt? (log : Log) (index : Nat) (slot : Slot) : Option Nat :=
  (log.stateAt? index).bind fun machine ↦ (machine.frame.cell slot).writer

/-- The last writer of a slot before a line. When the line wrote the slot itself, the state as of
the line before it tells. -/
def writerBefore? (log : Log) (index : Nat) (slot : Slot) : Option Nat :=
  match log.writerAt? index slot with
  | none => none
  | some writer =>
    if writer < index then some writer
    else if index = 0 then none
    else (log.writerAt? (index - 1) slot).filter (· < index)

/-- The slot that the value left by a line came from, if it came from exactly one. -/
def source? (log : Log) (index : Nat) : Option Slot :=
  ((log.line? index).bind Line.instruction?).bind Instruction.soleRead?

/-- The chain of at most `length` dependencies of a slot at a line. -/
def chain (log : Log) : (length : Nat) → (index : Nat) → (slot : Slot) → List Nat
  | 0, _, _ => []
  | length + 1, index, slot =>
    match log.writerBefore? index slot with
    | none => []
    | some writer => writer :: (log.source? writer).elim [] (log.chain length writer)

/-- The lines that the value of a slot at a line came from, as far as the log is set to follow
them. -/
def dependencies (log : Log) (index : Nat) (slot : Slot) : List Nat :=
  log.chain log.maxDepth index slot

end Log

end VerifierTrace
