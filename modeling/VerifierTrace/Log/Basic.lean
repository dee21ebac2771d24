import VerifierTrace.Line.Reader
import VerifierTrace.Machine.Basic

/-!
# Logs

A log is what has been read of the output of the verifier so far. Each line is kept with the machine
as of that line: the state after the last instruction at or before it, if there was one. `Log.push`
reads one complete line, and keeps the counts of `Tally` up to date. Text that does not end a line
yet waits in the log until more arrives or `Log.finish` is called.
-/

set_option autoImplicit false
set_option relaxedAutoImplicit false

namespace VerifierTrace

/-- The numbers of lines of each kind, and the greatest depth of any state. -/
structure Tally where
  lines : Nat
  instructions : Nat
  sourceComments : Nat
  unrecognized : Nat
  deepest : Nat
  deriving DecidableEq, Repr

namespace Tally

def zero : Tally := ⟨0, 0, 0, 0, 0⟩

/-- Counts a line, and takes account of the depth of the state that it leads to. -/
def count (tally : Tally) (line : Line) (state : Option Machine) : Tally :=
  let counted := { tally with
    lines := tally.lines + 1
    deepest := state.elim tally.deepest fun machine ↦ max tally.deepest machine.depth }
  match line.content with
  | .instruction .. => { counted with instructions := tally.instructions + 1 }
  | .sourceComment _ => { counted with sourceComments := tally.sourceComments + 1 }
  | .unrecognized _ => { counted with unrecognized := tally.unrecognized + 1 }

end Tally

/-- A line, and the machine after the last instruction at or before it. -/
structure LogEntry where
  line : Line
  state : Option Machine
  deriving DecidableEq, Repr

structure Log where
  entries : Array LogEntry
  /-- The text after the last line feed, which still waits for the rest of its line. -/
  pending : String
  tally : Tally
  /-- The greatest length of a chain of dependencies, unless a query asks for another. -/
  maxDepth : Nat
  deriving DecidableEq, Repr

namespace Log

/-- The greatest length of a chain of dependencies, unless a log is given another. -/
def defaultMaxDepth : Nat := 1024

/-- A log of which nothing has been read. -/
def empty (maxDepth : Nat) : Log :=
  ⟨#[], "", .zero, maxDepth⟩

/-- The number of lines. -/
def size (log : Log) : Nat :=
  log.entries.size

def line? (log : Log) (index : Nat) : Option Line :=
  log.entries[index]?.map LogEntry.line

/-- The machine after the last instruction at or before a line. -/
def stateAt? (log : Log) (index : Nat) : Option Machine :=
  log.entries[index]?.bind LogEntry.state

/-- The machine after the last instruction read so far. -/
def latest? (log : Log) : Option Machine :=
  log.entries.back?.bind LogEntry.state

/-- The machine after everything read so far. -/
def current (log : Log) : Machine :=
  log.latest?.getD .initial

/-- Reads one complete line. Its index is the number of lines before it. -/
def push (log : Log) (text : String) : Log :=
  let line := Line.ofText text
  let state := log.current.next? log.size line
  { log with
    entries := log.entries.push ⟨line, state.or log.latest?⟩
    tally := log.tally.count line state }

/-- Reads one complete line, and answers with its index. -/
def pushLine (log : Log) (text : String) : Nat × Log :=
  (log.size, log.push text)

/-- Reads the text that still waits, if there is any, as the last line. -/
def finish (log : Log) : Log :=
  if log.pending.isEmpty then log else { log.push log.pending with pending := "" }

/-- The lines that are neither instructions nor source comments, with their indices and faults. -/
def unrecognized (log : Log) : List (Nat × Line × LineError) :=
  log.entries.toList.zipIdx.filterMap fun (entry, index) ↦
    entry.line.error?.map fun error ↦ (index, entry.line, error)

end Log

end VerifierTrace
