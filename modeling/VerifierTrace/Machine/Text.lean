import VerifierTrace.Machine.Basic

/-!
# Machines as text

`Machine.text` is the running frame in one line: its depth, the program counter, and every tracked
slot in order with its value and how the last instruction touched it, a question mark standing for
an unknown value. `Machine.rendering` adds the last writers of the slots and then every waiting
caller, the outermost first, each with a rendering of its own that shows its own callers again.
-/

set_option autoImplicit false
set_option relaxedAutoImplicit false

namespace VerifierTrace

/-- A letter for a read and a letter for a write. -/
def Effect.tag (effect : Effect) : String :=
  (if effect.isRead then "R" else "") ++ if effect.isWrite then "W" else ""

/-- A slot with its value, and a mark in brackets if the slot was touched. -/
def Cell.text (slot : Slot) (cell : Cell) : String :=
  " " ++ slot.text ++ "=" ++ cell.value.getD "?" ++
    if cell.effect = .none then "" else " [" ++ cell.effect.tag ++ "]"

/-- The last writer of a slot, if it has one. -/
def Cell.writerText (slot : Slot) (cell : Cell) : String :=
  match cell.writer with
  | some index => slot.text ++ "<" ++ Numeral.text index ++ ";"
  | none => ""

namespace Frame

/-- A frame at a depth in one line. -/
def text (frame : Frame) (depth : Nat) : String :=
  "frame " ++ Numeral.text depth ++ frame.pc.elim "" (fun pc ↦ " pc " ++ Numeral.text pc) ++ ":" ++
    String.join (frame.cells.entries.map fun entry ↦ entry.2.text entry.1)

/-- A frame at a depth with the last writers of its slots. -/
def rendering (frame : Frame) (depth : Nat) : String :=
  frame.text depth ++ String.join (frame.cells.entries.map fun entry ↦ entry.2.writerText entry.1)

/-- The waiting callers, given the innermost first and rendered the outermost first. The callers of
a caller are those outside it. -/
def callersRendering : List Frame → String
  | [] => ""
  | caller :: outside =>
    let outsideRendering := callersRendering outside
    outsideRendering ++ "|" ++ caller.rendering outside.length ++ outsideRendering

end Frame

namespace Machine

/-- The running frame in one line. -/
def text (machine : Machine) : String :=
  machine.frame.text machine.depth

/-- The running frame with its writers, and all waiting callers. -/
def rendering (machine : Machine) : String :=
  machine.frame.rendering machine.depth ++ Frame.callersRendering machine.callers

end Machine

end VerifierTrace
