import VerifierTrace.Fact.Basic
import VerifierTrace.Instruction.Basic
import VerifierTrace.Slot.Map

/-!
# Call frames

A frame holds what is known of the slots of one running function. Each tracked slot has a `Cell`:
the text of its value as far as the log tells it, how the last instruction touched the slot, and
the index of the line that last wrote it. A frame also remembers the program counter and the line
index of the instruction that was last run in it.

`Frame.cell` is the view through which the operations are described: `cell_change` says what a
change of one slot does to every slot, and `cell_clearEffects` what a new line does to all.
-/

set_option autoImplicit false
set_option relaxedAutoImplicit false

namespace VerifierTrace

/-- How an instruction touched a slot. -/
structure Effect where
  isRead : Bool
  isWrite : Bool
  deriving DecidableEq, Repr

namespace Effect

def none : Effect := ⟨false, false⟩

def read : Effect := ⟨true, false⟩

def write : Effect := ⟨false, true⟩

def withRead (effect : Effect) : Effect :=
  { effect with isRead := true }

def withWrite (effect : Effect) : Effect :=
  { effect with isWrite := true }

end Effect

/-- What is known of a slot. -/
structure Cell where
  value : Option String
  effect : Effect
  /-- The index of the line that last wrote the slot. -/
  writer : Option Nat
  deriving DecidableEq, Repr

namespace Cell

/-- The cell of a slot of which nothing is known. -/
def blank : Cell := ⟨none, .none, none⟩

/-- The instruction uses the slot. -/
def markRead (cell : Cell) : Cell :=
  { cell with effect := cell.effect.withRead }

/-- The instruction of a line writes the slot, and the value that it leaves is not known. -/
def overwrite (index : Nat) (cell : Cell) : Cell :=
  ⟨none, cell.effect.withWrite, some index⟩

/-- A fact tells the value of the slot, and whether the instruction of the line wrote it. -/
def learn (index : Nat) (fact : Fact) (cell : Cell) : Cell :=
  if fact.written then ⟨some fact.value, cell.effect.withWrite, some index⟩
  else { cell with value := some fact.value }

end Cell

/-- What is known in a running function. -/
structure Frame where
  cells : SlotMap Cell
  /-- The program counter of the last instruction. -/
  pc : Option Nat
  /-- The index of the line of the last instruction. -/
  line : Option Nat
  deriving DecidableEq, Repr

namespace Frame

/-- The value of the frame pointer in every frame. -/
def framePointerValue : String := "fp0"

/-- The value of the first argument of a program. -/
def contextValue : String := "ctx()"

/-- The frame of a program before its first instruction. -/
def initial : Frame :=
  let cells := (SlotMap.empty.insert (.register 1) ⟨some contextValue, .none, none⟩).insert
    Slot.framePointer ⟨some framePointerValue, .none, none⟩
  ⟨cells, none, none⟩

/-- What is known of a slot, tracked or not. -/
def cell (frame : Frame) (slot : Slot) : Cell :=
  (frame.cells.get? slot).getD .blank

/-- Whether anything was ever recorded of a slot. -/
def tracks (frame : Frame) (slot : Slot) : Bool :=
  (frame.cells.get? slot).isSome

/-- Changes what is known of a slot, and tracks it from now on. -/
def change (frame : Frame) (slot : Slot) (update : Cell → Cell) : Frame :=
  { frame with cells := frame.cells.update slot fun held ↦ update (held.getD .blank) }

/-- Changes what is known of some slots, one after the other. -/
def changeAll (frame : Frame) (slots : List Slot) (update : Cell → Cell) : Frame :=
  slots.foldl (·.change · update) frame

/-- Forgets how the last instruction touched the slots. -/
def clearEffects (frame : Frame) : Frame :=
  { frame with cells := frame.cells.map fun cell ↦ { cell with effect := .none } }

/-- The instruction of a line that stays in its function: it marks what it reads, and leaves an
unknown value in what it writes. -/
def run (frame : Frame) (index : Nat) (instruction : Instruction) : Frame :=
  (frame.clearEffects.changeAll instruction.reads Cell.markRead).changeAll instruction.writes
    (Cell.overwrite index)

/-- The frame of a subprogram called in a line: the arguments flow in with their writers, the result
and the registers saved for the caller are unknown, and no stack slot is shared. -/
def call (caller : Frame) (index : Nat) : Frame :=
  let arguments := SlotMap.empty.insertAll Slot.arguments fun slot ↦
    Cell.mk (caller.cell slot).value .read (caller.cell slot).writer
  let unknown := arguments.insertAll (Slot.returnValue :: Slot.calleeSaved) fun _ ↦
    Cell.mk none .write (some index)
  { caller with cells := unknown.insert Slot.framePointer ⟨some framePointerValue, .none, none⟩ }

/-- A frame to which a subprogram returns in a line: it is found as it was left, but for the result
and the arguments, which the subprogram may have changed. -/
def resume (caller : Frame) (index : Nat) (result : Option String) : Frame :=
  let returned := caller.clearEffects.cells.insert Slot.returnValue ⟨result, .write, some index⟩
  { caller with
    cells := returned.insertAll Slot.arguments fun _ ↦ Cell.mk none .write (some index) }

/-- Takes over the facts of a line, one after the other. -/
def learn (frame : Frame) (index : Nat) (facts : List Fact) : Frame :=
  facts.foldl (fun frame fact ↦ frame.change fact.slot (Cell.learn index fact)) frame

/-! ### The view -/

theorem cell_change (frame : Frame) (slot query : Slot) (update : Cell → Cell) :
    (frame.change slot update).cell query =
      if query = slot then update (frame.cell slot) else frame.cell query := by
  simp only [cell, change, SlotMap.get?_update]
  split <;> rfl

theorem tracks_change (frame : Frame) (slot query : Slot) (update : Cell → Cell) :
    (frame.change slot update).tracks query = (query == slot || frame.tracks query) := by
  simp only [tracks, change, SlotMap.get?_update]
  split <;> simp [*]

theorem cell_clearEffects (frame : Frame) (query : Slot) :
    frame.clearEffects.cell query = { frame.cell query with effect := .none } := by
  simp only [cell, clearEffects, SlotMap.get?_map]
  cases frame.cells.get? query <;> rfl

theorem tracks_clearEffects (frame : Frame) (query : Slot) :
    frame.clearEffects.tracks query = frame.tracks query := by
  simp [tracks, clearEffects, SlotMap.get?_map]

end Frame

end VerifierTrace
