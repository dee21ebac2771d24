import VerifierTrace.Machine.Basic

/-!
# Renamed line indices

Line indices stand in a machine in two places: a cell names the line that last wrote its slot, and
a frame names the line of its last instruction. `Machine.rename` replaces them all, in the running
frame and in the frames that wait, and leaves everything else alone.

The machine only stores the index of a line and copies it with the cells. It never compares two
indices and computes none, so every step commutes with every renaming, one-to-one or not: a renamed
machine that takes an instruction at the renamed index leads to the renamed machine
(`rename_advance`, `next?_rename`).
-/

set_option autoImplicit false
set_option relaxedAutoImplicit false

namespace VerifierTrace

/-! ### Tables -/

namespace SlotMap

variable {Value Image : Type}

@[simp]
theorem map_empty (change : Value → Value) : (empty : SlotMap Value).map change = empty := rfl

theorem map_update (table : SlotMap Value) (slot : Slot) {outer : Value → Value}
    {inner inner' : Option Value → Value}
    (hchange : ∀ held, outer (inner held) = inner' (held.map outer)) :
    (table.update slot inner).map outer = (table.map outer).update slot inner' := by
  refine ext_get? fun query ↦ ?_
  rw [get?_map, get?_update, get?_update, get?_map, get?_map, ← hchange]
  split
  · rfl
  · rfl

theorem map_insert (table : SlotMap Value) (slot : Slot) (value : Value) (change : Value → Value) :
    (table.insert slot value).map change = (table.map change).insert slot (change value) :=
  table.map_update slot fun _ ↦ rfl

theorem map_insertAll (table : SlotMap Value) (slots : List Slot) (value : Slot → Value)
    (change : Value → Value) :
    (table.insertAll slots value).map change =
      (table.map change).insertAll slots fun slot ↦ change (value slot) := by
  refine ext_get? fun query ↦ ?_
  rw [get?_map, get?_insertAll, get?_insertAll, get?_map]
  split
  · rfl
  · rfl

/-- Changes that commute on values commute on tables. -/
theorem map_comm (table : SlotMap Value) (first second : Value → Value)
    (hcomm : ∀ value, first (second value) = second (first value)) :
    (table.map second).map first = (table.map first).map second := by
  refine ext_get? fun query ↦ ?_
  simp only [get?_map, Option.map_map]
  exact congrArg (Option.map · _) (funext hcomm)

theorem map_eq_self (table : SlotMap Value) {change : Value → Value}
    (hchange : ∀ value, change value = value) : table.map change = table := by
  refine ext_get? fun query ↦ ?_
  rw [get?_map, funext hchange]
  exact Option.map_id'

end SlotMap

/-! ### Cells -/

namespace Cell

/-- Replaces the index of the last writer. -/
def rename (place : Nat → Nat) (cell : Cell) : Cell :=
  { cell with writer := cell.writer.map place }

variable (place : Nat → Nat)

theorem rename_id (cell : Cell) : cell.rename id = cell := by
  rw [rename, Option.map_id]
  rfl

theorem rename_markRead (cell : Cell) : cell.markRead.rename place = (cell.rename place).markRead :=
  rfl

theorem rename_overwrite (index : Nat) (cell : Cell) :
    (cell.overwrite index).rename place = (cell.rename place).overwrite (place index) := rfl

theorem rename_learn (index : Nat) (fact : Fact) (cell : Cell) :
    (cell.learn index fact).rename place = (cell.rename place).learn (place index) fact := by
  unfold learn
  split
  · rfl
  · rfl

end Cell

/-! ### Frames -/

namespace Frame

/-- Replaces the index of the line of the last instruction, and those of all last writers. -/
def rename (place : Nat → Nat) (frame : Frame) : Frame :=
  { frame with cells := frame.cells.map (Cell.rename place), line := frame.line.map place }

variable (place : Nat → Nat)

theorem rename_id (frame : Frame) : frame.rename id = frame := by
  rw [rename, SlotMap.map_eq_self _ Cell.rename_id, Option.map_id]
  rfl

theorem cell_rename (frame : Frame) (slot : Slot) :
    (frame.rename place).cell slot = (frame.cell slot).rename place := by
  simp only [cell, rename, SlotMap.get?_map]
  cases frame.cells.get? slot with
  | none => rfl
  | some held => rfl

theorem rename_initial : initial.rename place = initial := by
  simp [rename, initial, SlotMap.map_insert, Cell.rename]

theorem rename_change (frame : Frame) (slot : Slot) {update update' : Cell → Cell}
    (hupdate : ∀ cell, (update cell).rename place = update' (cell.rename place)) :
    (frame.change slot update).rename place = (frame.rename place).change slot update' := by
  have hcells : (frame.cells.update slot fun held ↦ update (held.getD .blank)).map
        (Cell.rename place) =
      (frame.cells.map (Cell.rename place)).update slot fun held ↦ update' (held.getD .blank) := by
    refine SlotMap.map_update _ _ fun held ↦ ?_
    cases held with
    | none => exact hupdate .blank
    | some cell => exact hupdate cell
  rw [change, rename, hcells]
  rfl

theorem rename_changeAll (frame : Frame) (slots : List Slot) {update update' : Cell → Cell}
    (hupdate : ∀ cell, (update cell).rename place = update' (cell.rename place)) :
    (frame.changeAll slots update).rename place = (frame.rename place).changeAll slots update' := by
  induction slots generalizing frame with
  | nil => rfl
  | cons slot slots ih =>
    have hfirst := ih (frame.change slot update)
    rw [rename_change place frame slot hupdate] at hfirst
    exact hfirst

theorem rename_clearEffects (frame : Frame) :
    frame.clearEffects.rename place = (frame.rename place).clearEffects := by
  have hcells := frame.cells.map_comm (Cell.rename place)
    (fun cell ↦ { cell with effect := .none }) fun _ ↦ rfl
  rw [clearEffects, rename, hcells]
  rfl

theorem rename_run (frame : Frame) (index : Nat) (instruction : Instruction) :
    (frame.run index instruction).rename place =
      (frame.rename place).run (place index) instruction := by
  rw [run, rename_changeAll place _ _ (Cell.rename_overwrite place index),
    rename_changeAll place _ _ (Cell.rename_markRead place), rename_clearEffects]
  rfl

/-- A called function receives the arguments with their writers, renamed or not. -/
theorem rename_call (caller : Frame) (index : Nat) :
    (caller.call index).rename place = (caller.rename place).call (place index) := by
  simp only [call, cell_rename]
  simp only [rename, SlotMap.map_insert, SlotMap.map_insertAll, SlotMap.map_empty]
  rfl

theorem rename_resume (caller : Frame) (index : Nat) (result : Option String) :
    (caller.resume index result).rename place =
      (caller.rename place).resume (place index) result := by
  have hcleared : caller.clearEffects.cells.map (Cell.rename place) =
      (caller.rename place).clearEffects.cells :=
    congrArg Frame.cells (caller.rename_clearEffects place)
  simp only [resume, ← hcleared]
  simp only [rename, SlotMap.map_insert, SlotMap.map_insertAll]
  rfl

theorem rename_learn (frame : Frame) (index : Nat) (facts : List Fact) :
    (frame.learn index facts).rename place = (frame.rename place).learn (place index) facts := by
  induction facts generalizing frame with
  | nil => rfl
  | cons fact facts ih =>
    have hfirst := ih (frame.change fact.slot (Cell.learn index fact))
    rw [rename_change place frame fact.slot (Cell.rename_learn place index fact)] at hfirst
    exact hfirst

end Frame

/-! ### Machines -/

namespace Machine

/-- Replaces all line indices, in the running frame and in those that wait. -/
def rename (place : Nat → Nat) (machine : Machine) : Machine :=
  ⟨machine.frame.rename place, machine.callers.map (Frame.rename place)⟩

variable (place : Nat → Nat)

theorem rename_id (machine : Machine) : machine.rename id = machine := by
  rw [rename, Frame.rename_id, funext Frame.rename_id, List.map_id']

@[simp]
theorem rename_initial : initial.rename place = initial := by
  rw [rename, initial, Frame.rename_initial, List.map_nil]

@[simp]
theorem depth_rename (machine : Machine) : (machine.rename place).depth = machine.depth :=
  List.length_map _

theorem rename_transfer (machine : Machine) (index : Nat) (instruction : Instruction) :
    (machine.transfer index instruction).rename place =
      (machine.rename place).transfer (place index) instruction := by
  obtain ⟨frame, callers⟩ := machine
  have hresult : ((frame.rename place).cell Slot.returnValue).value =
      (frame.cell Slot.returnValue).value := by
    rw [Frame.cell_rename]
    rfl
  unfold transfer
  split
  · simp only [rename, Frame.rename_call, List.map_cons]
  · cases callers with
    | nil =>
      simp only [rename, List.map_nil, Frame.rename_resume, Frame.rename_initial, hresult]
    | cons caller callers =>
      simp only [rename, List.map_cons, Frame.rename_resume, hresult]
  · simp only [rename, Frame.rename_run]

theorem rename_locate (machine : Machine) (index : Nat) (pc : Option Nat) :
    (machine.locate index pc).rename place = (machine.rename place).locate (place index) pc := rfl

theorem rename_learn (machine : Machine) (index : Nat) (facts : List Fact) :
    (machine.learn index facts).rename place =
      (machine.rename place).learn (place index) facts := by
  simp only [learn, depth_rename]
  simp only [rename, Frame.rename_learn]

/-- Every instruction commutes with every renaming. -/
theorem rename_advance (machine : Machine) (index : Nat) (instruction : Instruction)
    (facts : List Fact) :
    (machine.advance index instruction facts).rename place =
      (machine.rename place).advance (place index) instruction facts := by
  rw [advance, rename_learn, rename_locate, rename_transfer, advance]

theorem next?_rename (machine : Machine) (index : Nat) (line : Line) :
    (machine.rename place).next? (place index) line =
      (machine.next? index line).map (rename place) := by
  unfold next?
  split
  · rw [Option.map_some, rename_advance]
  · rfl
  · rfl

end Machine

end VerifierTrace
