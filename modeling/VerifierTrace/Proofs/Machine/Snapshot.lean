import VerifierTrace.Proofs.Machine.Following
import VerifierTrace.Proofs.Machine.Transition

/-!
# Snapshots that keep their callers whole

A machine has one list of frames, and in it everything is said once. A `Snapshot` says it more than
once. It counts its depth, it keeps the last writers in a table of their own, and each of its saved
callers is a whole snapshot, with a depth, writers and saved callers of its own. `Snapshot.advance`
works on these copies: a subprogram call puts the running snapshot after a copy of its callers, and
an exit goes on from the last of the saved callers, or from the initial snapshot if there is none.

`Machine.snapshot` writes a machine out in this form. Every instruction does the same to a machine
and to its snapshot (`snapshot_advance`), so following lines from the initial snapshot always leads
to the snapshot of a machine (`follow_initial`), and what is said more than once stays the same.
-/

set_option autoImplicit false
set_option relaxedAutoImplicit false

namespace VerifierTrace

namespace SlotMap

variable {Value Other : Type}

/-- Changes every value, and drops the slots that are left without one. -/
def filterMap (table : SlotMap Value) (change : Value → Option Other) : SlotMap Other where
  entries := table.entries.filterMap fun entry ↦ (change entry.2).map (entry.1, ·)
  increasing := by
    refine List.pairwise_map.mpr ((List.pairwise_map.mp table.increasing).filterMap _ ?_)
    rintro first second hless changed hchanged changed' hchanged'
    obtain ⟨_, -, rfl⟩ := Option.map_eq_some_iff.mp hchanged
    obtain ⟨_, -, rfl⟩ := Option.map_eq_some_iff.mp hchanged'
    exact hless

theorem get?_filterMap (table : SlotMap Value) (change : Value → Option Other) (query : Slot) :
    (table.filterMap change).get? query = (table.get? query).bind change := by
  refine Option.ext fun value ↦ ?_
  rw [← mem_entries_iff, Option.bind_eq_some_iff, filterMap, List.mem_filterMap]
  constructor
  · rintro ⟨⟨slot, held⟩, hmem, hchange⟩
    obtain ⟨_, hvalue, hsame⟩ := Option.map_eq_some_iff.mp hchange
    cases hsame
    exact ⟨held, (table.mem_entries_iff _ _).mp hmem, hvalue⟩
  · rintro ⟨held, hheld, hvalue⟩
    exact ⟨(query, held), (table.mem_entries_iff _ _).mpr hheld, by rw [hvalue]; rfl⟩

end SlotMap

/-! ### Snapshots -/

/-- What a snapshot records of a slot, apart from its last writer. -/
structure SlotRecord where
  value : Option String
  effect : Effect
  deriving DecidableEq, Repr

namespace SlotRecord

def blank : SlotRecord := ⟨none, .none⟩

/-- The instruction uses the slot. -/
def markRead (record : SlotRecord) : SlotRecord :=
  { record with effect := record.effect.withRead }

/-- The instruction writes the slot, and the value that it leaves is not known. -/
def overwrite (record : SlotRecord) : SlotRecord :=
  ⟨none, record.effect.withWrite⟩

/-- A fact tells the value of the slot, and whether the instruction wrote it. -/
def learn (fact : Fact) (record : SlotRecord) : SlotRecord :=
  ⟨some fact.value, if fact.written then record.effect.withWrite else record.effect⟩

end SlotRecord

/-- A state with all that is saved in it, the outermost caller first. -/
structure Snapshot where
  slots : SlotMap SlotRecord
  writers : SlotMap Nat
  depth : Nat
  pc : Option Nat
  line : Option Nat
  callers : List Snapshot

namespace Snapshot

/-- The snapshot before the first instruction. -/
def initial : Snapshot where
  slots := (SlotMap.empty.insert (.register 1) ⟨some Frame.contextValue, .none⟩).insert
    Slot.framePointer ⟨some Frame.framePointerValue, .none⟩
  writers := .empty
  depth := 0
  pc := none
  line := none
  callers := []

def value? (state : Snapshot) (slot : Slot) : Option String :=
  (state.slots.get? slot).bind SlotRecord.value

/-- Forgets how the last instruction touched the slots. -/
def carryValues (state : Snapshot) : Snapshot :=
  { state with slots := state.slots.map fun record ↦ { record with effect := .none } }

def markRead (state : Snapshot) (slot : Slot) : Snapshot :=
  { state with slots := state.slots.update slot fun held ↦ (held.getD .blank).markRead }

def overwrite (index : Nat) (state : Snapshot) (slot : Slot) : Snapshot :=
  { state with
    slots := state.slots.update slot fun held ↦ (held.getD .blank).overwrite
    writers := state.writers.insert slot index }

/-- An instruction that stays in its function. -/
def step (state : Snapshot) (index : Nat) (instruction : Instruction) : Snapshot :=
  instruction.writes.foldl (overwrite index) (instruction.reads.foldl markRead state.carryValues)

/-- Hands the last writer of an argument on to a subprogram, if it has one. -/
def passWriter (state : Snapshot) (passed : SlotMap Nat) (slot : Slot) : SlotMap Nat :=
  match state.writers.get? slot with
  | some line => passed.insert slot line
  | none => passed

/-- A call saves the running snapshot whole, and opens a new frame. -/
def enter (state : Snapshot) (index : Nat) : Snapshot :=
  let arguments := SlotMap.empty.insertAll Slot.arguments fun slot ↦
    SlotRecord.mk (state.value? slot) .read
  let unknown := arguments.insertAll (Slot.returnValue :: Slot.calleeSaved) fun _ ↦
    SlotRecord.mk none .write
  { slots := unknown.insert Slot.framePointer ⟨some Frame.framePointerValue, .none⟩
    writers := (Slot.arguments.foldl state.passWriter .empty).insertAll
      (Slot.returnValue :: Slot.calleeSaved) fun _ ↦ index
    depth := state.depth + 1
    pc := state.pc
    line := state.line
    callers := state.callers ++ [state] }

/-- The snapshot that an exit goes on from. -/
def parent (state : Snapshot) : Snapshot :=
  match state.callers.getLast? with
  | some caller => caller.carryValues
  | none => initial

/-- An exit hands the result to the caller saved last. -/
def leave (state : Snapshot) (index : Nat) : Snapshot :=
  let returned := state.parent.slots.insert Slot.returnValue
    ⟨state.value? Slot.returnValue, .write⟩
  { state.parent with
    slots := returned.insertAll Slot.arguments fun _ ↦ SlotRecord.mk none .write
    writers := (state.parent.writers.insert Slot.returnValue index).insertAll Slot.arguments
      fun _ ↦ index }

def learnFact (index : Nat) (state : Snapshot) (fact : Fact) : Snapshot :=
  { state with
    slots := state.slots.update fact.slot fun held ↦ (held.getD .blank).learn fact
    writers := if fact.written then state.writers.insert fact.slot index else state.writers }

/-- Takes over those facts of a line that are about the running frame. -/
def learn (state : Snapshot) (index : Nat) (facts : List Fact) : Snapshot :=
  (facts.filter fun fact ↦ fact.depth == state.depth).foldl (learnFact index) state

/-- The snapshot after an instruction, before its facts are known. -/
def transfer (state : Snapshot) (index : Nat) (instruction : Instruction) : Snapshot :=
  match instruction.jumpKind? with
  | some .subprogramCall => state.enter index
  | some .exit => state.leave index
  | _ => state.step index instruction

/-- The snapshot after the instruction and the facts of the line with an index. -/
def advance (state : Snapshot) (index : Nat) (instruction : Instruction) (facts : List Fact) :
    Snapshot :=
  { state.transfer index instruction with
    pc := instruction.pc
    line := some index }.learn index facts

/-- The snapshot after a line, if the line is an instruction. -/
def next? (state : Snapshot) (index : Nat) (line : Line) : Option Snapshot :=
  match line.content with
  | .instruction instruction facts => some (state.advance index instruction facts)
  | .sourceComment _ | .unrecognized _ => none

/-- The snapshot after some lines, each with its index, of which only instructions count. -/
def follow (state : Snapshot) (lines : List (Nat × Line)) : Snapshot :=
  lines.foldl (fun state line ↦ (state.next? line.1 line.2).getD state) state

section Moves

variable (state : Snapshot) (index : Nat) {instruction : Instruction}

theorem transfer_of_call (hcall : instruction.isSubprogramCall = true) :
    state.transfer index instruction = state.enter index := by
  have hkind : instruction.jumpKind? = some .subprogramCall := by
    simpa [Instruction.isSubprogramCall] using hcall
  rw [transfer, hkind]

theorem transfer_of_exit (hexit : instruction.isExit = true) :
    state.transfer index instruction = state.leave index := by
  have hkind : instruction.jumpKind? = some .exit := by
    simpa [Instruction.isExit] using hexit
  rw [transfer, hkind]

theorem transfer_of_stay (hcall : instruction.isSubprogramCall = false)
    (hexit : instruction.isExit = false) :
    state.transfer index instruction = state.step index instruction := by
  unfold transfer
  split
  next hkind => simp [Instruction.isSubprogramCall, hkind] at hcall
  next hkind => simp [Instruction.isExit, hkind] at hexit
  next => rfl

end Moves

/-- The writers of the arguments that are passed are those that they have in the caller. -/
theorem get?_foldl_passWriter (state : Snapshot) (slots : List Slot) (passed : SlotMap Nat)
    (query : Slot) :
    (slots.foldl state.passWriter passed).get? query =
      if query ∈ slots then (state.writers.get? query).or (passed.get? query)
      else passed.get? query := by
  induction slots generalizing passed with
  | nil => rfl
  | cons slot slots ih =>
    have hpass : (state.passWriter passed slot).get? query =
        if query = slot then (state.writers.get? query).or (passed.get? query)
        else passed.get? query := by
      unfold passWriter
      by_cases hquery : query = slot
      · subst hquery
        cases hwriter : state.writers.get? query <;> simp [SlotMap.get?_insert]
      · cases hwriter : state.writers.get? slot <;> simp [SlotMap.get?_insert, hquery]
    rw [List.foldl_cons, ih, hpass]
    by_cases hquery : query = slot
    · subst hquery
      cases state.writers.get? query <;> simp
    · simp [hquery]

end Snapshot

/-! ### The snapshot of a machine -/

def Cell.record (cell : Cell) : SlotRecord :=
  ⟨cell.value, cell.effect⟩

namespace Frame

def records (frame : Frame) : SlotMap SlotRecord :=
  frame.cells.filterMap fun cell ↦ some cell.record

def writers (frame : Frame) : SlotMap Nat :=
  frame.cells.filterMap Cell.writer

/-- A frame with its saved callers around it. -/
def snapshot (frame : Frame) (callers : List Snapshot) : Snapshot :=
  ⟨frame.records, frame.writers, callers.length, frame.pc, frame.line, callers⟩

theorem get?_records (frame : Frame) (query : Slot) :
    frame.records.get? query = (frame.cells.get? query).map Cell.record := by
  rw [records, SlotMap.get?_filterMap]
  cases frame.cells.get? query <;> rfl

theorem get?_writers (frame : Frame) (query : Slot) :
    frame.writers.get? query = (frame.cell query).writer := by
  rw [writers, SlotMap.get?_filterMap, cell]
  cases frame.cells.get? query <;> rfl

/-- Only tracked slots have a writer. -/
theorem isSome_get?_records_of_writer {frame : Frame} {slot : Slot} {writer : Nat}
    (hwriter : frame.writers.get? slot = some writer) :
    (frame.records.get? slot).isSome = true := by
  rw [writers, SlotMap.get?_filterMap] at hwriter
  obtain ⟨cell, hcell, -⟩ := Option.bind_eq_some_iff.mp hwriter
  rw [get?_records, hcell]
  rfl

theorem value?_snapshot (frame : Frame) (callers : List Snapshot) (slot : Slot) :
    (frame.snapshot callers).value? slot = (frame.cell slot).value := by
  rw [Snapshot.value?, snapshot, get?_records, cell]
  cases frame.cells.get? slot <;> rfl

/-! A change of a cell shows in the records and in the writers. -/

theorem records_change (frame : Frame) (slot : Slot) (update : Cell → Cell)
    (note : SlotRecord → SlotRecord) (hnote : ∀ cell, (update cell).record = note cell.record) :
    (frame.change slot update).records =
      frame.records.update slot fun held ↦ note (held.getD .blank) := by
  refine SlotMap.ext_get? fun query ↦ ?_
  rw [get?_records, change, SlotMap.get?_update, SlotMap.get?_update]
  by_cases hquery : query = slot
  · rw [if_pos hquery, if_pos hquery, get?_records, Option.map_some, hnote]
    cases frame.cells.get? slot <;> rfl
  · rw [if_neg hquery, if_neg hquery, get?_records]

theorem writers_change_of_kept (frame : Frame) (slot : Slot) (update : Cell → Cell)
    (hkept : ∀ cell, (update cell).writer = cell.writer) :
    (frame.change slot update).writers = frame.writers := by
  refine SlotMap.ext_get? fun query ↦ ?_
  rw [get?_writers, get?_writers, cell_change]
  split
  next hquery => rw [hkept, hquery]
  next => rfl

theorem writers_change_of_stamped (frame : Frame) (slot : Slot) (update : Cell → Cell)
    (index : Nat) (hstamped : ∀ cell, (update cell).writer = some index) :
    (frame.change slot update).writers = frame.writers.insert slot index := by
  refine SlotMap.ext_get? fun query ↦ ?_
  rw [get?_writers, cell_change, SlotMap.get?_insert, get?_writers]
  split
  next => exact hstamped _
  next => rfl

section Squares

variable (frame : Frame) (callers : List Snapshot) (index : Nat)

theorem snapshot_initial : initial.snapshot [] = .initial := by
  have hrecords : initial.records = Snapshot.initial.slots := rfl
  have hwriters : initial.writers = Snapshot.initial.writers := rfl
  rw [snapshot, hrecords, hwriters]
  rfl

theorem snapshot_clearEffects :
    frame.clearEffects.snapshot callers = (frame.snapshot callers).carryValues := by
  have hrecords : frame.clearEffects.records =
      frame.records.map fun record ↦ { record with effect := .none } := by
    refine SlotMap.ext_get? fun query ↦ ?_
    rw [get?_records, clearEffects, SlotMap.get?_map, SlotMap.get?_map, get?_records]
    cases frame.cells.get? query <;> rfl
  have hwriters : frame.clearEffects.writers = frame.writers := by
    refine SlotMap.ext_get? fun query ↦ ?_
    rw [get?_writers, get?_writers, cell_clearEffects]
  rw [snapshot, hrecords, hwriters]
  rfl

theorem snapshot_markRead (slot : Slot) :
    (frame.change slot Cell.markRead).snapshot callers =
      (frame.snapshot callers).markRead slot := by
  rw [snapshot, frame.records_change slot Cell.markRead SlotRecord.markRead fun _ ↦ rfl,
    frame.writers_change_of_kept slot Cell.markRead fun _ ↦ rfl]
  rfl

theorem snapshot_overwrite (slot : Slot) :
    (frame.change slot (Cell.overwrite index)).snapshot callers =
      (frame.snapshot callers).overwrite index slot := by
  rw [snapshot,
    frame.records_change slot (Cell.overwrite index) SlotRecord.overwrite fun _ ↦ rfl,
    frame.writers_change_of_stamped slot (Cell.overwrite index) index fun _ ↦ rfl]
  rfl

theorem snapshot_learnFact (fact : Fact) :
    (frame.change fact.slot (Cell.learn index fact)).snapshot callers =
      (frame.snapshot callers).learnFact index fact := by
  have hrecord : ∀ cell, (Cell.learn index fact cell).record = cell.record.learn fact := by
    intro cell
    unfold Cell.learn SlotRecord.learn
    split <;> rfl
  rw [snapshot, frame.records_change fact.slot _ _ hrecord, Snapshot.learnFact]
  cases hwritten : fact.written with
  | true =>
    have hstamped : ∀ cell, (Cell.learn index fact cell).writer = some index := by
      intro cell
      rw [Cell.learn, if_pos hwritten]
    rw [frame.writers_change_of_stamped fact.slot _ index hstamped]
    rfl
  | false =>
    have hkept : ∀ cell, (Cell.learn index fact cell).writer = cell.writer := by
      intro cell
      rw [Cell.learn, hwritten]
      rfl
    rw [frame.writers_change_of_kept fact.slot _ hkept]
    rfl

theorem snapshot_run (instruction : Instruction) :
    (frame.run index instruction).snapshot callers =
      (frame.snapshot callers).step index instruction := by
  rw [run, Snapshot.step, changeAll, changeAll, ← snapshot_clearEffects]
  rw [List.foldl_hom (fun frame ↦ snapshot frame callers)
    (fun frame slot ↦ (frame.snapshot_markRead callers slot).symm)]
  exact (List.foldl_hom (fun frame ↦ snapshot frame callers)
    (fun frame slot ↦ (frame.snapshot_overwrite callers index slot).symm)).symm

theorem snapshot_learn (facts : List Fact) :
    (frame.learn index (facts.filter fun fact ↦ fact.depth == callers.length)).snapshot callers =
      (frame.snapshot callers).learn index facts :=
  (List.foldl_hom (fun frame ↦ snapshot frame callers)
    (fun frame fact ↦ (frame.snapshot_learnFact callers index fact).symm)).symm

/-- A call saves the snapshot of the running frame. -/
theorem snapshot_call :
    (frame.call index).snapshot (callers ++ [frame.snapshot callers]) =
      (frame.snapshot callers).enter index := by
  have hrecords : (frame.call index).records = ((frame.snapshot callers).enter index).slots := by
    refine SlotMap.ext_get? fun query ↦ ?_
    rw [get?_records, call, Snapshot.enter]
    simp only [SlotMap.get?_insert, SlotMap.get?_insertAll, SlotMap.get?_empty, value?_snapshot,
      apply_ite (Option.map Cell.record)]
    rfl
  have hwriters : (frame.call index).writers =
      ((frame.snapshot callers).enter index).writers := by
    refine SlotMap.ext_get? fun query ↦ ?_
    rw [get?_writers, cell_call, Snapshot.enter]
    simp only [SlotMap.get?_insertAll, Snapshot.get?_foldl_passWriter, SlotMap.get?_empty,
      Option.or_none]
    by_cases hpointer : query = Slot.framePointer
    · have houtside : query ∉ Slot.returnValue :: Slot.calleeSaved ∧ query ∉ Slot.arguments := by
        rw [hpointer]
        decide
      rw [if_pos hpointer, if_neg houtside.1, if_neg houtside.2]
    · rw [if_neg hpointer, apply_ite Cell.writer, apply_ite Cell.writer, ← get?_writers]
      rfl
  rw [snapshot, hrecords, hwriters, List.length_append]
  rfl

/-- An exit gives the result to the frame that it goes on from. -/
theorem snapshot_resume {state : Snapshot}
    (hparent : state.parent = frame.clearEffects.snapshot callers) :
    (frame.resume index (state.value? Slot.returnValue)).snapshot callers = state.leave index := by
  have hslots : state.parent.slots = frame.clearEffects.records := by
    rw [hparent]
    rfl
  have hparentWriters : state.parent.writers = frame.clearEffects.writers := by
    rw [hparent]
    rfl
  have hrecords : (frame.resume index (state.value? Slot.returnValue)).records =
      (state.leave index).slots := by
    refine SlotMap.ext_get? fun query ↦ ?_
    rw [get?_records, resume, Snapshot.leave, hslots]
    simp only [SlotMap.get?_insert, SlotMap.get?_insertAll, get?_records,
      apply_ite (Option.map Cell.record)]
    rfl
  have hwriters : (frame.resume index (state.value? Slot.returnValue)).writers =
      (state.leave index).writers := by
    refine SlotMap.ext_get? fun query ↦ ?_
    rw [get?_writers, cell_resume, Snapshot.leave, hparentWriters]
    simp only [SlotMap.get?_insert, SlotMap.get?_insertAll, get?_writers, cell_clearEffects,
      apply_ite Cell.writer]
  rw [snapshot, hrecords, hwriters, Snapshot.leave, hparent]
  rfl

end Squares

end Frame

namespace Machine

/-- The snapshots that are saved of some waiting frames, the outermost first. -/
def saved : List Frame → List Snapshot
  | [] => []
  | frame :: callers => saved callers ++ [frame.snapshot (saved callers)]

/-- A machine written out with everything that is saved in it. -/
def snapshot (machine : Machine) : Snapshot :=
  machine.frame.snapshot (saved machine.callers)

theorem length_saved (frames : List Frame) : (saved frames).length = frames.length := by
  induction frames with
  | nil => rfl
  | cons frame callers ih =>
    rw [saved, List.length_append, ih]
    rfl

theorem depth_snapshot (machine : Machine) : machine.snapshot.depth = machine.depth :=
  length_saved machine.callers

/-- The running frame of a snapshot goes on from the caller saved last. -/
theorem parent_snapshot_cons (frame caller : Frame) (callers : List Frame) :
    (snapshot ⟨frame, caller :: callers⟩).parent =
      caller.clearEffects.snapshot (saved callers) := by
  have hlast : (snapshot ⟨frame, caller :: callers⟩).callers.getLast? =
      some (caller.snapshot (saved callers)) := List.getLast?_concat
  rw [Snapshot.parent, hlast, Frame.snapshot_clearEffects]

/-- Without a caller an exit goes on from the initial snapshot, in which nothing was touched. -/
theorem parent_snapshot_nil (frame : Frame) :
    (snapshot ⟨frame, []⟩).parent = Frame.initial.clearEffects.snapshot [] := by
  rw [Frame.snapshot_clearEffects, Frame.snapshot_initial]
  rfl

/-- Every move of a machine is the same move of its snapshot. -/
theorem Transition.snapshot {machine next : Machine} {index : Nat} {instruction : Instruction}
    (hnext : Transition machine index instruction next) :
    next.snapshot = machine.snapshot.transfer index instruction := by
  obtain ⟨frame, callers⟩ := machine
  cases hnext with
  | stay hcall hexit =>
    rw [Snapshot.transfer_of_stay _ index hcall hexit]
    exact frame.snapshot_run (saved callers) index instruction
  | enter hcall =>
    rw [Snapshot.transfer_of_call _ index hcall]
    exact frame.snapshot_call (saved callers) index
  | @leave hexit caller waiting hcallers =>
    obtain rfl : callers = caller :: waiting := hcallers
    rw [Snapshot.transfer_of_exit _ index hexit, ← frame.value?_snapshot (saved _)]
    exact caller.snapshot_resume (saved waiting) index (parent_snapshot_cons frame caller waiting)
  | restart hexit hcallers =>
    obtain rfl : callers = [] := hcallers
    rw [Snapshot.transfer_of_exit _ index hexit, ← frame.value?_snapshot (saved _)]
    exact Frame.snapshot_resume Frame.initial [] index (parent_snapshot_nil frame)

/-- An instruction and its facts do the same to a machine and to its snapshot. -/
theorem snapshot_advance (machine : Machine) (index : Nat) (instruction : Instruction)
    (facts : List Fact) :
    (machine.advance index instruction facts).snapshot =
      machine.snapshot.advance index instruction facts := by
  rw [Snapshot.advance, ← (machine.transition_transfer index instruction).snapshot, advance, learn]
  have hdepth : ((machine.transfer index instruction).locate index instruction.pc).depth =
      (saved (machine.transfer index instruction).callers).length := (length_saved _).symm
  rw [hdepth]
  exact Frame.snapshot_learn _ _ index facts

theorem snapshot_next? (machine : Machine) (index : Nat) (line : Line) :
    (machine.next? index line).map snapshot = machine.snapshot.next? index line := by
  unfold next? Snapshot.next?
  cases line.content with
  | instruction instruction facts =>
    exact congrArg some (machine.snapshot_advance index instruction facts)
  | sourceComment text => rfl
  | unrecognized error => rfl

theorem snapshot_follow (machine : Machine) (lines : List (Nat × Line)) :
    (machine.follow lines).snapshot = machine.snapshot.follow lines := by
  refine (List.foldl_hom snapshot fun machine line ↦ ?_).symm
  rw [read, ← snapshot_next?, Option.getD_map]

end Machine

/-- The snapshots that lines lead to are those of machines. -/
theorem Snapshot.follow_initial (lines : List (Nat × Line)) :
    initial.follow lines = (Machine.initial.follow lines).snapshot := by
  rw [Machine.snapshot_follow]
  exact congrArg (Snapshot.follow · lines) Frame.snapshot_initial.symm

end VerifierTrace
