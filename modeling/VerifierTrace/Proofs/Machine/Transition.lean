import VerifierTrace.Machine.Basic

/-!
# What one instruction does to a machine

`Transition` lists the four ways in which an instruction moves between frames: it stays in the
running frame, enters a subprogram, leaves one for its caller, or ends the program and restarts it.
`transition_transfer` says that `Machine.transfer` takes one of them, so a proof about the machine
splits into these four cases and never unfolds the transfer.

The frames are described slot by slot. `cell_run`, `cell_call` and `cell_resume` give the cell of
every slot after a step, and `cell_learn` says that the facts of a line act on each slot through
those among them that name it. From them follows how a line leaves its trace in the last writers: a
cell is `Stamped` when its writer is the line if the line wrote the slot, and otherwise what was
carried over. Every step stamps every cell (`stamped_advance`) with what `Machine.carried` names.
-/

set_option autoImplicit false
set_option relaxedAutoImplicit false

namespace VerifierTrace

/-! ### The cells of a frame -/

namespace Frame

/-- Changing distinct slots changes the cell of each of them once. -/
theorem cell_changeAll (frame : Frame) {slots : List Slot} (hslots : slots.Pairwise (· < ·))
    (query : Slot) (update : Cell → Cell) :
    (frame.changeAll slots update).cell query =
      if query ∈ slots then update (frame.cell query) else frame.cell query := by
  induction slots generalizing frame with
  | nil => rfl
  | cons slot slots ih =>
    have ⟨hfirst, hrest⟩ := List.pairwise_cons.1 hslots
    have hstep : frame.changeAll (slot :: slots) update =
        (frame.change slot update).changeAll slots update := rfl
    rw [hstep, ih (frame.change slot update) hrest, cell_change]
    by_cases hquery : query = slot
    · subst hquery
      have houtside : query ∉ slots := fun hmem ↦ Slot.lt_irrefl query (hfirst query hmem)
      simp [houtside]
    · simp [hquery]

theorem tracks_changeAll (frame : Frame) (slots : List Slot) (query : Slot)
    (update : Cell → Cell) :
    (frame.changeAll slots update).tracks query =
      (decide (query ∈ slots) || frame.tracks query) := by
  induction slots generalizing frame with
  | nil => simp [changeAll]
  | cons slot slots ih =>
    have hstep : frame.changeAll (slot :: slots) update =
        (frame.change slot update).changeAll slots update := rfl
    rw [hstep, ih (frame.change slot update), tracks_change]
    by_cases hquery : query = slot
    · simp [hquery]
    · simp [hquery, beq_eq_false_iff_ne.2 hquery]

/-- A step inside a function forgets the old effects, marks what the instruction reads, and then
overwrites what it writes. -/
theorem cell_run (frame : Frame) (index : Nat) (instruction : Instruction) (query : Slot) :
    (frame.run index instruction).cell query =
      let cleared : Cell := { frame.cell query with effect := .none }
      let used := if query ∈ instruction.reads then cleared.markRead else cleared
      if query ∈ instruction.writes then used.overwrite index else used := by
  rw [run, cell_changeAll _ instruction.pairwise_writes,
    cell_changeAll _ instruction.pairwise_reads, cell_clearEffects]

/-- The cells of a subprogram that was just called. -/
theorem cell_call (caller : Frame) (index : Nat) (query : Slot) :
    (caller.call index).cell query =
      if query = Slot.framePointer then ⟨some framePointerValue, .none, none⟩
      else if query ∈ Slot.returnValue :: Slot.calleeSaved then ⟨none, .write, some index⟩
      else if query ∈ Slot.arguments then
        ⟨(caller.cell query).value, .read, (caller.cell query).writer⟩
      else .blank := by
  simp only [cell, call, SlotMap.get?_insert, SlotMap.get?_insertAll, SlotMap.get?_empty]
  split
  · rfl
  · split
    · rfl
    · split <;> rfl

/-- The cells of a caller after its subprogram has returned. -/
theorem cell_resume (caller : Frame) (index : Nat) (result : Option String) (query : Slot) :
    (caller.resume index result).cell query =
      if query ∈ Slot.arguments then ⟨none, .write, some index⟩
      else if query = Slot.returnValue then ⟨result, .write, some index⟩
      else { caller.cell query with effect := .none } := by
  have hcleared := cell_clearEffects caller query
  simp only [cell] at hcleared
  simp only [cell, resume, SlotMap.get?_insert, SlotMap.get?_insertAll]
  split
  · rfl
  · split
    · rfl
    · exact hcleared

theorem tracks_resume (caller : Frame) (index : Nat) (result : Option String) (query : Slot) :
    (caller.resume index result).tracks query =
      (decide (query ∈ Slot.arguments) || query == Slot.returnValue || caller.tracks query) := by
  have hcleared := tracks_clearEffects caller query
  simp only [tracks] at hcleared
  simp only [tracks, resume, SlotMap.get?_insert, SlotMap.get?_insertAll]
  split
  · simp [*]
  · split <;> simp [*]

/-- The facts of a line act on a slot through those among them that name it. -/
theorem cell_learn (frame : Frame) (index : Nat) (facts : List Fact) (query : Slot) :
    (frame.learn index facts).cell query =
      (facts.filter (·.slot = query)).foldl (fun cell fact ↦ cell.learn index fact)
        (frame.cell query) := by
  induction facts generalizing frame with
  | nil => rfl
  | cons fact facts ih =>
    have hstep : frame.learn index (fact :: facts) =
        (frame.change fact.slot (Cell.learn index fact)).learn index facts := rfl
    rw [hstep, ih, cell_change]
    by_cases hslot : fact.slot = query
    · simp [hslot]
    · simp [hslot, Ne.symm hslot]

theorem tracks_learn (frame : Frame) (index : Nat) (facts : List Fact) (query : Slot) :
    (frame.learn index facts).tracks query =
      (facts.any (·.slot = query) || frame.tracks query) := by
  induction facts generalizing frame with
  | nil => simp [learn]
  | cons fact facts ih =>
    have hstep : frame.learn index (fact :: facts) =
        (frame.change fact.slot (Cell.learn index fact)).learn index facts := rfl
    rw [hstep, ih, tracks_change]
    by_cases hslot : fact.slot = query
    · simp [hslot]
    · simp [hslot, beq_eq_false_iff_ne.2 (Ne.symm hslot)]

/-- Facts about other slots leave the cell of a slot as it is. -/
theorem cell_learn_of_forall_ne (frame : Frame) (index : Nat) {facts : List Fact} {query : Slot}
    (hfacts : ∀ fact ∈ facts, fact.slot ≠ query) :
    (frame.learn index facts).cell query = frame.cell query := by
  have hnone : facts.filter (·.slot = query) = [] :=
    List.filter_eq_nil_iff.2 fun fact hmem ↦ by simpa using hfacts fact hmem
  rw [cell_learn, hnone]
  rfl

theorem tracks_learn_of_forall_ne (frame : Frame) (index : Nat) {facts : List Fact}
    {query : Slot} (hfacts : ∀ fact ∈ facts, fact.slot ≠ query) :
    (frame.learn index facts).tracks query = frame.tracks query := by
  have hnone : facts.any (·.slot = query) = false :=
    List.any_eq_false.2 fun fact hmem ↦ by simpa using hfacts fact hmem
  rw [tracks_learn, hnone, Bool.false_or]

end Frame

/-! ### Writers -/

namespace Cell

/-- The writer of a cell after a line: the line itself if it wrote the slot, and otherwise the
writer that was carried over. -/
def Stamped (index : Nat) (carried : Option Nat) (cell : Cell) : Prop :=
  cell.writer = if cell.effect.isWrite then some index else carried

variable {index : Nat} {carried : Option Nat} {cell : Cell}

theorem stamped_clear (cell : Cell) : Stamped index cell.writer { cell with effect := .none } :=
  rfl

theorem Stamped.markRead (hcell : Stamped index carried cell) :
    Stamped index carried cell.markRead :=
  hcell

theorem stamped_overwrite (index : Nat) (carried : Option Nat) (cell : Cell) :
    Stamped index carried (cell.overwrite index) :=
  rfl

theorem Stamped.learn (hcell : Stamped index carried cell) (fact : Fact) :
    Stamped index carried (cell.learn index fact) := by
  unfold Cell.learn
  split
  · rfl
  · exact hcell

theorem Stamped.foldl_learn (hcell : Stamped index carried cell) (facts : List Fact) :
    Stamped index carried (facts.foldl (fun cell fact ↦ cell.learn index fact) cell) := by
  induction facts generalizing cell with
  | nil => exact hcell
  | cons fact facts ih => exact ih (hcell.learn fact)

end Cell

namespace Frame

/-- A frame is stamped when each of its cells is, with the writer carried over for its slot. -/
def Stamped (index : Nat) (carried : Slot → Option Nat) (frame : Frame) : Prop :=
  ∀ slot, (frame.cell slot).Stamped index (carried slot)

variable {index : Nat} {carried : Slot → Option Nat} {frame : Frame}

theorem stamped_run (frame : Frame) (index : Nat) (instruction : Instruction) :
    Stamped index (fun slot ↦ (frame.cell slot).writer) (frame.run index instruction) := by
  intro slot
  rw [cell_run]
  by_cases hwrite : slot ∈ instruction.writes
  · simpa only [if_pos hwrite] using Cell.stamped_overwrite index _ _
  · simp only [if_neg hwrite]
    by_cases hread : slot ∈ instruction.reads
    · simpa only [if_pos hread] using (Cell.stamped_clear (frame.cell slot)).markRead
    · simpa only [if_neg hread] using Cell.stamped_clear (frame.cell slot)

/-- The writers that a subprogram takes over from its caller: those of its arguments. -/
def argumentWriter (caller : Frame) (slot : Slot) : Option Nat :=
  if slot ∈ Slot.arguments then (caller.cell slot).writer else none

theorem stamped_call (caller : Frame) (index : Nat) :
    Stamped index caller.argumentWriter (caller.call index) := by
  intro slot
  rw [cell_call, argumentWriter]
  by_cases hpointer : slot = Slot.framePointer
  · have houtside : slot ∉ Slot.arguments := by
      rw [hpointer]
      decide
    rw [if_pos hpointer, if_neg houtside]
    rfl
  · rw [if_neg hpointer]
    by_cases hunknown : slot ∈ Slot.returnValue :: Slot.calleeSaved
    · rw [if_pos hunknown]
      rfl
    · rw [if_neg hunknown]
      by_cases hargument : slot ∈ Slot.arguments
      · rw [if_pos hargument, if_pos hargument]
        rfl
      · rw [if_neg hargument, if_neg hargument]
        rfl

theorem stamped_resume (caller : Frame) (index : Nat) (result : Option String) :
    Stamped index (fun slot ↦ (caller.cell slot).writer) (caller.resume index result) := by
  intro slot
  rw [cell_resume]
  by_cases hargument : slot ∈ Slot.arguments
  · rw [if_pos hargument]
    rfl
  · rw [if_neg hargument]
    by_cases hresult : slot = Slot.returnValue
    · rw [if_pos hresult]
      rfl
    · rw [if_neg hresult]
      exact Cell.stamped_clear (caller.cell slot)

theorem Stamped.learn (hframe : frame.Stamped index carried) (facts : List Fact) :
    (frame.learn index facts).Stamped index carried := by
  intro slot
  rw [cell_learn]
  exact (hframe slot).foldl_learn _

/-- Nothing is written before the first instruction. -/
theorem writer_cell_initial (slot : Slot) : (initial.cell slot).writer = none := by
  simp only [cell, initial, SlotMap.get?_insert, SlotMap.get?_empty]
  split
  · rfl
  · split <;> rfl

end Frame

/-! ### The four ways to move -/

namespace Machine

/-- The moves of an instruction at a line from a machine to another. -/
inductive Transition (machine : Machine) (index : Nat) (instruction : Instruction) :
    Machine → Prop
  /-- The instruction belongs to the running function. -/
  | stay (hcall : instruction.isSubprogramCall = false) (hexit : instruction.isExit = false) :
      Transition machine index instruction
        ⟨machine.frame.run index instruction, machine.callers⟩
  /-- A subprogram is called. -/
  | enter (hcall : instruction.isSubprogramCall = true) :
      Transition machine index instruction
        ⟨machine.frame.call index, machine.frame :: machine.callers⟩
  /-- A subprogram returns to its caller. -/
  | leave (hexit : instruction.isExit = true) {caller : Frame} {callers : List Frame}
      (hcallers : machine.callers = caller :: callers) :
      Transition machine index instruction
        ⟨caller.resume index (machine.frame.cell Slot.returnValue).value, callers⟩
  /-- The program ends, and what follows begins in a fresh one. -/
  | restart (hexit : instruction.isExit = true) (hcallers : machine.callers = []) :
      Transition machine index instruction
        ⟨Frame.initial.resume index (machine.frame.cell Slot.returnValue).value, []⟩

variable (machine : Machine) (index : Nat) (instruction : Instruction) (facts : List Fact)

/-- A line leads on exactly when it is an instruction. -/
theorem next?_eq_map (line : Line) :
    machine.next? index line = line.instruction?.map (machine.advance index · line.facts) := by
  obtain ⟨raw, content⟩ := line
  cases content with
  | instruction instruction facts => rfl
  | sourceComment text => rfl
  | unrecognized error => rfl

theorem transition_transfer :
    Transition machine index instruction (machine.transfer index instruction) := by
  unfold transfer
  split
  next hkind => exact .enter (by simp [Instruction.isSubprogramCall, hkind])
  next hkind =>
    have hexit : instruction.isExit = true := by simp [Instruction.isExit, hkind]
    cases hcallers : machine.callers with
    | nil => exact .restart hexit hcallers
    | cons caller callers => exact .leave hexit hcallers
  next hcall hexit =>
    refine .stay ?_ ?_
    · simpa [Instruction.isSubprogramCall] using hcall
    · simpa [Instruction.isExit] using hexit

@[simp]
theorem callers_advance :
    (machine.advance index instruction facts).callers =
      (machine.transfer index instruction).callers := rfl

@[simp]
theorem depth_advance :
    (machine.advance index instruction facts).depth =
      (machine.transfer index instruction).depth := rfl

@[simp]
theorem line_advance :
    (machine.advance index instruction facts).frame.line = some index := by
  suffices ∀ (facts : List Fact) (frame : Frame), (frame.learn index facts).line = frame.line from
    this _ _
  intro facts
  induction facts with
  | nil => exact fun frame ↦ rfl
  | cons fact facts ih => exact fun frame ↦ ih (frame.change fact.slot (Cell.learn index fact))

/-- The running frame and the frames of its callers, from the innermost outwards. -/
def frames (machine : Machine) : List Frame :=
  machine.frame :: machine.callers

/-- Only frames that were there before an instruction wait after it, in the order in which they
were. -/
theorem Transition.callers_suffix {machine next : Machine} {index : Nat}
    {instruction : Instruction} (hnext : Transition machine index instruction next) :
    next.callers <:+ machine.frames := by
  cases hnext with
  | stay hcall hexit => exact List.suffix_cons _ _
  | enter hcall => exact List.suffix_rfl
  | leave hexit hcallers =>
    rw [frames, hcallers]
    exact (List.suffix_cons _ _).trans (List.suffix_cons _ _)
  | restart hexit hcallers => exact List.nil_suffix

/-- The writers that the frame running after an instruction has, unless the line wrote the slot:
those of the frame before it, of the caller for its arguments, or of the frame returned to. -/
def carried (slot : Slot) : Option Nat :=
  if instruction.isSubprogramCall then machine.frame.argumentWriter slot
  else if instruction.isExit then machine.callers.head?.bind fun caller ↦ (caller.cell slot).writer
  else (machine.frame.cell slot).writer

/-- A writer that is carried over stood in one of the frames. -/
theorem exists_mem_frames_of_carried {machine : Machine} {instruction : Instruction}
    {slot : Slot} {writer : Nat} (hcarried : machine.carried instruction slot = some writer) :
    ∃ frame ∈ machine.frames, (frame.cell slot).writer = some writer := by
  unfold carried at hcarried
  split at hcarried
  · unfold Frame.argumentWriter at hcarried
    split at hcarried
    · exact ⟨machine.frame, List.mem_cons_self, hcarried⟩
    · cases hcarried
  · split at hcarried
    · obtain ⟨caller, hcaller, hwriter⟩ := Option.bind_eq_some_iff.mp hcarried
      exact ⟨caller, List.mem_cons_of_mem _ (List.mem_of_mem_head? hcaller), hwriter⟩
    · exact ⟨machine.frame, List.mem_cons_self, hcarried⟩

/-- No instruction is both a subprogram call and an exit. -/
theorem isSubprogramCall_eq_false_of_isExit {instruction : Instruction}
    (hexit : instruction.isExit = true) : instruction.isSubprogramCall = false := by
  have hkind : instruction.jumpKind? = some .exit := by
    simpa [Instruction.isExit] using hexit
  simp [Instruction.isSubprogramCall, hkind]

variable {machine index instruction}

/-- Every move stamps every cell of the running frame. -/
theorem Transition.stamped {next : Machine} (hnext : Transition machine index instruction next) :
    next.frame.Stamped index (machine.carried instruction) := by
  cases hnext with
  | stay hcall hexit =>
    have hcarried : machine.carried instruction = fun slot ↦ (machine.frame.cell slot).writer := by
      funext slot
      simp [carried, hcall, hexit]
    rw [hcarried]
    exact Frame.stamped_run _ _ _
  | enter hcall =>
    have hcarried : machine.carried instruction = machine.frame.argumentWriter := by
      funext slot
      simp [carried, hcall]
    rw [hcarried]
    exact Frame.stamped_call _ _
  | @leave hexit caller callers hcallers =>
    have hcarried : machine.carried instruction = fun slot ↦ (caller.cell slot).writer := by
      funext slot
      simp [carried, hexit, isSubprogramCall_eq_false_of_isExit hexit, hcallers]
    rw [hcarried]
    exact Frame.stamped_resume _ _ _
  | restart hexit hcallers =>
    have hcarried : machine.carried instruction =
        fun slot ↦ (Frame.initial.cell slot).writer := by
      funext slot
      simp [carried, hexit, isSubprogramCall_eq_false_of_isExit hexit, hcallers,
        Frame.writer_cell_initial]
    rw [hcarried]
    exact Frame.stamped_resume _ _ _

/-- After a line, the writer of every slot is the line if it wrote the slot, and otherwise what was
carried over. -/
theorem stamped_advance (machine : Machine) (index : Nat) (instruction : Instruction)
    (facts : List Fact) :
    (machine.advance index instruction facts).frame.Stamped index
      (machine.carried instruction) := by
  have hmoved : (machine.transfer index instruction).frame.Stamped index
      (machine.carried instruction) :=
    (machine.transition_transfer index instruction).stamped
  have hlocated : ((machine.transfer index instruction).locate index instruction.pc).frame.Stamped
      index (machine.carried instruction) := hmoved
  exact hlocated.learn _

end Machine

end VerifierTrace
