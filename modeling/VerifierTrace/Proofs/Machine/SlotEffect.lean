import VerifierTrace.Proofs.Machine.Transition

/-!
# What a line does to each slot

An instruction that is no exit touches the slots of its frame in three rounds: it marks what it
reads, overwrites what it writes, and then takes over the facts of the line that are about the
running frame. For a single slot the three rounds come to one rule, in which neither the effects of
earlier lines nor the order of the facts about other slots has a part.

`Machine.inherited` is what the running frame has of a slot before the instruction touches it. It is
the one thing in which a subprogram call differs from other instructions: `Transition.cell_eq_touch`
says that on both ways the instruction does the same to what is inherited (`Cell.touch`), and
`Cell.foldl_learn_eq` that of several facts on a slot the last one gives the value, while the slot
counts as written when any of them says so. `pointwise_advance` is the rule, with the answer to
which slots are tracked.
-/

set_option autoImplicit false
set_option relaxedAutoImplicit false

namespace VerifierTrace

namespace Instruction

/-- Some facts, which are those on the running frame, tell that a slot is written, or the
instruction of their line writes it. -/
def WritesWith (instruction : Instruction) (facts : List Fact) (slot : Slot) : Prop :=
  slot ∈ instruction.writes ∨ ∃ fact ∈ facts, fact.slot = slot ∧ fact.written = true

instance (instruction : Instruction) (facts : List Fact) (slot : Slot) :
    Decidable (instruction.WritesWith facts slot) :=
  inferInstanceAs (Decidable (_ ∨ _))

/-- A subprogram call reads the arguments and writes what its caller finds changed or again. -/
theorem reads_writes_of_isSubprogramCall {instruction : Instruction}
    (hcall : instruction.isSubprogramCall = true) :
    instruction.reads = Slot.arguments ∧
      instruction.writes = Slot.returnValue :: Slot.calleeSaved := by
  obtain ⟨pc, opcode, operation, span⟩ := instruction
  cases operation with
  | assignment assignment => exact absurd hcall Bool.false_ne_true
  | jump jump =>
    have hkind : jump.kind = .subprogramCall := by
      simpa [isSubprogramCall, jumpKind?, jump?] using hcall
    simp only [reads, writes, Jump.reads, Jump.writes, hkind, and_self]

end Instruction

/-! ### One cell -/

namespace Cell

/-- What an instruction at a line leaves of a cell that it reads, or writes, or both, or neither. -/
def touch (index : Nat) (isRead isWrite : Bool) (cell : Cell) : Cell :=
  ⟨if isWrite then none else cell.value, ⟨isRead, isWrite⟩,
    if isWrite then some index else cell.writer⟩

/-- Of several facts on a slot the last one gives the value, and the line writes the slot when any
of them says so. -/
theorem foldl_learn_eq (index : Nat) (facts : List Fact) (cell : Cell) :
    facts.foldl (fun cell fact ↦ cell.learn index fact) cell =
      ⟨(facts.getLast?.map Fact.value).or cell.value,
        ⟨cell.effect.isRead, cell.effect.isWrite || facts.any Fact.written⟩,
        if facts.any Fact.written then some index else cell.writer⟩ := by
  induction facts generalizing cell with
  | nil => simp
  | cons fact facts ih =>
    have hvalue : (cell.learn index fact).value = some fact.value := by
      unfold learn
      split <;> rfl
    have hlast : ((fact :: facts).getLast?.map Fact.value).or cell.value =
        (facts.getLast?.map Fact.value).or (some fact.value) := by
      rw [List.getLast?_cons]
      cases facts.getLast? <;> rfl
    rw [List.foldl_cons, ih, hvalue, hlast, List.any_cons]
    cases hwritten : fact.written with
    | true => simp [learn, hwritten, Effect.withWrite]
    | false => simp [learn, hwritten]

end Cell

/-! ### The cells that an instruction finds -/

/-- What a subprogram finds in a slot: the arguments of its caller, the frame pointer, and nothing
else. -/
def Frame.passed (caller : Frame) (slot : Slot) : Cell :=
  if slot ∈ Slot.arguments then caller.cell slot
  else if slot = Slot.framePointer then ⟨some framePointerValue, .none, none⟩
  else .blank

/-- What the running frame has of a slot before the instruction touches it. -/
def Machine.inherited (machine : Machine) (instruction : Instruction) (slot : Slot) : Cell :=
  if instruction.isSubprogramCall then machine.frame.passed slot else machine.frame.cell slot

namespace Frame

theorem cell_run_eq_touch (frame : Frame) (index : Nat) (instruction : Instruction) (slot : Slot) :
    (frame.run index instruction).cell slot =
      (frame.cell slot).touch index (decide (slot ∈ instruction.reads))
        (decide (slot ∈ instruction.writes)) := by
  rw [cell_run]
  by_cases hread : slot ∈ instruction.reads
  · by_cases hwrite : slot ∈ instruction.writes
    · simp [hread, hwrite, Cell.touch, Cell.markRead, Cell.overwrite, Effect.withRead,
        Effect.withWrite, Effect.none]
    · simp [hread, hwrite, Cell.touch, Cell.markRead, Effect.withRead, Effect.none]
  · by_cases hwrite : slot ∈ instruction.writes
    · simp [hread, hwrite, Cell.touch, Cell.overwrite, Effect.withWrite, Effect.none]
    · simp [hread, hwrite, Cell.touch, Effect.none]

/-- A call marks the registers that it lists by hand just as it would mark its own reads and writes
on what it passes. -/
theorem cell_call_eq_touch (caller : Frame) (index : Nat) (slot : Slot) :
    (caller.call index).cell slot =
      (caller.passed slot).touch index (decide (slot ∈ Slot.arguments))
        (decide (slot ∈ Slot.returnValue :: Slot.calleeSaved)) := by
  rw [cell_call, passed]
  by_cases hpointer : slot = Slot.framePointer
  · have houtside : slot ∉ Slot.arguments ∧ slot ∉ Slot.returnValue :: Slot.calleeSaved := by
      rw [hpointer]
      decide
    simp only [hpointer, if_true, Cell.touch] at houtside ⊢
    simp only [if_neg houtside.1, decide_eq_false houtside.1, decide_eq_false houtside.2]
    rfl
  · rw [if_neg hpointer, if_neg hpointer]
    by_cases hargument : slot ∈ Slot.arguments
    · have hkept : slot ∉ Slot.returnValue :: Slot.calleeSaved :=
        (by decide : ∀ slot ∈ Slot.arguments, slot ∉ Slot.returnValue :: Slot.calleeSaved)
          slot hargument
      simp only [if_neg hkept, if_pos hargument, Cell.touch, decide_eq_true hargument,
        decide_eq_false hkept]
      rfl
    · by_cases hkept : slot ∈ Slot.returnValue :: Slot.calleeSaved
      · simp only [if_pos hkept, if_neg hargument, Cell.touch, decide_eq_false hargument,
          decide_eq_true hkept]
        rfl
      · simp only [if_neg hkept, if_neg hargument, Cell.touch, decide_eq_false hargument,
          decide_eq_false hkept]
        rfl

theorem tracks_run (frame : Frame) (index : Nat) (instruction : Instruction) (slot : Slot) :
    (frame.run index instruction).tracks slot = true ↔
      frame.tracks slot = true ∨ slot ∈ instruction.reads ∨ slot ∈ instruction.writes := by
  rw [run, tracks_changeAll, tracks_changeAll, tracks_clearEffects]
  simp only [Bool.or_eq_true, decide_eq_true_eq]
  rw [or_comm, or_comm (a := slot ∈ instruction.reads), or_assoc]

theorem tracks_call (caller : Frame) (index : Nat) (slot : Slot) :
    (caller.call index).tracks slot = true ↔ slot = Slot.framePointer ∨
      slot ∈ Slot.arguments ∨ slot ∈ Slot.returnValue :: Slot.calleeSaved := by
  simp only [tracks, call, SlotMap.get?_insert, SlotMap.get?_insertAll, SlotMap.get?_empty]
  split
  · simp [*]
  · split
    · simp [*]
    · split <;> simp [*]

end Frame

namespace Machine

variable {machine next : Machine} {index : Nat} {instruction : Instruction}

/-- On every way but an exit an instruction does the same to what it finds. -/
theorem Transition.cell_eq_touch (hnext : Transition machine index instruction next)
    (hexit : instruction.isExit = false) (slot : Slot) :
    next.frame.cell slot =
      (machine.inherited instruction slot).touch index (decide (slot ∈ instruction.reads))
        (decide (slot ∈ instruction.writes)) := by
  cases hnext with
  | stay hcall _ =>
    rw [inherited, hcall]
    exact machine.frame.cell_run_eq_touch index instruction slot
  | enter hcall =>
    obtain ⟨hreads, hwrites⟩ := Instruction.reads_writes_of_isSubprogramCall hcall
    rw [inherited, if_pos hcall, hreads, hwrites]
    exact machine.frame.cell_call_eq_touch index slot
  | leave hleaves => exact absurd (hexit.symm.trans hleaves) Bool.false_ne_true
  | restart hleaves => exact absurd (hexit.symm.trans hleaves) Bool.false_ne_true

/-- The slots that are tracked before the instruction touches any: those of the running frame, or in
a new one the frame pointer alone. -/
def Keeps (machine : Machine) (instruction : Instruction) (slot : Slot) : Prop :=
  if instruction.isSubprogramCall then slot = Slot.framePointer
  else machine.frame.tracks slot = true

instance (machine : Machine) (instruction : Instruction) (slot : Slot) :
    Decidable (machine.Keeps instruction slot) :=
  inferInstanceAs (Decidable (if instruction.isSubprogramCall then slot = Slot.framePointer
    else machine.frame.tracks slot = true))

theorem Transition.tracks_iff (hnext : Transition machine index instruction next)
    (hexit : instruction.isExit = false) (slot : Slot) :
    next.frame.tracks slot = true ↔ machine.Keeps instruction slot ∨
      slot ∈ instruction.reads ∨ slot ∈ instruction.writes := by
  cases hnext with
  | stay hcall _ =>
    rw [Keeps, hcall]
    exact machine.frame.tracks_run index instruction slot
  | enter hcall =>
    obtain ⟨hreads, hwrites⟩ := Instruction.reads_writes_of_isSubprogramCall hcall
    rw [Keeps, if_pos hcall, hreads, hwrites]
    exact machine.frame.tracks_call index slot
  | leave hleaves => exact absurd (hexit.symm.trans hleaves) Bool.false_ne_true
  | restart hleaves => exact absurd (hexit.symm.trans hleaves) Bool.false_ne_true

/-! ### The rule for a line -/

/-- What a line at an index has made of one slot in the frame that runs after its instruction. The
facts are those about that frame. -/
structure Touched (machine : Machine) (index : Nat) (instruction : Instruction)
    (facts : List Fact) (after : Frame) (slot : Slot) : Prop where
  isRead : (after.cell slot).effect.isRead = true ↔ slot ∈ instruction.reads
  isWrite : (after.cell slot).effect.isWrite = true ↔ instruction.WritesWith facts slot
  /-- The last fact on the slot gives its value. Without one the slot keeps what it had, unless the
  instruction writes it. -/
  value : (after.cell slot).value =
    match (facts.filter (·.slot = slot)).getLast? with
    | some fact => some fact.value
    | none =>
      if slot ∈ instruction.writes then none else (machine.inherited instruction slot).value
  writer : (after.cell slot).writer =
    if instruction.WritesWith facts slot then some index
    else (machine.inherited instruction slot).writer
  tracks : after.tracks slot = true ↔ machine.Keeps instruction slot ∨
    slot ∈ instruction.reads ∨ slot ∈ instruction.writes ∨ ∃ fact ∈ facts, fact.slot = slot

/-- Facts are taken over by a frame in which the instruction has touched the slot. -/
theorem touched_learn {frame : Frame} {slot : Slot}
    (hcell : frame.cell slot = (machine.inherited instruction slot).touch index
      (decide (slot ∈ instruction.reads)) (decide (slot ∈ instruction.writes)))
    (htracks : frame.tracks slot = true ↔ machine.Keeps instruction slot ∨
      slot ∈ instruction.reads ∨ slot ∈ instruction.writes) (facts : List Fact) :
    machine.Touched index instruction facts (frame.learn index facts) slot := by
  have hlearned := (frame.cell_learn index facts slot).trans (Cell.foldl_learn_eq index _ _)
  rw [hcell] at hlearned
  have hany : (facts.filter (·.slot = slot)).any Fact.written = true ↔
      ∃ fact ∈ facts, fact.slot = slot ∧ fact.written = true := by
    simp
  refine ⟨?_, ?_, ?_, ?_, ?_⟩
  · rw [hlearned]
    exact decide_eq_true_iff
  · rw [hlearned]
    simp only [Cell.touch, Bool.or_eq_true, decide_eq_true_eq, hany]
    rfl
  · rw [hlearned]
    cases (facts.filter (·.slot = slot)).getLast? with
    | some fact => rfl
    | none => simp [Cell.touch]
  · rw [hlearned]
    by_cases hfact : ∃ fact ∈ facts, fact.slot = slot ∧ fact.written = true
    · simp only [hany.mpr hfact, if_true, Instruction.WritesWith, hfact, or_true]
    · have hnone : (facts.filter (·.slot = slot)).any Fact.written = false := by
        rw [← Bool.not_eq_true, hany]
        exact hfact
      simp only [hnone, Bool.false_eq_true, if_false, Instruction.WritesWith, hfact, or_false,
        Cell.touch, decide_eq_true_eq]
  · rw [Frame.tracks_learn, Bool.or_eq_true, htracks]
    simp only [List.any_eq_true, decide_eq_true_eq]
    rw [or_comm, or_assoc, or_assoc]

/-- A line whose instruction is no exit does the same to every slot: the instruction tells whether
the slot is read, the instruction and the facts on the running frame whether it is written, and what
neither of them touches is inherited. -/
theorem pointwise_advance (machine : Machine) (index : Nat) (instruction : Instruction)
    (facts : List Fact) (hexit : instruction.isExit = false) (slot : Slot) :
    machine.Touched index instruction
      (facts.filter fun fact ↦ fact.depth == (machine.advance index instruction facts).depth)
      (machine.advance index instruction facts).frame slot := by
  have hmoved := machine.transition_transfer index instruction
  -- Noting the program counter and the line does not touch the cells.
  have hlocated : ((machine.transfer index instruction).locate index instruction.pc).frame.cell
      slot = _ := hmoved.cell_eq_touch hexit slot
  exact touched_learn hlocated (hmoved.tracks_iff hexit slot) _

/-- A call in a frame that has an argument, a stack slot and a register that the callee saves. -/
def passingArgument : Machine :=
  ⟨Frame.initial.learn 3 [⟨.register 1, "7", true, 0, ⟨0, 0⟩⟩, ⟨.register 2, "8", true, 0, ⟨0, 0⟩⟩,
    ⟨.stack (-8), "9", true, 0, ⟨0, 0⟩⟩, ⟨.register 6, "10", true, 0, ⟨0, 0⟩⟩], []⟩

/-- Two facts on the first argument of the subprogram, and one on a register of the caller. -/
def factsOnCall : List Fact :=
  [⟨.register 1, "scalar()", true, 1, ⟨0, 0⟩⟩, ⟨.register 6, "11", false, 0, ⟨0, 0⟩⟩,
    ⟨.register 1, "12", false, 1, ⟨0, 0⟩⟩]

/-- A subprogram is called there. -/
def callOfSubprogram : Instruction :=
  ⟨some 4, ⟨0x85⟩, .jump ⟨.subprogramCall, "pc+2", none, none⟩, ⟨0, 0⟩⟩

/-- The argument named twice has the value of the later fact and was written in the line, the other
argument came with its writer, and nothing is known of what the caller saved or kept on its
stack. -/
theorem pointwise_advance_passingArgument :
    let after := (passingArgument.advance 5 callOfSubprogram factsOnCall).frame
    callOfSubprogram.isExit = false ∧
      (after.cell (.register 1)).value = some "12" ∧
      (after.cell (.register 1)).effect.isWrite = true ∧
      (after.cell (.register 2)).value = some "8" ∧
      (after.cell (.register 2)).writer = some 3 ∧
      (after.cell (.register 6)).value = none ∧
      ¬ after.tracks (.stack (-8)) = true := by
  intro after
  have hexit : callOfSubprogram.isExit = false := rfl
  have hrule := passingArgument.pointwise_advance 5 callOfSubprogram factsOnCall hexit
  refine ⟨hexit, (hrule (.register 1)).value, ?_, (hrule (.register 2)).value,
    (hrule (.register 2)).writer, (hrule (.register 6)).value, ?_⟩
  · exact (hrule (.register 1)).isWrite.mpr (by decide)
  · exact mt (hrule (.stack (-8))).tracks.mp (by decide)

end Machine

end VerifierTrace
