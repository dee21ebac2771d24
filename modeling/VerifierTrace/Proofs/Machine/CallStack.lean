import VerifierTrace.Line.Reader
import VerifierTrace.Proofs.Machine.Snapshot

/-!
# The call stack

A snapshot counts its depth, and it holds a copy of its callers in each of its saved callers. After
any lines all of this agrees (`Snapshot.Coherent`), and the depth is the number of calls that the
lines have opened and not closed again (`openCalls`). When the lines come in the order of their
indices, so do the frames on the stack, and no slot was last written after the line that its frame
stands at (`Snapshot.Ordered`). `Snapshot.follow_initial_coherent` puts this together.

That the copies agree is a matter of how a machine is written out, whatever the machine. The order
is an invariant of the run: an instruction puts its own line on top of frames that were there
before, and every writer that it carries over comes from one of those (`Machine.Ordered.advance`).
-/

set_option autoImplicit false
set_option relaxedAutoImplicit false

namespace VerifierTrace

/-- How a line changes the number of open calls: a subprogram call opens one, an exit closes one if
there is any, and every other line leaves it. -/
def Line.countCall (opened : Nat) (line : Line) : Nat :=
  match line.instruction? with
  | none => opened
  | some instruction =>
    if instruction.isSubprogramCall then opened + 1
    else if instruction.isExit then opened - 1
    else opened

/-- The number of calls that are open after some lines. -/
def openCalls (lines : List (Nat × Line)) : Nat :=
  lines.foldl (fun opened line ↦ line.2.countCall opened) 0

namespace Snapshot

/-- The saved callers and the snapshot itself, the outermost first. -/
def stack (state : Snapshot) : List Snapshot :=
  state.callers ++ [state]

/-- What a snapshot says more than once is the same each time. -/
structure Coherent (state : Snapshot) : Prop where
  depth : state.depth = state.callers.length
  /-- A saved caller is at the depth of its place, over the callers saved before it. -/
  saved : ∀ position caller, state.callers[position]? = some caller →
    caller.depth = position ∧ caller.callers = state.callers.take position
  /-- Only slots that are tracked have a last writer. -/
  tracked : ∀ held ∈ state.stack, ∀ slot writer, held.writers.get? slot = some writer →
    (held.slots.get? slot).isSome = true

/-- The lines on the stack increase inwards, from a start before all lines, and nothing was written
after the line of its own frame. -/
structure Ordered (state : Snapshot) : Prop where
  lines : (state.stack.map Snapshot.line).Pairwise (· < ·)
  writers : ∀ held ∈ state.stack, ∀ slot writer, held.writers.get? slot = some writer →
    ∃ line, held.line = some line ∧ writer ≤ line

end Snapshot

namespace Machine

/-! ### The copies -/

theorem stack_snapshot (machine : Machine) : machine.snapshot.stack = saved machine.frames := rfl

theorem mem_saved {frames : List Frame} {held : Snapshot} (hheld : held ∈ saved frames) :
    ∃ frame ∈ frames, ∃ callers, held = frame.snapshot callers := by
  induction frames with
  | nil => cases hheld
  | cons frame callers ih =>
    rcases List.mem_append.mp hheld with hearlier | hlast
    · obtain ⟨outer, houter, hsnapshot⟩ := ih hearlier
      exact ⟨outer, List.mem_cons_of_mem _ houter, hsnapshot⟩
    · exact ⟨frame, List.mem_cons_self, saved callers, List.mem_singleton.mp hlast⟩

theorem map_line_saved (frames : List Frame) :
    (saved frames).map Snapshot.line = (frames.map Frame.line).reverse := by
  induction frames with
  | nil => rfl
  | cons frame callers ih =>
    rw [saved, List.map_append, ih, List.map_singleton, List.map_cons, List.reverse_cons]
    rfl

/-- A saved frame has saved exactly the frames before it. -/
theorem saved_of_getElem? {frames : List Frame} {position : Nat} {held : Snapshot}
    (hheld : (saved frames)[position]? = some held) :
    held.depth = position ∧ held.callers = (saved frames).take position := by
  induction frames with
  | nil => cases hheld
  | cons frame callers ih =>
    rw [saved] at hheld ⊢
    rcases Nat.lt_or_ge position (saved callers).length with hearlier | hlast
    · rw [List.getElem?_append_left hearlier] at hheld
      rw [List.take_append_of_le_length (Nat.le_of_lt hearlier)]
      exact ih hheld
    · rw [List.getElem?_append_right hlast] at hheld
      obtain ⟨hposition, hsame⟩ := List.getElem?_eq_some_iff.mp hheld
      obtain rfl : position = (saved callers).length := by
        rw [List.length_singleton] at hposition
        omega
      obtain rfl : frame.snapshot (saved callers) = held := by simpa using hsame
      rw [List.take_left]
      exact ⟨rfl, rfl⟩

theorem coherent_snapshot (machine : Machine) : machine.snapshot.Coherent where
  depth := rfl
  saved _ _ hcaller := saved_of_getElem? hcaller
  tracked := by
    intro held hheld slot writer hwriter
    rw [stack_snapshot] at hheld
    obtain ⟨frame, -, callers, rfl⟩ := mem_saved hheld
    exact Frame.isSome_get?_records_of_writer hwriter

/-! ### The depth -/

theorem depth_read (machine : Machine) (index : Nat) (line : Line) :
    (machine.read index line).depth = line.countCall machine.depth := by
  unfold Line.countCall
  cases hinstruction : line.instruction? with
  | none => exact congrArg depth (machine.read_of_none index hinstruction)
  | some instruction =>
    rw [read_of_instruction _ _ hinstruction, depth_advance]
    generalize hnext : machine.transfer index instruction = next
    have hmoved := hnext ▸ machine.transition_transfer index instruction
    cases hmoved with
    | stay hcall hexit => simp [hcall, hexit, depth]
    | enter hcall => simp [hcall, depth]
    | leave hexit hcallers =>
      simp [isSubprogramCall_eq_false_of_isExit hexit, hexit, depth, hcallers]
    | restart hexit hcallers =>
      simp [isSubprogramCall_eq_false_of_isExit hexit, hexit, depth, hcallers]

theorem depth_follow (lines : List (Nat × Line)) :
    (initial.follow lines).depth = openCalls lines :=
  (List.foldl_hom depth fun machine line ↦ (machine.depth_read line.1 line.2).symm).symm

/-! ### The order -/

/-- The frames of a machine stand at lines below a bound that increase inwards, and nothing was
written after the line of its own frame. -/
structure Ordered (bound : Nat) (machine : Machine) : Prop where
  lines : machine.frames.Pairwise fun inner outer ↦ outer.line < inner.line
  below : ∀ frame ∈ machine.frames, frame.line < some bound
  writers : ∀ frame ∈ machine.frames, ∀ slot writer, (frame.cell slot).writer = some writer →
    ∃ line, frame.line = some line ∧ writer ≤ line

theorem ordered_initial : initial.Ordered 0 where
  lines := List.pairwise_singleton _ _
  below := by
    intro frame hframe
    obtain rfl : frame = .initial := List.mem_singleton.mp hframe
    trivial
  writers := by
    intro frame hframe slot writer hwriter
    obtain rfl : frame = .initial := List.mem_singleton.mp hframe
    rw [Frame.writer_cell_initial] at hwriter
    cases hwriter

theorem Ordered.mono {bound bound' : Nat} {machine : Machine} (hordered : machine.Ordered bound)
    (hbound : bound ≤ bound') : machine.Ordered bound' where
  lines := hordered.lines
  below := by
    intro frame hframe
    have hline := hordered.below frame hframe
    cases hsome : frame.line with
    | none => trivial
    | some line =>
      rw [hsome] at hline
      exact Nat.lt_of_lt_of_le hline hbound
  writers := hordered.writers

/-- An instruction at a later line puts that line on top of frames that stood there before. -/
theorem Ordered.advance {index : Nat} {machine : Machine} (hordered : machine.Ordered index)
    (instruction : Instruction) (facts : List Fact) :
    (machine.advance index instruction facts).Ordered (index + 1) := by
  have hsuffix := (machine.transition_transfer index instruction).callers_suffix
  have hline := machine.line_advance index instruction facts
  refine ⟨List.pairwise_cons.mpr ⟨?_, ?_⟩, ?_, ?_⟩
  · intro frame hframe
    rw [hline]
    exact hordered.below frame (hsuffix.subset hframe)
  · exact hordered.lines.sublist hsuffix.sublist
  · intro frame hframe
    rcases List.mem_cons.mp hframe with rfl | hwaiting
    · rw [hline]
      exact Nat.lt_succ_self index
    · exact (hordered.mono (Nat.le_succ index)).below frame (hsuffix.subset hwaiting)
  · intro frame hframe slot writer hwriter
    rcases List.mem_cons.mp hframe with rfl | hwaiting
    · refine ⟨index, hline, ?_⟩
      rw [machine.stamped_advance index instruction facts slot] at hwriter
      split at hwriter
      · exact Nat.le_of_eq (Option.some.inj hwriter).symm
      · -- A writer that is carried over is at most the line of an earlier frame.
        obtain ⟨old, hold, hcarried⟩ := exists_mem_frames_of_carried hwriter
        obtain ⟨line, hstands, hle⟩ := hordered.writers old hold slot writer hcarried
        have hbelow := hordered.below old hold
        rw [hstands] at hbelow
        exact Nat.le_of_lt (Nat.lt_of_le_of_lt hle hbelow)
    · exact hordered.writers frame (hsuffix.subset hwaiting) slot writer hwriter

theorem Ordered.read {index : Nat} {machine : Machine} (hordered : machine.Ordered index)
    (line : Line) : (machine.read index line).Ordered (index + 1) := by
  cases hinstruction : line.instruction? with
  | none =>
    rw [read_of_none _ _ hinstruction]
    exact hordered.mono (Nat.le_succ index)
  | some instruction =>
    rw [read_of_instruction _ _ hinstruction]
    exact hordered.advance instruction line.facts

/-- Lines that come in the order of their indices keep a machine in order. -/
theorem Ordered.follow {bound : Nat} {machine : Machine} (hordered : machine.Ordered bound)
    {lines : List (Nat × Line)} (hlines : (lines.map Prod.fst).Pairwise (· < ·))
    (hbound : ∀ line ∈ lines, bound ≤ line.1) : ∃ last, (machine.follow lines).Ordered last := by
  induction lines generalizing machine bound with
  | nil => exact ⟨bound, hordered⟩
  | cons line lines ih =>
    obtain ⟨hfirst, hrest⟩ := List.pairwise_cons.mp hlines
    have hread := (hordered.mono (hbound line List.mem_cons_self)).read line.2
    exact ih hread hrest fun later hlater ↦ hfirst later.1 (List.mem_map_of_mem hlater)

theorem Ordered.snapshot {bound : Nat} {machine : Machine} (hordered : machine.Ordered bound) :
    machine.snapshot.Ordered where
  lines := by
    rw [stack_snapshot, map_line_saved, List.pairwise_reverse, List.pairwise_map]
    exact hordered.lines
  writers := by
    intro held hheld slot writer hwriter
    rw [stack_snapshot] at hheld
    obtain ⟨frame, hframe, callers, rfl⟩ := mem_saved hheld
    exact hordered.writers frame hframe slot writer ((frame.get?_writers slot).symm.trans hwriter)

end Machine

/-- After any lines, each with its index, a snapshot is that of the machine that followed them. Its
depth is the number of its saved callers, which is the number of calls that are open. Each saved
caller is at the depth of its place and has saved the callers before it, and only tracked slots have
a last writer. When the indices increase, so do the lines on the stack, and no last writer comes
after the line of its own frame. -/
theorem Snapshot.follow_initial_coherent (lines : List (Nat × Line)) :
    initial.follow lines = (Machine.initial.follow lines).snapshot ∧
      (initial.follow lines).Coherent ∧
      (initial.follow lines).depth = openCalls lines ∧
      ((lines.map Prod.fst).Pairwise (· < ·) → (initial.follow lines).Ordered) := by
  rw [follow_initial, Machine.depth_snapshot, Machine.depth_follow]
  refine ⟨rfl, Machine.coherent_snapshot _, rfl, fun hlines ↦ ?_⟩
  obtain ⟨_, hordered⟩ := Machine.ordered_initial.follow hlines fun line _ ↦ Nat.zero_le line.1
  exact hordered.snapshot

/-- Lines in which a call is made before the first instruction has run, and another inside it. -/
def nestedCalls : List (Nat × Line) :=
  [(1, .ofText "0: (85) call pc+3"), (2, .ofText "; if (depth > 2)"),
    (4, .ofText "4: (b7) r6 = 1 ; frame1: R6_w=1"), (5, .ofText "5: (85) call pc+2"),
    (7, .ofText "8: (bf) r0 = r1")]

theorem Snapshot.follow_initial_coherent_nestedCalls :
    (nestedCalls.map Prod.fst).Pairwise (· < ·) ∧ openCalls nestedCalls = 2 ∧
      (initial.follow nestedCalls).depth = openCalls nestedCalls ∧
      (initial.follow nestedCalls).Ordered := by
  have hlines : (nestedCalls.map Prod.fst).Pairwise (· < ·) := by decide
  obtain ⟨-, -, hdepth, hordered⟩ := follow_initial_coherent nestedCalls
  exact ⟨hlines, by decide +kernel, hdepth, hordered hlines⟩

end VerifierTrace
