import VerifierTrace.Log.Dependencies
import VerifierTrace.Proofs.Log.LastWriter

/-!
# Chains of dependencies as use-def walks

`Log.walk` is the sequence of writers that the value of a slot at a line came through, said without
any limit: it begins with the last writer before the line, and goes on from a writer that reads
exactly one slot to the last writer of that slot in the state just before it. `Log.chain` computes
the beginning of this sequence, as long as it is asked for, and the whole of it once the limit is at
least the line (`Built.getElem?_chain`).

A chain looks at the state after a writer first. This is the same, because an instruction that reads
one slot stays in its frame, and there only its own mark can hide the writer before it
(`Built.writerBefore?_eq_writerJustBefore?`). Every writer in a state is an earlier instruction
(`Built.writer_of_mem_frames`), which makes the sequence decrease and ends it.
-/

set_option autoImplicit false
set_option relaxedAutoImplicit false

namespace VerifierTrace

/-- An instruction that reads exactly one slot stays in its frame. -/
theorem Instruction.stays_of_reads_eq_singleton {instruction : Instruction} {slot : Slot}
    (hreads : instruction.reads = [slot]) :
    instruction.isSubprogramCall = false ∧ instruction.isExit = false := by
  obtain ⟨pc, opcode, operation, span⟩ := instruction
  cases operation with
  | assignment assignment => exact ⟨rfl, rfl⟩
  | jump jump =>
    obtain ⟨kind, target, targetSpan, condition⟩ := jump
    cases kind with
    | unconditional => exact ⟨rfl, rfl⟩
    | conditional => exact ⟨rfl, rfl⟩
    | helperCall => exact ⟨rfl, rfl⟩
    | subprogramCall => cases hreads
    | exit => cases hreads

namespace Log

variable {log : Log}

/-- The writers in the frames of a machine are instructions before its line. -/
theorem Built.writer_of_mem_frames (hlog : log.Built) {index : Nat} (hindex : index ≤ log.size) :
    ∀ frame ∈ (log.before index).frames, ∀ slot writer, (frame.cell slot).writer = some writer →
      writer < index ∧ (log.instruction? writer).isSome = true := by
  refine hlog.run_induction (motive := fun index machine ↦
    ∀ frame ∈ machine.frames, ∀ slot writer, (frame.cell slot).writer = some writer →
      writer < index ∧ (log.instruction? writer).isSome = true) ?_ ?_ ?_ hindex
  · intro frame hframe slot writer hwriter
    have hinitial : frame = .initial := by simpa [Machine.frames, Machine.initial] using hframe
    rw [hinitial, Frame.writer_cell_initial] at hwriter
    cases hwriter
  · intro index instruction facts hinstruction _ ih frame hframe slot writer hwriter
    rcases List.mem_cons.mp hframe with rfl | hwaiting
    · rw [Machine.stamped_advance _ _ _ facts slot] at hwriter
      split at hwriter
      · cases hwriter
        exact ⟨Nat.lt_succ_self _, by rw [hinstruction]; rfl⟩
      · obtain ⟨old, hold, hcarried⟩ := Machine.exists_mem_frames_of_carried hwriter
        obtain ⟨hlt, hisInstruction⟩ := ih old hold slot writer hcarried
        exact ⟨Nat.lt_succ_of_lt hlt, hisInstruction⟩
    · have hold := (Machine.transition_transfer _ _ _).callers_suffix.subset hwaiting
      obtain ⟨hlt, hisInstruction⟩ := ih frame hold slot writer hwriter
      exact ⟨Nat.lt_succ_of_lt hlt, hisInstruction⟩
  · intro index _ ih frame hframe slot writer hwriter
    obtain ⟨hlt, hisInstruction⟩ := ih frame hframe slot writer hwriter
    exact ⟨Nat.lt_succ_of_lt hlt, hisInstruction⟩

/-- The last writer of a slot in the state in force just before a line. -/
def writerJustBefore? (log : Log) (index : Nat) (slot : Slot) : Option Nat :=
  (log.stateBefore? index).bind fun machine ↦ (machine.frame.cell slot).writer

/-- The state as of a line is the state in force just before the next one. -/
theorem writerJustBefore?_succ (log : Log) (index : Nat) (slot : Slot) :
    log.writerJustBefore? (index + 1) slot = log.writerAt? index slot := rfl

theorem le_size_of_stateBefore? {index : Nat} {machine : Machine}
    (hstate : log.stateBefore? index = some machine) : index ≤ log.size := by
  cases index with
  | zero => exact Nat.zero_le _
  | succ index =>
    refine Nat.lt_of_not_le fun hlate ↦ ?_
    rw [stateBefore?, stateAt?, Array.getElem?_eq_none hlate] at hstate
    cases hstate

/-- The last writer just before a line is an earlier instruction. -/
theorem Built.writer_of_writerJustBefore? (hlog : log.Built) {index : Nat} {slot : Slot}
    {writer : Nat} (hwriter : log.writerJustBefore? index slot = some writer) :
    writer < index ∧ (log.instruction? writer).isSome = true := by
  obtain ⟨machine, hstate, hcell⟩ := Option.bind_eq_some_iff.mp hwriter
  have hframes := hlog.writer_of_mem_frames (le_size_of_stateBefore? hstate)
  rw [before, hstate] at hframes
  exact hframes machine.frame List.mem_cons_self slot writer hcell

/-- Before the first instruction nothing has a writer, so the initial machine need not be told from
a state. -/
theorem writer_cell_before (log : Log) (index : Nat) (slot : Slot) :
    ((log.before index).frame.cell slot).writer = log.writerJustBefore? index slot := by
  unfold before writerJustBefore?
  cases log.stateBefore? index with
  | none => exact Frame.writer_cell_initial slot
  | some machine => rfl

/-! ### What a chain consults -/

/-- The first writer of a query: the last writer as of the line, or the one just before it when the
line wrote the slot itself. -/
def firstWriter? (log : Log) (line : Nat) (slot : Slot) : Option Nat :=
  match log.writerAt? line slot with
  | none => none
  | some writer =>
    if writer < line then some writer
    else if writer = line then log.writerJustBefore? line slot
    else none

/-- A chain takes the first writer of a query. -/
theorem Built.writerBefore?_eq_firstWriter? (hlog : log.Built) (line : Nat) (slot : Slot) :
    log.writerBefore? line slot = log.firstWriter? line slot := by
  unfold writerBefore? firstWriter?
  cases hwriter : log.writerAt? line slot with
  | none => rfl
  | some writer =>
    have hle : writer < line + 1 :=
      (hlog.writer_of_writerJustBefore? (hwriter ▸ log.writerJustBefore?_succ line slot)).1
    by_cases hlt : writer < line
    · simp only [if_pos hlt]
    · have heq : writer = line := by omega
      simp only [if_neg hlt, if_pos heq]
      cases line with
      | zero => rfl
      | succ line =>
        rw [if_neg (Nat.succ_ne_zero line), Nat.add_sub_cancel, writerJustBefore?_succ]
        cases hearlier : log.writerAt? line slot with
        | none => rfl
        | some earlier =>
          have hbound : earlier < line + 1 := (hlog.writer_of_writerJustBefore?
            (hearlier ▸ log.writerJustBefore?_succ line slot)).1
          simp [Option.filter, hbound]

/-- What the state as of an instruction that reads one slot tells of that slot: itself, if the line
marks the slot as written, and otherwise the writer just before. -/
theorem Built.writerAt?_of_reads_eq_singleton (hlog : log.Built) {writer : Nat}
    {instruction : Instruction} (hinstruction : log.instruction? writer = some instruction)
    {slot : Slot} (hreads : instruction.reads = [slot]) :
    log.writerAt? writer slot = some writer ∨
      log.writerAt? writer slot = log.writerJustBefore? writer slot := by
  obtain ⟨facts, hstate⟩ := hlog.stateAt?_of_instruction hinstruction
  obtain ⟨hcall, hexit⟩ := Instruction.stays_of_reads_eq_singleton hreads
  have hcarried : (log.before writer).carried instruction slot =
      log.writerJustBefore? writer slot := by
    rw [← writer_cell_before, Machine.carried, hcall, hexit]
    rfl
  have hstamped := (log.before writer).stamped_advance writer instruction facts slot
  rw [Cell.Stamped, hcarried] at hstamped
  rw [writerAt?, hstate, Option.bind_some, hstamped]
  split
  · exact Or.inl rfl
  · exact Or.inr rfl

/-- From a writer that reads one slot a chain goes on to the last writer of that slot just before
it, although it asks for the state after it. -/
theorem Built.writerBefore?_eq_writerJustBefore? (hlog : log.Built) {writer : Nat}
    {instruction : Instruction} (hinstruction : log.instruction? writer = some instruction)
    {slot : Slot} (hreads : instruction.reads = [slot]) :
    log.writerBefore? writer slot = log.writerJustBefore? writer slot := by
  rw [hlog.writerBefore?_eq_firstWriter?, firstWriter?]
  rcases hlog.writerAt?_of_reads_eq_singleton hinstruction hreads with hself | hkept
  · rw [hself]
    simp
  · rw [hkept]
    cases hearlier : log.writerJustBefore? writer slot with
    | none => rfl
    | some earlier => exact if_pos (hlog.writer_of_writerJustBefore? hearlier).1

/-! ### The walk -/

/-- Where a value came from before a writer passed it on: the last writer, just before, of the slot
that the writer reads, if it reads exactly one. -/
def nextWriter? (log : Log) (writer : Nat) : Option Nat :=
  match (log.instruction? writer).map Instruction.reads with
  | some [slot] => log.writerJustBefore? writer slot
  | _ => none

/-- The sequence of writers from a first one on. -/
def walkFrom (log : Log) (first : Option Nat) : (position : Nat) → Option Nat
  | 0 => first
  | position + 1 => (log.walkFrom first position).bind log.nextWriter?

/-- The use-def walk of a slot at a line: the writers that its value came through, the nearest
first. -/
def walk (log : Log) (line : Nat) (slot : Slot) : (position : Nat) → Option Nat :=
  log.walkFrom (log.firstWriter? line slot)

theorem walkFrom_succ (log : Log) (first : Option Nat) (position : Nat) :
    log.walkFrom first (position + 1) = log.walkFrom (first.bind log.nextWriter?) position := by
  induction position with
  | zero => rfl
  | succ position ih =>
    rw [walkFrom, ih]
    rfl

theorem walkFrom_none (log : Log) (position : Nat) : log.walkFrom none position = none := by
  induction position with
  | zero => rfl
  | succ position ih =>
    rw [walkFrom, ih]
    rfl

/-- The slot from which a chain goes on is the one that the writer reads. -/
theorem source?_eq_some_iff {writer : Nat} {slot : Slot} :
    log.source? writer = some slot ↔
      ∃ instruction, log.instruction? writer = some instruction ∧ instruction.reads = [slot] := by
  have hsource : log.source? writer = (log.instruction? writer).bind Instruction.soleRead? := rfl
  rw [hsource, Option.bind_eq_some_iff]
  refine exists_congr fun instruction ↦ and_congr_right fun _ ↦ ?_
  unfold Instruction.soleRead?
  split
  next other hreads =>
    rw [hreads]
    simp
  next hother =>
    exact ⟨fun hnone ↦ absurd hnone.symm (Option.some_ne_none slot),
      fun hreads ↦ absurd hreads (hother slot)⟩

theorem Built.nextWriter?_of_source? (hlog : log.Built) {writer : Nat} {slot : Slot}
    (hsource : log.source? writer = some slot) :
    log.nextWriter? writer = log.firstWriter? writer slot := by
  obtain ⟨instruction, hinstruction, hreads⟩ := source?_eq_some_iff.mp hsource
  rw [← hlog.writerBefore?_eq_firstWriter?,
    hlog.writerBefore?_eq_writerJustBefore? hinstruction hreads, nextWriter?, hinstruction,
    Option.map_some, hreads]

theorem nextWriter?_of_source?_eq_none {writer : Nat} (hsource : log.source? writer = none) :
    log.nextWriter? writer = none := by
  unfold nextWriter?
  split
  next slot hreads =>
    obtain ⟨instruction, hinstruction, hsingle⟩ := Option.map_eq_some_iff.mp hreads
    rw [source?_eq_some_iff.mpr ⟨instruction, hinstruction, hsingle⟩] at hsource
    exact nomatch hsource
  next => rfl

/-- Every writer of a walk is an instruction, earlier than the one before it in the walk. -/
theorem Built.writer_of_nextWriter? (hlog : log.Built) {writer earlier : Nat}
    (hnext : log.nextWriter? writer = some earlier) :
    earlier < writer ∧ (log.instruction? earlier).isSome = true := by
  unfold nextWriter? at hnext
  split at hnext
  · exact hlog.writer_of_writerJustBefore? hnext
  · exact nomatch hnext

theorem Built.writer_of_firstWriter? (hlog : log.Built) {line : Nat} {slot : Slot}
    {writer : Nat} (hfirst : log.firstWriter? line slot = some writer) :
    writer < line ∧ (log.instruction? writer).isSome = true := by
  unfold firstWriter? at hfirst
  split at hfirst
  · exact nomatch hfirst
  next found hfound =>
    split at hfirst
    next hlt =>
      obtain rfl := Option.some.inj hfirst
      exact ⟨hlt, (hlog.writer_of_writerJustBefore?
        (hfound ▸ log.writerJustBefore?_succ line slot)).2⟩
    next =>
      split at hfirst
      · exact hlog.writer_of_writerJustBefore? hfirst
      · exact nomatch hfirst

/-- The writers of a walk are instructions before the line, and each step takes the walk further
down, so that it has at most as many writers as there are lines before. -/
theorem Built.walk_lt (hlog : log.Built) {line : Nat} {slot : Slot} {position writer : Nat}
    (hwriter : log.walk line slot position = some writer) :
    writer + position < line ∧ (log.instruction? writer).isSome = true := by
  induction position generalizing writer with
  | zero => exact hlog.writer_of_firstWriter? hwriter
  | succ position ih =>
    obtain ⟨later, hlater, hnext⟩ := Option.bind_eq_some_iff.mp hwriter
    obtain ⟨hlt, hisInstruction⟩ := hlog.writer_of_nextWriter? hnext
    have hbound := (ih hlater).1
    exact ⟨by omega, hisInstruction⟩

/-- A walk has no gaps: what stands before a writer of it is a later writer. -/
theorem Built.walk_decreases (hlog : log.Built) {line : Nat} {slot : Slot} {first second : Nat}
    (hpositions : first < second) {writer : Nat}
    (hwriter : log.walk line slot second = some writer) :
    ∃ later, log.walk line slot first = some later ∧ writer < later := by
  induction second generalizing writer with
  | zero => exact absurd hpositions (Nat.not_lt_zero first)
  | succ second ih =>
    obtain ⟨previous, hprevious, hnext⟩ := Option.bind_eq_some_iff.mp hwriter
    have hlt := (hlog.writer_of_nextWriter? hnext).1
    by_cases hlast : first = second
    · exact ⟨previous, hlast ▸ hprevious, hlt⟩
    · obtain ⟨later, hlater, hbelow⟩ := ih (by omega) hprevious
      exact ⟨later, hlater, Nat.lt_trans hlt hbelow⟩

/-- A chain is the beginning of the walk, up to its limit. -/
theorem Built.getElem?_chain (hlog : log.Built) (maxDepth line : Nat) (slot : Slot)
    (position : Nat) :
    (log.chain maxDepth line slot)[position]? =
      if position < maxDepth then log.walk line slot position else none := by
  induction maxDepth generalizing line slot position with
  | zero => simp [chain]
  | succ maxDepth ih =>
    rw [chain, hlog.writerBefore?_eq_firstWriter?, walk]
    cases hfirst : log.firstWriter? line slot with
    | none => simp [walkFrom_none]
    | some writer =>
      cases position with
      | zero => simp [walkFrom]
      | succ position =>
        rw [walkFrom_succ, Option.bind_some, List.getElem?_cons_succ]
        cases hsource : log.source? writer with
        | none =>
          rw [nextWriter?_of_source?_eq_none hsource, walkFrom_none]
          simp
        | some next =>
          rw [hlog.nextWriter?_of_source? hsource]
          simpa [walk] using ih writer next position

/-- The dependencies of a slot at a line, with any limit on their number, are the first elements of
one sequence: the maximal use-def walk. It strictly decreases through instructions before the line,
so a chain is never longer than its limit or the line, and a limit that is at least the line cuts
nothing off. -/
theorem Built.chain_is_use_def_walk (hlog : log.Built) (line : Nat) (slot : Slot) :
    (∀ maxDepth position, (log.chain maxDepth line slot)[position]? =
      if position < maxDepth then log.walk line slot position else none) ∧
    (∀ first second later earlier, first < second → log.walk line slot first = some later →
      log.walk line slot second = some earlier → earlier < later) ∧
    (∀ position writer, log.walk line slot position = some writer →
      writer < line ∧ (log.instruction? writer).isSome = true) ∧
    (∀ maxDepth, (log.chain maxDepth line slot).length ≤ min maxDepth line) ∧
    ∀ maxDepth, line ≤ maxDepth → ∀ position,
      (log.chain maxDepth line slot)[position]? = log.walk line slot position := by
  have hends : ∀ position, line ≤ position → log.walk line slot position = none := by
    intro position hlate
    refine Option.eq_none_iff_forall_ne_some.mpr fun writer hwriter ↦ ?_
    have hbound := (hlog.walk_lt hwriter).1
    omega
  refine ⟨fun maxDepth position ↦ hlog.getElem?_chain maxDepth line slot position, ?_, ?_, ?_, ?_⟩
  · intro first second later earlier hpositions hlater hearlier
    obtain ⟨found, hfound, hlt⟩ := hlog.walk_decreases hpositions hearlier
    rw [hlater] at hfound
    obtain rfl := Option.some.inj hfound
    exact hlt
  · intro position writer hwriter
    obtain ⟨hbound, hisInstruction⟩ := hlog.walk_lt hwriter
    exact ⟨by omega, hisInstruction⟩
  · intro maxDepth
    refine List.getElem?_eq_none_iff.mp ?_
    rw [hlog.getElem?_chain]
    split
    next hcut => exact hends _ (by omega)
    next => rfl
  · intro maxDepth hwhole position
    rw [hlog.getElem?_chain]
    split
    next => rfl
    next hlate => exact (hends position (by omega)).symm

/-- The value that is increased in the last line was copied from `r6`, which was written before the
call. -/
theorem chain_is_use_def_walk_callAndReturn :
    callAndReturn.Built ∧ callAndReturn.chain 16 6 (.register 7) = [4, 0] ∧ 6 ≤ 16 ∧
      ∀ position, (callAndReturn.chain 16 6 (.register 7))[position]? =
        callAndReturn.walk 6 (.register 7) position :=
  ⟨built_callAndReturn, by decide +kernel, by decide,
    (built_callAndReturn.chain_is_use_def_walk 6 (.register 7)).2.2.2.2 16 (by decide)⟩

end Log

end VerifierTrace
