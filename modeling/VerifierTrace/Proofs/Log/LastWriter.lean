import Mathlib.Order.Bounds.Defs
import Mathlib.Data.Set.Basic
import VerifierTrace.Proofs.Log.Built

/-!
# The last writer of a slot

An activation of a function is the part of a log that runs in one frame, over one stack of callers.
`Log.SameActivation` says that two instructions belong to one: the same frames wait at both, and the
program was not restarted in between. The last writer that a machine holds for a slot is the last
line of its activation that wrote the slot. Where no line of the activation did, an argument has the
writer that it had in the caller, and every other slot has none (`Built.isLastWriter_stateAt`).

The writers of the waiting frames are explained in the same way, each over the frames outside it,
and it takes all of them to carry the induction over the lines: an exit makes a waiting frame the
running one. `Log.Explained` is that invariant. A call opens an activation that no earlier line
belongs to, because the frame that it leaves behind remembers its line, and no frame that waited
before is as late (`Built.writesOver_frames_eq_empty`).
-/

set_option autoImplicit false
set_option relaxedAutoImplicit false

namespace VerifierTrace

/-- The writer of a slot before a function writes it: for an argument, the one that the slot has in
the innermost caller, if there is one. -/
def Machine.inheritedWriter (machine : Machine) (slot : Slot) : Option Nat :=
  if slot ∈ Slot.arguments then
    machine.caller?.bind fun caller ↦ (caller.frame.cell slot).writer
  else none

/-- The last of some writers, or what was inherited if there are none. -/
def IsLastWriter (writers : Set Nat) (inherited writer : Option Nat) : Prop :=
  (∃ last, IsGreatest writers last ∧ writer = some last) ∨ writers = ∅ ∧ writer = inherited

/-- One more writer, later than all others, is the last one. -/
theorem IsLastWriter.insert {writers later : Set Nat} {inherited carried : Option Nat}
    (hlast : IsLastWriter writers inherited carried) {index : Nat} {written : Bool}
    (hbound : ∀ writer ∈ writers, writer < index)
    (hlater : ∀ writer, writer ∈ later ↔ writer = index ∧ written = true ∨ writer ∈ writers) :
    IsLastWriter later inherited (if written then some index else carried) := by
  cases written with
  | true =>
    refine Or.inl ⟨index, ⟨(hlater index).mpr (Or.inl ⟨rfl, rfl⟩), ?_⟩, rfl⟩
    intro writer hwriter
    rcases (hlater writer).mp hwriter with ⟨rfl, _⟩ | hold
    · exact Nat.le_refl _
    · exact Nat.le_of_lt (hbound writer hold)
  | false =>
    have hsame : later = writers := by
      ext writer
      rw [hlater]
      simp
    rw [hsame]
    exact hlast

namespace Log

/-- The frames that wait as of a line. -/
def callersAt? (log : Log) (index : Nat) : Option (List Frame) :=
  (log.stateAt? index).map Machine.callers

/-- The instruction on a line ends the program: it exits without a caller. -/
def Restarts (log : Log) (index : Nat) : Prop :=
  ∃ instruction, log.instruction? index = some instruction ∧ instruction.isExit = true ∧
    (log.before index).callers = []

/-- The state as of a line marks a slot as written. -/
def WritesAt (log : Log) (index : Nat) (slot : Slot) : Prop :=
  ∃ machine, log.stateAt? index = some machine ∧ (machine.frame.cell slot).effect.isWrite = true

/-- An instruction runs in the activation of a line at or after it: the same frames wait, and no
line after it, up to the other one, restarts the program. -/
structure SameActivation (log : Log) (earlier line : Nat) : Prop where
  le : earlier ≤ line
  isInstruction : (log.instruction? earlier).isSome = true
  callers : log.callersAt? earlier = log.callersAt? line
  noRestart : ∀ between, earlier < between → between ≤ line → ¬ log.Restarts between

/-- The lines of the activation of a line, up to that line, that wrote a slot. -/
def activationWriters (log : Log) (line : Nat) (slot : Slot) : Set Nat :=
  {writer | log.SameActivation writer line ∧ log.WritesAt writer slot}

/-- The lines before a bound that wrote a slot in the latest activation over a stack of callers. -/
def writesOver (log : Log) (bound : Nat) (callers : List Frame) (slot : Slot) : Set Nat :=
  {writer | writer < bound ∧ (log.instruction? writer).isSome = true ∧
    log.callersAt? writer = some callers ∧
    (∀ between, writer < between → between < bound → ¬ log.Restarts between) ∧
    log.WritesAt writer slot}

theorem activationWriters_eq_writesOver {log : Log} {line : Nat} {machine : Machine}
    (hstate : log.stateAt? line = some machine) (slot : Slot) :
    log.activationWriters line slot = log.writesOver (line + 1) machine.callers slot := by
  have hcallers : log.callersAt? line = some machine.callers := by
    rw [callersAt?, hstate]
    rfl
  ext writer
  constructor
  · rintro ⟨⟨hle, hinstruction, hsame, hrestart⟩, hwrites⟩
    refine ⟨by omega, hinstruction, hsame.trans hcallers, ?_, hwrites⟩
    exact fun between hafter hbefore ↦ hrestart between hafter (by omega)
  · rintro ⟨hlt, hinstruction, hsame, hrestart, hwrites⟩
    refine ⟨⟨by omega, hinstruction, hsame.trans hcallers.symm, ?_⟩, hwrites⟩
    exact fun between hafter hbefore ↦ hrestart between hafter (by omega)

/-- One more line adds itself to the writers over its own callers, and after a restart nothing
before it counts. -/
theorem mem_writesOver_succ {log : Log} {index : Nat} {callers : List Frame} {slot : Slot}
    {writer : Nat} :
    writer ∈ log.writesOver (index + 1) callers slot ↔
      (writer = index ∧ (log.instruction? index).isSome = true ∧
          log.callersAt? index = some callers ∧ log.WritesAt index slot) ∨
        (¬ log.Restarts index ∧ writer ∈ log.writesOver index callers slot) := by
  constructor
  · rintro ⟨hlt, hinstruction, hcallers, hrestart, hwrites⟩
    by_cases hnow : writer = index
    · subst hnow
      exact Or.inl ⟨rfl, hinstruction, hcallers, hwrites⟩
    · refine Or.inr ⟨hrestart index (by omega) (by omega), by omega, hinstruction, hcallers, ?_,
        hwrites⟩
      exact fun between hafter hbefore ↦ hrestart between hafter (by omega)
  · rintro (⟨rfl, hinstruction, hcallers, hwrites⟩ |
      ⟨hkeep, hlt, hinstruction, hcallers, hrestart, hwrites⟩)
    · exact ⟨by omega, hinstruction, hcallers, fun between hafter hbefore ↦ by omega, hwrites⟩
    · refine ⟨by omega, hinstruction, hcallers, ?_, hwrites⟩
      intro between hafter hbefore
      by_cases hnow : between = index
      · rw [hnow]
        exact hkeep
      · exact hrestart between hafter (by omega)

/-! ### A call opens a new activation -/

variable {log : Log}

/-- The frames of the machine before a line remember only earlier lines. -/
theorem Built.line_lt_of_mem_frames (hlog : log.Built) {index : Nat} (hindex : index ≤ log.size) :
    ∀ frame ∈ (log.before index).frames, ∀ line, frame.line = some line → line < index := by
  refine hlog.run_induction (motive := fun index machine ↦
    ∀ frame ∈ machine.frames, ∀ line, frame.line = some line → line < index) ?_ ?_ ?_ hindex
  · intro frame hframe line hline
    have hinitial : frame = .initial := by simpa [Machine.frames, Machine.initial] using hframe
    rw [hinitial] at hline
    cases hline
  · intro index instruction facts _ _ ih frame hframe line hline
    rcases List.mem_cons.mp hframe with rfl | hwaiting
    · rw [Machine.line_advance] at hline
      cases hline
      exact Nat.lt_succ_self index
    · have hold := (Machine.transition_transfer _ _ _).callers_suffix.subset hwaiting
      exact Nat.lt_succ_of_lt (ih frame hold line hline)
  · intro index _ ih frame hframe line hline
    exact Nat.lt_succ_of_lt (ih frame hframe line hline)

/-- The running frame remembers a line as late as every instruction before. -/
theorem Built.exists_line_ge (hlog : log.Built) {index : Nat} (hindex : index ≤ log.size) :
    ∀ earlier < index, (log.instruction? earlier).isSome = true →
      ∃ line, (log.before index).frame.line = some line ∧ earlier ≤ line := by
  refine hlog.run_induction (motive := fun index machine ↦
    ∀ earlier < index, (log.instruction? earlier).isSome = true →
      ∃ line, machine.frame.line = some line ∧ earlier ≤ line) ?_ ?_ ?_ hindex
  · intro earlier hearlier
    exact absurd hearlier (Nat.not_lt_zero earlier)
  · intro index instruction facts _ _ _ earlier hearlier _
    exact ⟨index, Machine.line_advance _ _ _ _, Nat.le_of_lt_succ hearlier⟩
  · intro index hnone ih earlier hearlier hinstruction
    have hne : earlier ≠ index := by
      rintro rfl
      rw [hnone] at hinstruction
      cases hinstruction
    exact ih earlier (by omega) hinstruction

/-- No instruction ran over the frames of the machine before a line, as they stand there. -/
theorem Built.writesOver_frames_eq_empty (hlog : log.Built) {index : Nat}
    (hindex : index ≤ log.size) (slot : Slot) :
    log.writesOver index (log.before index).frames slot = ∅ := by
  apply Set.eq_empty_iff_forall_notMem.mpr
  rintro earlier ⟨hearlier, hinstruction, hcallers, -, -⟩
  obtain ⟨line, hline, hle⟩ := hlog.exists_line_ge hindex earlier hearlier hinstruction
  obtain ⟨instruction, hread⟩ := Option.isSome_iff_exists.mp hinstruction
  obtain ⟨facts, hstate⟩ := hlog.stateAt?_of_instruction hread
  rw [callersAt?, hstate, Option.map_some, Option.some.injEq, Machine.callers_advance] at hcallers
  have hwaiting : (log.before index).frame ∈
      ((log.before earlier).transfer earlier instruction).callers := by
    rw [hcallers]
    exact List.mem_cons_self
  have hold := (Machine.transition_transfer _ _ _).callers_suffix.subset hwaiting
  have hlt := hlog.line_lt_of_mem_frames (by omega) _ hold line hline
  omega

/-! ### The invariant of a run -/

/-- The writer that a frame over some waiting frames has inherited. -/
def inheritedOver (callers : List Frame) (slot : Slot) : Option Nat :=
  callers.head?.bind fun caller ↦ caller.argumentWriter slot

/-- The writers of every frame of a machine are explained by the lines before a bound. -/
def Explained (log : Log) (bound : Nat) (machine : Machine) : Prop :=
  ∀ (frame : Frame) (callers : List Frame), frame :: callers <:+ machine.frames → ∀ slot,
    IsLastWriter (log.writesOver bound callers slot) (inheritedOver callers slot)
      (frame.cell slot).writer

/-- A line that is no instruction adds no writer. -/
theorem writesOver_succ_of_none {index : Nat} (hnone : log.instruction? index = none)
    (callers : List Frame) (slot : Slot) :
    log.writesOver (index + 1) callers slot = log.writesOver index callers slot := by
  have hrestart : ¬ log.Restarts index := by
    rintro ⟨instruction, hinstruction, -⟩
    rw [hnone] at hinstruction
    cases hinstruction
  ext writer
  rw [mem_writesOver_succ]
  simp [hnone, hrestart]

section Step

variable {index : Nat} {instruction : Instruction} {next : Machine}
  (hinstruction : log.instruction? index = some instruction)
  (hstate : log.stateAt? index = some next)

include hstate

/-- An instruction adds no writer over other waiting frames than its own. -/
theorem writesOver_succ_of_ne {callers : List Frame} (hne : callers ≠ next.callers)
    (hrestart : ¬ log.Restarts index) (slot : Slot) :
    log.writesOver (index + 1) callers slot = log.writesOver index callers slot := by
  have hothers : log.callersAt? index ≠ some callers := by
    rw [callersAt?, hstate]
    simpa using Ne.symm hne
  ext writer
  rw [mem_writesOver_succ]
  simp [hothers, hrestart]

include hinstruction

/-- An instruction that stamps its cells explains the running frame, when the writers carried over
were explained by the lines that still count. -/
theorem isLastWriter_succ {carried : Slot → Option Nat}
    (hstamped : next.frame.Stamped index carried) {slot : Slot} {inherited : Option Nat}
    (hcarried : IsLastWriter
      {writer | ¬ log.Restarts index ∧ writer ∈ log.writesOver index next.callers slot}
      inherited (carried slot)) :
    IsLastWriter (log.writesOver (index + 1) next.callers slot) inherited
      (next.frame.cell slot).writer := by
  rw [hstamped slot]
  refine hcarried.insert (fun writer hwriter ↦ hwriter.2.1) fun writer ↦ ?_
  have hcallers : log.callersAt? index = some next.callers := by
    rw [callersAt?, hstate]
    rfl
  have hwrites : log.WritesAt index slot ↔ (next.frame.cell slot).effect.isWrite = true := by
    constructor
    · rintro ⟨machine, hmachine, hwrite⟩
      rw [hstate] at hmachine
      cases hmachine
      exact hwrite
    · exact fun hwrite ↦ ⟨next, hstate, hwrite⟩
  rw [mem_writesOver_succ, hwrites, hinstruction, hcallers]
  simp

end Step

/-- A frame that waits over some callers is not the innermost of them. -/
theorem ne_of_cons_suffix {frame : Frame} {callers waiting : List Frame}
    (hsuffix : frame :: callers <:+ waiting) : callers ≠ waiting := by
  rintro rfl
  have hlength := hsuffix.length_le
  rw [List.length_cons] at hlength
  omega

/-- A restart is an exit without callers, so none happens where a frame is left or entered. -/
theorem not_restarts_of_isExit_eq_false {index : Nat} {instruction : Instruction}
    (hinstruction : log.instruction? index = some instruction)
    (hexit : instruction.isExit = false) : ¬ log.Restarts index := by
  rintro ⟨other, hother, hends, -⟩
  rw [hinstruction] at hother
  cases hother
  rw [hexit] at hends
  cases hends

theorem not_restarts_of_callers_ne_nil {index : Nat}
    (hcallers : (log.before index).callers ≠ []) : ¬ log.Restarts index :=
  fun ⟨_, _, _, hnone⟩ ↦ hcallers hnone

/-- Nothing waits after a restart. -/
theorem Restarts.callers_eq_nil {index : Nat} {instruction : Instruction} {next : Machine}
    (hrestart : log.Restarts index)
    (hinstruction : log.instruction? index = some instruction)
    (hnext : Machine.Transition (log.before index) index instruction next) :
    next.callers = [] := by
  obtain ⟨other, hother, hends, hnone⟩ := hrestart
  rw [hinstruction] at hother
  cases hother
  cases hnext with
  | stay hcall hexit => exact hnone
  | enter hcall =>
    rw [Machine.isSubprogramCall_eq_false_of_isExit hends] at hcall
    cases hcall
  | leave hexit hcallers =>
    rw [hnone] at hcallers
    cases hcallers
  | restart hexit hcallers => rfl

/-- Whatever way an instruction moves, the writers that it carries over to the running frame are
explained by the lines that still count for that frame. -/
theorem Explained.carried (hlog : log.Built) {index : Nat} {instruction : Instruction}
    (hinstruction : log.instruction? index = some instruction)
    (hexplained : log.Explained index (log.before index)) {next : Machine}
    (hnext : Machine.Transition (log.before index) index instruction next) (slot : Slot) :
    IsLastWriter
      {writer | ¬ log.Restarts index ∧ writer ∈ log.writesOver index next.callers slot}
      (inheritedOver next.callers slot) ((log.before index).carried instruction slot) := by
  have hsize : index ≤ log.size := Nat.le_of_lt (lt_size_of_instruction? hinstruction)
  cases hnext with
  | stay hcall hexit =>
    have hrestart := not_restarts_of_isExit_eq_false hinstruction hexit
    have hrunning := hexplained _ _ List.suffix_rfl slot
    simpa [hrestart, Machine.carried, hcall, hexit] using hrunning
  | enter hcall =>
    refine Or.inr ⟨?_, ?_⟩
    · have hnone := hlog.writesOver_frames_eq_empty hsize slot
      rw [Machine.frames] at hnone
      simp [hnone]
    · simp [Machine.carried, hcall, inheritedOver]
  | @leave hexit caller callers hcallers =>
    have hrestart : ¬ log.Restarts index :=
      not_restarts_of_callers_ne_nil (by simp [hcallers])
    have hcaller : caller :: callers <:+ (log.before index).frames := by
      rw [Machine.frames, hcallers]
      exact List.suffix_cons _ _
    have hcall := Machine.isSubprogramCall_eq_false_of_isExit hexit
    simpa [hrestart, Machine.carried, hcall, hexit, hcallers] using
      hexplained caller callers hcaller slot
  | restart hexit hcallers =>
    have hrestart : log.Restarts index := ⟨instruction, hinstruction, hexit, hcallers⟩
    have hcall := Machine.isSubprogramCall_eq_false_of_isExit hexit
    refine Or.inr ⟨?_, ?_⟩
    · simp [hrestart]
    · simp [Machine.carried, hcall, hexit, hcallers, inheritedOver]

/-- An instruction keeps the writers of all frames explained. The frames that wait after it stood
there before it, and no line over the frames outside them is added. -/
theorem Explained.succ (hlog : log.Built) {index : Nat} {instruction : Instruction}
    {facts : List Fact} (hinstruction : log.instruction? index = some instruction)
    (hstate : log.stateAt? index = some ((log.before index).advance index instruction facts))
    (hexplained : log.Explained index (log.before index)) :
    log.Explained (index + 1) ((log.before index).advance index instruction facts) := by
  have hmoved := (log.before index).transition_transfer index instruction
  intro frame callers hsuffix slot
  rcases List.suffix_cons_iff.mp hsuffix with hrunning | hwaits
  · obtain ⟨rfl, rfl⟩ := List.cons.inj hrunning
    exact isLastWriter_succ hinstruction hstate (Machine.stamped_advance _ _ _ facts)
      (hexplained.carried hlog hinstruction hmoved slot)
  · have hrestart : ¬ log.Restarts index := by
      intro hrestart
      have hnone := hrestart.callers_eq_nil hinstruction hmoved
      rw [Machine.callers_advance, hnone] at hwaits
      cases List.eq_nil_of_suffix_nil hwaits
    rw [writesOver_succ_of_ne hstate (ne_of_cons_suffix hwaits) hrestart slot]
    exact hexplained frame callers (hwaits.trans hmoved.callers_suffix) slot

/-- Along a built log the writers of all frames are explained. -/
theorem Built.explained (hlog : log.Built) {index : Nat} (hindex : index ≤ log.size) :
    log.Explained index (log.before index) := by
  refine hlog.run_induction (motive := log.Explained) ?_ ?_ ?_ hindex
  · intro frame callers hsuffix slot
    have hframes : Machine.initial.frames = [.initial] := rfl
    have hlength := hsuffix.length_le
    rw [hframes, List.length_cons, List.length_singleton] at hlength
    obtain rfl : callers = [] := List.eq_nil_of_length_eq_zero (by omega)
    obtain rfl : frame = .initial := by simpa [hframes] using hsuffix.subset
    refine Or.inr ⟨?_, Frame.writer_cell_initial slot⟩
    exact Set.eq_empty_iff_forall_notMem.mpr fun writer hwriter ↦ Nat.not_lt_zero _ hwriter.1
  · intro index instruction facts hinstruction hstate ih
    exact ih.succ hlog hinstruction hstate
  · intro index hnone ih frame callers hsuffix slot
    rw [writesOver_succ_of_none hnone]
    exact ih frame callers hsuffix slot

theorem inheritedOver_callers (machine : Machine) (slot : Slot) :
    inheritedOver machine.callers slot = machine.inheritedWriter slot := by
  unfold inheritedOver Machine.inheritedWriter Machine.caller? Frame.argumentWriter
  cases machine.callers with
  | nil => simp
  | cons caller callers => rfl

/-- The last writer that the state as of an instruction holds for a slot is the last line, in the
activation of that instruction, whose state marks the slot as written. If there is no such line, an
argument of a called function has the writer that it has in the innermost caller, and every other
slot has none. -/
theorem Built.isLastWriter_stateAt (hlog : log.Built) {line : Nat}
    (hline : (log.instruction? line).isSome = true) :
    ∃ machine, log.stateAt? line = some machine ∧ ∀ slot,
      IsLastWriter (log.activationWriters line slot) (machine.inheritedWriter slot)
        (machine.frame.cell slot).writer := by
  obtain ⟨instruction, hinstruction⟩ := Option.isSome_iff_exists.mp hline
  obtain ⟨facts, hstate⟩ := hlog.stateAt?_of_instruction hinstruction
  refine ⟨_, hstate, fun slot ↦ ?_⟩
  have hexplained := hlog.explained (lt_size_of_instruction? hinstruction)
  rw [before_succ, hstate] at hexplained
  rw [activationWriters_eq_writesOver hstate, ← inheritedOver_callers]
  exact hexplained _ _ List.suffix_rfl slot

/-- A log in which a function is called and returns before its caller goes on. -/
def callAndReturn : Log :=
  ["0: (b7) r6 = 7", "1: (85) call pc+1", "3: (bf) r0 = r1", "4: (95) exit", "2: (bf) r7 = r6",
    "; nothing happens here", "3: (07) r7 += 1"].foldl push (.empty 16)

theorem built_callAndReturn : callAndReturn.Built :=
  .push (.push (.push (.push (.push (.push (.push (.empty 16) _) _) _) _) _) _) _

/-- After the return the writers are lines of the caller's own activation. -/
theorem isLastWriter_stateAt_callAndReturn :
    callAndReturn.Built ∧ (callAndReturn.instruction? 4).isSome = true ∧
      ∃ machine, callAndReturn.stateAt? 4 = some machine ∧ ∀ slot,
        IsLastWriter (callAndReturn.activationWriters 4 slot) (machine.inheritedWriter slot)
          (machine.frame.cell slot).writer :=
  ⟨built_callAndReturn, rfl, Built.isLastWriter_stateAt built_callAndReturn rfl⟩

end Log

end VerifierTrace
