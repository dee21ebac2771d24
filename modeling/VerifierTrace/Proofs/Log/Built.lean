import VerifierTrace.Log.Delivery
import VerifierTrace.Proofs.Log.Buffer
import VerifierTrace.Proofs.Machine.Transition

/-!
# The logs that can be built

`Log.Built` holds of every log that reading can lead to: an empty one, one to which a line or a
piece of text was added or whose waiting text was finished, and one read from a stream. All of them
come about by complete lines, pushed one after the other, and by changes of the waiting text alone,
which is the induction principle `Built.push_induction`.

A built log is a run of the machine. `Log.before` is the machine before a line: the initial one
before the first line, and then the machine after the last instruction. An instruction advances it,
and the state as of its line is the machine that it leads to (`Built.stateAt?_of_instruction`);
every other line leaves it as it was (`Built.stateAt?_of_none`). A property of the machines of a run
is proved by `Built.run_induction`, line by line.
-/

set_option autoImplicit false
set_option relaxedAutoImplicit false

namespace VerifierTrace

namespace Log

/-- The logs that the operations on logs lead to. -/
inductive Built : Log → Prop
  | empty (maxDepth : Nat) : Built (.empty maxDepth)
  | push {log : Log} (hlog : Built log) (text : String) : Built (log.push text)
  | feed {log : Log} (hlog : Built log) (text : String) : Built (log.feed text)
  | finish {log : Log} (hlog : Built log) : Built log.finish
  | read {log : Log} (deliveries : List Delivery) (hread : ofDeliveries deliveries = .ok log) :
      Built log

end Log

namespace Intake

variable {motive : Log → Prop} (hpush : ∀ (log : Log) (text : String), motive log →
  motive (log.push text))

include hpush

theorem foldl_receive_induction (octets : List UInt8) (intake : Intake)
    (hlog : motive intake.log) : motive (octets.foldl receive intake).log := by
  induction octets generalizing intake with
  | nil => exact hlog
  | cons octet octets ih =>
    apply ih _
    unfold receive
    split
    · exact hpush _ _ hlog
    · exact hlog

/-- A stream does nothing to a log but to push lines. -/
theorem run_induction (deliveries : List Delivery) (intake : Intake) (hlog : motive intake.log)
    {log : Log} (hrun : intake.run deliveries = .ok log) : motive log := by
  induction deliveries generalizing intake with
  | nil =>
    cases hrun
    unfold finish
    split
    · exact hlog
    · exact hpush _ _ hlog
  | cons delivery deliveries ih =>
    cases delivery with
    | octets octets => exact ih _ (foldl_receive_induction hpush octets intake hlog) hrun
    | failure cause => cases hrun

end Intake

namespace Log

/-- Neither one more line nor another waiting text destroys a property of logs. -/
structure Kept (motive : Log → Prop) : Prop where
  push : ∀ (log : Log) (text : String), motive log → motive (log.push text)
  pending : ∀ (log : Log) (pending : String), motive log → motive { log with pending }

namespace Kept

variable {motive : Log → Prop} (hkept : Kept motive)

include hkept

theorem receive (log : Log) (c : Char) (hlog : motive log) : motive (log.receive c) := by
  unfold Log.receive
  split
  · exact hkept.pending _ "" (hkept.push _ _ hlog)
  · exact hkept.pending _ _ hlog

theorem feed (log : Log) (text : String) (hlog : motive log) : motive (log.feed text) := by
  rw [feed_eq_foldl_receive]
  induction text.toList generalizing log with
  | nil => exact hlog
  | cons c text ih => exact ih _ (hkept.receive log c hlog)

theorem finish (log : Log) (hlog : motive log) : motive log.finish := by
  unfold Log.finish
  split
  · exact hlog
  · exact hkept.pending _ "" (hkept.push _ _ hlog)

end Kept

/-- A property of logs holds of all built ones when the empty logs have it, and neither one more
line nor another waiting text destroys it. -/
theorem Built.push_induction {motive : Log → Prop} {log : Log} (hlog : log.Built)
    (hempty : ∀ maxDepth, motive (.empty maxDepth)) (hkept : Kept motive) : motive log := by
  induction hlog with
  | empty maxDepth => exact hempty maxDepth
  | push _ text ih => exact hkept.push _ text ih
  | feed _ text ih => exact hkept.feed _ text ih
  | finish _ ih => exact hkept.finish _ ih
  | read deliveries hread =>
    exact Intake.run_induction hkept.push deliveries .start (hempty _) hread

/-! ### A log as a run of the machine -/

/-- The instruction on a line. -/
def instruction? (log : Log) (index : Nat) : Option Instruction :=
  (log.line? index).bind Line.instruction?

/-- The state as of the line before a line. -/
def stateBefore? (log : Log) : (index : Nat) → Option Machine
  | 0 => none
  | index + 1 => log.stateAt? index

/-- The machine before a line. -/
def before (log : Log) (index : Nat) : Machine :=
  (log.stateBefore? index).getD .initial

@[simp]
theorem before_zero (log : Log) : log.before 0 = .initial := rfl

theorem before_succ (log : Log) (index : Nat) :
    log.before (index + 1) = (log.stateAt? index).getD .initial := rfl

/-- What a line of a log leads to: an instruction advances the machine before it, and any other line
keeps the state as of the line before. -/
def Runs (log : Log) : Prop :=
  ∀ (index : Nat) (line : Line), log.line? index = some line →
    log.stateAt? index = ((log.before index).next? index line).or (log.stateBefore? index)

theorem stateBefore?_size (log : Log) : log.stateBefore? log.size = log.latest? := by
  unfold latest? size stateBefore?
  rw [Array.back?_eq_getElem?]
  cases hsize : log.entries.size with
  | zero => simp [Array.eq_empty_of_size_eq_zero hsize]
  | succ count => simp [stateAt?]

/-- The state after the last line is the state that another line would come upon. -/
theorem current_eq_before_size (log : Log) : log.current = log.before log.size := by
  rw [current, ← stateBefore?_size, before]

theorem size_push (log : Log) (text : String) : (log.push text).size = log.size + 1 :=
  Array.size_push _

theorem line?_push (log : Log) (text : String) (index : Nat) :
    (log.push text).line? index =
      if index = log.size then some (Line.ofText text) else log.line? index := by
  unfold line? push size
  rw [Array.getElem?_push]
  split
  · rw [Option.map_some]
  · rfl

theorem stateAt?_push (log : Log) (text : String) (index : Nat) :
    (log.push text).stateAt? index =
      if index = log.size then
        (log.current.next? log.size (Line.ofText text)).or log.latest?
      else log.stateAt? index := by
  unfold stateAt? push size
  rw [Array.getElem?_push]
  split
  · rw [Option.bind_some]
  · rfl

/-- One more line does not change what was there before the lines that were read. -/
theorem stateBefore?_push (log : Log) (text : String) {index : Nat} (hindex : index ≤ log.size) :
    (log.push text).stateBefore? index = log.stateBefore? index := by
  cases index with
  | zero => rfl
  | succ index =>
    have hne : index ≠ log.size := by omega
    simp only [stateBefore?, stateAt?_push, if_neg hne]

theorem line?_eq_none_of_size_le {log : Log} {index : Nat} (hindex : log.size ≤ index) :
    log.line? index = none := by
  unfold line?
  rw [Array.getElem?_eq_none hindex]
  rfl

theorem lt_size_of_line? {log : Log} {index : Nat} {line : Line}
    (hline : log.line? index = some line) : index < log.size := by
  refine Nat.lt_of_not_le fun hlate ↦ ?_
  rw [line?_eq_none_of_size_le hlate] at hline
  cases hline

theorem Runs.push {log : Log} (hlog : log.Runs) (text : String) : (log.push text).Runs := by
  intro index line hline
  rw [line?_push] at hline
  rw [stateAt?_push]
  by_cases hindex : index = log.size
  · rw [if_pos hindex] at hline ⊢
    obtain rfl := Option.some.inj hline
    rw [hindex, before, stateBefore?_push log text (Nat.le_refl _), stateBefore?_size]
    rfl
  · rw [if_neg hindex] at hline ⊢
    have hold : index ≤ log.size := Nat.le_of_lt (lt_size_of_line? hline)
    rw [before, stateBefore?_push log text hold]
    exact hlog index line hline

/-- Every built log is a run of the machine. -/
theorem Built.runs {log : Log} (hlog : log.Built) : log.Runs := by
  refine hlog.push_induction ?_ ⟨?_, ?_⟩
  · intro maxDepth index line hline
    simp [Log.empty, line?] at hline
  · intro log text hruns
    exact hruns.push text
  · intro log pending hruns
    exact hruns

/-! ### What a line of a built log leads to -/

theorem line?_isSome {log : Log} {index : Nat} (hindex : index < log.size) :
    ∃ line, log.line? index = some line := by
  have hentry : log.entries[index]? = some log.entries[index] :=
    Array.getElem?_eq_getElem hindex
  exact ⟨_, by rw [line?, hentry]; rfl⟩

theorem lt_size_of_instruction? {log : Log} {index : Nat} {instruction : Instruction}
    (hinstruction : log.instruction? index = some instruction) : index < log.size := by
  obtain ⟨line, hline, -⟩ := Option.bind_eq_some_iff.1 hinstruction
  exact lt_size_of_line? hline

/-- The state as of an instruction is the machine that the instruction leads to. -/
theorem Built.stateAt?_of_instruction {log : Log} (hlog : log.Built) {index : Nat}
    {instruction : Instruction} (hinstruction : log.instruction? index = some instruction) :
    ∃ facts, log.stateAt? index = some ((log.before index).advance index instruction facts) := by
  obtain ⟨line, hline, hread⟩ := Option.bind_eq_some_iff.1 hinstruction
  refine ⟨line.facts, ?_⟩
  rw [hlog.runs index line hline, Machine.next?_eq_map, hread]
  rfl

/-- A line that is no instruction leaves the state as it was. -/
theorem Built.stateAt?_of_none {log : Log} (hlog : log.Built) {index : Nat}
    (hindex : index < log.size) (hinstruction : log.instruction? index = none) :
    log.stateAt? index = log.stateBefore? index := by
  obtain ⟨line, hline⟩ := line?_isSome hindex
  have hread : line.instruction? = none := by
    simpa [instruction?, hline] using hinstruction
  rw [hlog.runs index line hline, Machine.next?_eq_map, hread, Option.map_none, Option.none_or]

/-- A property of the machine before each line of a built log holds when the initial machine has it
and every instruction keeps it, and when it survives the lines that are no instructions. -/
theorem Built.run_induction {log : Log} (hlog : log.Built) {motive : Nat → Machine → Prop}
    (hinitial : motive 0 .initial)
    (hinstruction : ∀ (index : Nat) (instruction : Instruction) (facts : List Fact),
      log.instruction? index = some instruction →
      log.stateAt? index = some ((log.before index).advance index instruction facts) →
      motive index (log.before index) →
      motive (index + 1) ((log.before index).advance index instruction facts))
    (hother : ∀ index : Nat, log.instruction? index = none → motive index (log.before index) →
      motive (index + 1) (log.before index)) {index : Nat} (hindex : index ≤ log.size) :
    motive index (log.before index) := by
  induction index with
  | zero => exact hinitial
  | succ index ih =>
    have hbefore : motive index (log.before index) := ih (by omega)
    cases hread : log.instruction? index with
    | none =>
      rw [before_succ, hlog.stateAt?_of_none (by omega) hread]
      exact hother index hread hbefore
    | some instruction =>
      obtain ⟨facts, hstate⟩ := hlog.stateAt?_of_instruction hread
      rw [before_succ, hstate]
      exact hinstruction index instruction facts hread hstate hbefore

end Log

end VerifierTrace
