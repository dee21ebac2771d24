import VerifierTrace.Proofs.Log.Spread

/-!
# A log only grows

What is read later adds lines to a log and never changes one that is there (`Extends`,
`extends_after`). The answers about a line depend on the lines up to it alone, because a log that
agrees with another up to a line is spread over it with every line in its own place
(`spread_id`). So they are final: a query about a line that has been read has the same answer at any
later time (`Built.answers_are_final`).
-/

set_option autoImplicit false
set_option relaxedAutoImplicit false

namespace VerifierTrace

namespace Log

/-- What may be done with a log. -/
inductive Action
  | push (text : String)
  | feed (text : String)
  | finish
  deriving DecidableEq, Repr

/-- The log after an action. -/
def perform (log : Log) : Action → Log
  | .push text => log.push text
  | .feed text => log.feed text
  | .finish => log.finish

/-- The log after some actions, one after the other. -/
def after (log : Log) (actions : List Action) : Log :=
  actions.foldl perform log

theorem Built.after {log : Log} (hlog : log.Built) (actions : List Action) :
    (log.after actions).Built := by
  induction actions generalizing log with
  | nil => exact hlog
  | cons action actions ih =>
    have hfirst : (log.perform action).Built := by
      cases action with
      | push text => exact hlog.push text
      | feed text => exact hlog.feed text
      | finish => exact hlog.finish
    exact ih hfirst

/-! ### Lines are only added -/

/-- A later log has the lines of a log and perhaps more. -/
structure Extends (log later : Log) : Prop where
  size_le : log.size ≤ later.size
  maxDepth_eq : later.maxDepth = log.maxDepth
  line?_eq : ∀ index < log.size, later.line? index = log.line? index

theorem Extends.refl (log : Log) : Extends log log :=
  ⟨Nat.le_refl _, rfl, fun _ _ ↦ rfl⟩

/-- A later log goes on to extend the log, whatever line is added to it and whatever text waits. -/
theorem kept_extends (log : Log) : Kept (Extends log) where
  push later text hextends := by
    have hgrown : log.size ≤ (later.push text).size := by
      rw [size_push]
      exact Nat.le_succ_of_le hextends.size_le
    refine ⟨hgrown, hextends.maxDepth_eq, ?_⟩
    intro index hindex
    have hold : index ≠ later.size := Nat.ne_of_lt (Nat.lt_of_lt_of_le hindex hextends.size_le)
    rw [line?_push, if_neg hold]
    exact hextends.line?_eq index hindex
  pending _ _ hextends := ⟨hextends.size_le, hextends.maxDepth_eq, hextends.line?_eq⟩

theorem extends_after (log : Log) (actions : List Action) : Extends log (log.after actions) := by
  suffices ∀ later, Extends log later → Extends log (later.after actions) from
    this log (.refl log)
  induction actions with
  | nil => exact fun _ hextends ↦ hextends
  | cons action actions ih =>
    intro later hextends
    refine ih (later.perform action) ?_
    cases action with
    | push text => exact (kept_extends log).push later text hextends
    | feed text => exact (kept_extends log).feed later text hextends
    | finish => exact (kept_extends log).finish later hextends

/-! ### The answers about a line -/

/-- A log that agrees with another below a bound is spread over it in place. -/
theorem spread_id {log other : Log} {bound : Nat} (hlog : bound ≤ log.size)
    (hother : bound ≤ other.size) (hlines : ∀ index < bound, other.line? index = log.line? index) :
    Spread id bound log other where
  strictMono := strictMono_id
  bound_le := hlog
  place_le := hother
  line?_place := hlines
  between spot _ hfree := absurd rfl (hfree spot)

variable {log other : Log} (hlog : log.Built) (hother : other.Built) {index : Nat}

include hlog hother

/-- Two logs that agree up to a line answer alike about it. -/
theorem Built.answers_eq (hindex : index < log.size) (hindex' : index < other.size)
    (hlines : ∀ earlier ≤ index, other.line? earlier = log.line? earlier) :
    other.stateAt? index = log.stateAt? index ∧
      ∀ length slot, other.chain length index slot = log.chain length index slot := by
  have hspread : Spread id (index + 1) log other :=
    spread_id hindex hindex' fun earlier hearlier ↦ hlines earlier (Nat.le_of_lt_succ hearlier)
  have hstate := hspread.stateAt?_place hother hlog (Nat.lt_succ_self index)
  have hchain := fun length ↦ hspread.chain_place hother hlog length (Nat.lt_succ_self index)
  rw [funext Machine.rename_id, Option.map_id'] at hstate
  refine ⟨hstate, fun length slot ↦ ?_⟩
  rw [← (log.chain length index slot).map_id]
  exact hchain length slot

omit hlog hother

/-- The answers about a line that has been read are final. Nothing that is done later changes the
line, the state as of it, or the dependencies of a slot at it, followed as far as the log is set to
or to any other length; and any log in which the lines up to it are the same gives these answers. -/
theorem Built.answers_are_final (hlog : log.Built) (hindex : index < log.size) :
    (∀ actions,
      (log.after actions).line? index = log.line? index ∧
      (log.after actions).stateAt? index = log.stateAt? index ∧
      (∀ length slot, (log.after actions).chain length index slot = log.chain length index slot) ∧
      ∀ slot, (log.after actions).dependencies index slot = log.dependencies index slot) ∧
    ∀ other : Log, other.Built →
      (∀ earlier ≤ index, other.line? earlier = log.line? earlier) →
      other.stateAt? index = log.stateAt? index ∧
        ∀ length slot, other.chain length index slot = log.chain length index slot := by
  refine ⟨fun actions ↦ ?_, fun other hother hlines ↦ ?_⟩
  · have hextends := extends_after log actions
    have hlater : index < (log.after actions).size := Nat.lt_of_lt_of_le hindex hextends.size_le
    obtain ⟨hstate, hchain⟩ := hlog.answers_eq (hlog.after actions) hindex hlater
      fun earlier hearlier ↦ hextends.line?_eq earlier (Nat.lt_of_le_of_lt hearlier hindex)
    refine ⟨hextends.line?_eq index hindex, hstate, hchain, fun slot ↦ ?_⟩
    rw [dependencies, hextends.maxDepth_eq]
    exact hchain log.maxDepth slot
  · obtain ⟨line, hline⟩ := line?_isSome hindex
    have hindex' : index < other.size :=
      lt_size_of_line? ((hlines index (Nat.le_refl index)).trans hline)
    exact hlog.answers_eq hother hindex hindex' hlines

/-- Neither a line that overwrites the source of a value nor half a line changes where the value
came from. -/
theorem answers_are_final_callAndReturn :
    callAndReturn.Built ∧ 4 < callAndReturn.size ∧
      (callAndReturn.after [.feed "4: (b7) r6 = 0\n5: (9", .finish]).stateAt? 4 =
        callAndReturn.stateAt? 4 ∧
      (callAndReturn.after [.feed "4: (b7) r6 = 0\n5: (9", .finish]).chain 16 4 (.register 7) =
        callAndReturn.chain 16 4 (.register 7) := by
  have hindex : 4 < callAndReturn.size := by decide +kernel
  obtain ⟨hfinal, -⟩ := built_callAndReturn.answers_are_final hindex
  obtain ⟨-, hstate, hchain, -⟩ := hfinal [.feed "4: (b7) r6 = 0\n5: (9", .finish]
  exact ⟨built_callAndReturn, hindex, hstate, hchain 16 (.register 7)⟩

end Log

end VerifierTrace
