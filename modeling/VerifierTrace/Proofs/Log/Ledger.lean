import VerifierTrace.Proofs.Log.Built

/-!
# Ledgers

A log keeps with every line the state as of that line. A `Ledger` keeps every state once, in the
order in which instructions lead to them, and with every line no more than the place of its state in
that order. The running state stands beside the tables. Lines that are no instructions make the
table of the states shorter than the others, so the answers of a ledger depend on places that stay
aligned.

They do. The ledger of the lines of a log says of every line, and of the running state, what the log
says (`Log.Built.tabulates`). Each line is put into both with one step (`Ledger.Tabulates.push`),
and no place points behind the states that are there, so one more state moves none of the others.
-/

set_option autoImplicit false
set_option relaxedAutoImplicit false

namespace VerifierTrace

structure Ledger where
  lines : Array Line
  /-- The states that the instructions led to. -/
  states : Array Machine
  /-- For every line, the place of the state as of that line. -/
  nearest : Array (Option Nat)
  current : Machine

namespace Log

theorem entries_push (log : Log) (text : String) :
    (log.push text).entries = log.entries.push ⟨Line.ofText text,
      (log.current.next? log.size (Line.ofText text)).or log.latest?⟩ := rfl

theorem latest?_push (log : Log) (text : String) :
    (log.push text).latest? =
      (log.current.next? log.size (Line.ofText text)).or log.latest? := by
  rw [latest?, entries_push, Array.back?_push, Option.bind_some]

end Log

namespace Ledger

def empty : Ledger :=
  ⟨#[], #[], #[], .initial⟩

/-- Puts a line in. A line that leads to no state has the place of the line before it. -/
def push (ledger : Ledger) (line : Line) : Ledger :=
  match ledger.current.next? ledger.lines.size line with
  | some state =>
    let states := ledger.states.push state
    ⟨ledger.lines.push line, states, ledger.nearest.push (some (states.size - 1)), state⟩
  | none =>
    ⟨ledger.lines.push line, ledger.states, ledger.nearest.push ledger.nearest.back?.join,
      ledger.current⟩

/-- The state at a place, if there is one. -/
def placed? (states : Array Machine) (place : Option Nat) : Option Machine :=
  place.bind fun position ↦ states[position]?

/-- The state as of a line. -/
def stateAt? (ledger : Ledger) (index : Nat) : Option Machine :=
  ledger.nearest[index]?.bind (placed? ledger.states)

/-- A ledger that has the lines, the states and the running state of a log. -/
structure Tabulates (ledger : Ledger) (log : Log) : Prop where
  lines : ledger.lines = log.entries.map LogEntry.line
  states : ledger.nearest.map (placed? ledger.states) = log.entries.map LogEntry.state
  current : ledger.current = log.current
  /-- Every place is one of a state that is there. -/
  places : ∀ position, some position ∈ ledger.nearest → position < ledger.states.size

namespace Tabulates

variable {ledger : Ledger} {log : Log}

theorem stateAt?_eq (hledger : ledger.Tabulates log) (index : Nat) :
    ledger.stateAt? index = log.stateAt? index :=
  calc ledger.stateAt? index
    _ = (ledger.nearest.map (placed? ledger.states))[index]?.join := by
        rw [Array.getElem?_map, stateAt?]
        cases ledger.nearest[index]? <;> rfl
    _ = (log.entries.map LogEntry.state)[index]?.join := by rw [hledger.states]
    _ = log.stateAt? index := by
        rw [Array.getElem?_map, Log.stateAt?]
        cases log.entries[index]? <;> rfl

/-- The state at the last place is the last state of the log. -/
theorem placed?_back? (hledger : ledger.Tabulates log) :
    placed? ledger.states ledger.nearest.back?.join = log.latest? :=
  calc placed? ledger.states ledger.nearest.back?.join
    _ = (ledger.nearest.map (placed? ledger.states)).back?.join := by
        rw [Array.back?_map]
        cases ledger.nearest.back? <;> rfl
    _ = (log.entries.map LogEntry.state).back?.join := by rw [hledger.states]
    _ = log.latest? := by
        rw [Array.back?_map, Log.latest?]
        cases log.entries.back? <;> rfl

theorem size_lines (hledger : ledger.Tabulates log) : ledger.lines.size = log.size := by
  rw [hledger.lines, Array.size_map]
  rfl

theorem size_nearest (hledger : ledger.Tabulates log) : ledger.nearest.size = log.size := by
  have hsize := congrArg Array.size hledger.states
  rwa [Array.size_map, Array.size_map] at hsize

/-- One more state moves none of those that have a place. -/
theorem map_placed?_push (hledger : ledger.Tabulates log) (state : Machine) :
    ledger.nearest.map (placed? (ledger.states.push state)) = log.entries.map LogEntry.state := by
  rw [← hledger.states]
  refine Array.map_congr_left fun place hplace ↦ ?_
  cases place with
  | none => rfl
  | some position =>
    have hposition := hledger.places position hplace
    show (ledger.states.push state)[position]? = ledger.states[position]?
    rw [Array.getElem?_push, if_neg (Nat.ne_of_lt hposition)]

/-- One more line is put into a ledger as it is pushed onto a log. -/
theorem push (hledger : ledger.Tabulates log) (text : String) :
    (ledger.push (Line.ofText text)).Tabulates (log.push text) := by
  have hnext : ledger.current.next? ledger.lines.size (Line.ofText text) =
      log.current.next? log.size (Line.ofText text) := by
    rw [hledger.current, hledger.size_lines]
  have hlatest := log.latest?_push text
  have hentries := log.entries_push text
  unfold Ledger.push
  rw [hnext]
  cases hstate : log.current.next? log.size (Line.ofText text) with
  | none =>
    rw [hstate, Option.none_or] at hlatest hentries
    refine ⟨?_, ?_, ?_, ?_⟩
    · rw [hentries, Array.map_push, hledger.lines]
    · rw [hentries, Array.map_push, Array.map_push, hledger.states, hledger.placed?_back?]
    · rw [Log.current, hlatest]
      exact hledger.current
    · intro position hposition
      rcases Array.mem_push.mp hposition with hbefore | hlast
      · exact hledger.places position hbefore
      · refine hledger.places position (Array.mem_of_back? ?_)
        exact Option.join_eq_some_iff.mp hlast.symm
  | some state =>
    rw [hstate, Option.some_or] at hlatest hentries
    have hlast : (ledger.states.push state).size - 1 = ledger.states.size := by
      rw [Array.size_push, Nat.add_sub_cancel]
    refine ⟨?_, ?_, ?_, ?_⟩
    · rw [hentries, Array.map_push, hledger.lines]
    · rw [hentries, Array.map_push, Array.map_push, hledger.map_placed?_push, hlast]
      exact congrArg _ Array.getElem?_push_size
    · rw [Log.current, hlatest]
      rfl
    · intro position hposition
      show position < (ledger.states.push state).size
      rw [Array.size_push]
      rcases Array.mem_push.mp hposition with hbefore | hsame
      · exact Nat.lt_succ_of_lt (hledger.places position hbefore)
      · rw [Option.some.inj hsame, hlast]
        exact Nat.lt_succ_self _

end Tabulates

end Ledger

namespace Log

/-- The ledger of the lines of a log. -/
def ledger (log : Log) : Ledger :=
  (log.entries.map LogEntry.line).foldl Ledger.push .empty

theorem ledger_push (log : Log) (text : String) :
    (log.push text).ledger = log.ledger.push (Line.ofText text) := by
  rw [ledger, Log.push, Array.map_push, Array.foldl_push]
  rfl

theorem Built.tabulates {log : Log} (hlog : log.Built) : log.ledger.Tabulates log := by
  refine hlog.push_induction (motive := fun log ↦ log.ledger.Tabulates log) ?_ ⟨?_, ?_⟩
  · intro maxDepth
    have hempty : (Log.empty maxDepth).ledger = .empty := by simp [Log.ledger, Log.empty]
    rw [hempty]
    refine ⟨?_, ?_, rfl, fun position hposition ↦ absurd hposition (Array.not_mem_empty _)⟩
    · exact Array.map_empty.symm
    · exact Array.map_empty.trans Array.map_empty.symm
  · intro log text hledger
    rw [ledger_push]
    exact hledger.push text
  · intro log pending hledger
    exact ⟨hledger.lines, hledger.states, hledger.current, hledger.places⟩

end Log

end VerifierTrace
