import Mathlib.Order.Monotone.Basic
import VerifierTrace.Proofs.Log.UseDefWalk
import VerifierTrace.Proofs.Machine.Renaming

/-!
# The lines of one log in another

A log is `Spread` over another when its lines stand there in their order, each at a place of its
own, and no instruction stands between them. A log answers every query from the lines up to the one
that is asked for, and a line that is no instruction changes no state; so at its new place a line
has the state that it had, in which every line index is replaced by its place (`stateAt?_place`),
and a chain of dependencies that passes through the same lines (`chain_place`).

The state before a line carries the induction (`stateBefore?_place`): what stands between two lines
leaves it alone, and an instruction changes it in the same way at either place, because the machine
commutes with the renaming of its line indices.
-/

set_option autoImplicit false
set_option relaxedAutoImplicit false

namespace VerifierTrace

namespace Log

/-! ### States -/

/-- The initial machine has no line index, so no renaming changes it. -/
theorem before_eq_of_stateBefore? {place : Nat → Nat} {log wide : Log} {index spot : Nat}
    (hbefore : wide.stateBefore? spot = (log.stateBefore? index).map (Machine.rename place)) :
    wide.before spot = (log.before index).rename place := by
  rw [before, hbefore, before]
  cases log.stateBefore? index with
  | none => exact (Machine.rename_initial place).symm
  | some machine => rfl

/-- The writers that a renamed state tells are the renamed writers. -/
theorem bind_writer_rename (place : Nat → Nat) (state : Option Machine) (slot : Slot) :
    ((state.map (Machine.rename place)).bind fun machine ↦ (machine.frame.cell slot).writer) =
      (state.bind fun machine ↦ (machine.frame.cell slot).writer).map place := by
  cases state with
  | none => rfl
  | some machine =>
    have hcell := machine.frame.cell_rename place slot
    exact congrArg Cell.writer hcell

/-- Lines that are no instructions leave the state as it was before them. -/
theorem Built.stateBefore?_of_none {log : Log} (hlog : log.Built) {first last : Nat}
    (hle : first ≤ last) (hlast : last ≤ log.size)
    (hnone : ∀ index, first ≤ index → index < last → log.instruction? index = none) :
    log.stateBefore? last = log.stateBefore? first := by
  induction last, hle using Nat.le_induction with
  | base => rfl
  | succ last hle ih =>
    calc log.stateBefore? (last + 1)
        = log.stateAt? last := rfl
      _ = log.stateBefore? last :=
        hlog.stateAt?_of_none hlast (hnone last hle (Nat.lt_succ_self last))
      _ = log.stateBefore? first :=
        ih (by omega) fun index hfirst hindex ↦ hnone index hfirst (by omega)

/-! ### The lines at their places -/

/-- The lines of a log below a bound stand in a wide log at their places, in their order, and what
stands between them there is no instruction. -/
structure Spread (place : Nat → Nat) (bound : Nat) (log wide : Log) : Prop where
  strictMono : StrictMono place
  bound_le : bound ≤ log.size
  place_le : place bound ≤ wide.size
  line?_place : ∀ index < bound, wide.line? (place index) = log.line? index
  between : ∀ spot < place bound, (∀ index, place index ≠ spot) → wide.instruction? spot = none

namespace Spread

variable {place : Nat → Nat} {bound : Nat} {log wide : Log} (hspread : Spread place bound log wide)

include hspread

theorem source?_place {index : Nat} (hindex : index < bound) :
    wide.source? (place index) = log.source? index := by
  rw [Log.source?, hspread.line?_place index hindex, Log.source?]

section States

variable (hwide : wide.Built)

include hwide

/-- What stands between two consecutive lines, or before the first, leaves the state alone. -/
theorem stateBefore?_place_of_gap {start index : Nat} (hstart : start ≤ place index)
    (hindex : index ≤ bound) (hbefore : ∀ earlier < index, place earlier < start) :
    wide.stateBefore? (place index) = wide.stateBefore? start := by
  have hplace : place index ≤ place bound := hspread.strictMono.monotone hindex
  refine hwide.stateBefore?_of_none hstart (hplace.trans hspread.place_le) ?_
  intro spot hspot hlt
  refine hspread.between spot (hlt.trans_le hplace) fun other hother ↦ ?_
  have hearlier : other < index := hspread.strictMono.lt_iff_lt.mp (hother ▸ hlt)
  exact Nat.not_lt.mpr hspot (hother ▸ hbefore other hearlier)

variable (hlog : log.Built)

include hlog

/-- A line leads to the same state at its place when it comes upon the same state. -/
theorem stateAt?_of_stateBefore? {index : Nat} (hindex : index < bound)
    (hbefore : wide.stateBefore? (place index) =
      (log.stateBefore? index).map (Machine.rename place)) :
    wide.stateAt? (place index) = (log.stateAt? index).map (Machine.rename place) := by
  obtain ⟨line, hline⟩ := line?_isSome (hindex.trans_le hspread.bound_le)
  have hmachine := before_eq_of_stateBefore? hbefore
  rw [hwide.runs (place index) line ((hspread.line?_place index hindex).trans hline),
    hlog.runs index line hline, hmachine, hbefore, Machine.next?_rename, Option.map_or]

/-- At its place a line comes upon the state that it came upon, with every line index renamed. -/
theorem stateBefore?_place {index : Nat} (hindex : index ≤ bound) :
    wide.stateBefore? (place index) = (log.stateBefore? index).map (Machine.rename place) := by
  induction index with
  | zero =>
    refine hspread.stateBefore?_place_of_gap hwide (Nat.zero_le _) hindex fun earlier hearlier ↦ ?_
    exact absurd hearlier (Nat.not_lt_zero earlier)
  | succ index ih =>
    have hnext : place index + 1 ≤ place (index + 1) := hspread.strictMono (Nat.lt_succ_self index)
    have hlines : ∀ earlier < index + 1, place earlier < place index + 1 := fun earlier hearlier ↦
      Nat.lt_succ_of_le (hspread.strictMono.monotone (Nat.le_of_lt_succ hearlier))
    calc wide.stateBefore? (place (index + 1))
        = wide.stateAt? (place index) := hspread.stateBefore?_place_of_gap hwide hnext hindex hlines
      _ = (log.stateAt? index).map (Machine.rename place) :=
        hspread.stateAt?_of_stateBefore? hwide hlog hindex (ih (Nat.le_of_succ_le hindex))

theorem before_place {index : Nat} (hindex : index ≤ bound) :
    wide.before (place index) = (log.before index).rename place :=
  before_eq_of_stateBefore? (hspread.stateBefore?_place hwide hlog hindex)

theorem stateAt?_place {index : Nat} (hindex : index < bound) :
    wide.stateAt? (place index) = (log.stateAt? index).map (Machine.rename place) :=
  hspread.stateAt?_of_stateBefore? hwide hlog hindex
    (hspread.stateBefore?_place hwide hlog (Nat.le_of_lt hindex))

/-! ### Dependencies -/

theorem writerAt?_place {index : Nat} (hindex : index < bound) (slot : Slot) :
    wide.writerAt? (place index) slot = (log.writerAt? index slot).map place := by
  rw [Log.writerAt?, hspread.stateAt?_place hwide hlog hindex, bind_writer_rename, Log.writerAt?]

theorem writerJustBefore?_place {index : Nat} (hindex : index ≤ bound) (slot : Slot) :
    wide.writerJustBefore? (place index) slot = (log.writerJustBefore? index slot).map place := by
  rw [Log.writerJustBefore?, hspread.stateBefore?_place hwide hlog hindex, bind_writer_rename,
    Log.writerJustBefore?]

/-- Whether a writer is before a line, or is that line, does not change with their places. -/
theorem firstWriter?_place {index : Nat} (hindex : index < bound) (slot : Slot) :
    wide.firstWriter? (place index) slot = (log.firstWriter? index slot).map place := by
  unfold Log.firstWriter?
  rw [hspread.writerAt?_place hwide hlog hindex,
    hspread.writerJustBefore?_place hwide hlog (Nat.le_of_lt hindex)]
  cases log.writerAt? index slot with
  | none => rfl
  | some writer =>
    simp only [Option.map_some, hspread.strictMono.lt_iff_lt, hspread.strictMono.injective.eq_iff]
    split
    · rfl
    · split
      · rfl
      · rfl

/-- A chain of dependencies passes through the same lines at their places. -/
theorem chain_place (length : Nat) {index : Nat} (hindex : index < bound) (slot : Slot) :
    wide.chain length (place index) slot = (log.chain length index slot).map place := by
  induction length generalizing index slot with
  | zero => rfl
  | succ length ih =>
    rw [Log.chain, Log.chain, hwide.writerBefore?_eq_firstWriter?,
      hlog.writerBefore?_eq_firstWriter?, hspread.firstWriter?_place hwide hlog hindex]
    cases hfirst : log.firstWriter? index slot with
    | none => rfl
    | some writer =>
      have hwriter : writer < bound := (hlog.writer_of_firstWriter? hfirst).1.trans hindex
      simp only [Option.map_some, List.map_cons, hspread.source?_place hwriter]
      cases log.source? writer with
      | none => rfl
      | some source => exact congrArg (place writer :: ·) (ih hwriter source)

end States

end Spread

end Log

end VerifierTrace
