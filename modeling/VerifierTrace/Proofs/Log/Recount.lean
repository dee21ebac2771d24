import Mathlib.Order.Bounds.Basic
import VerifierTrace.Proofs.Log.LastWriter

/-!
# The tally as a recount

A log counts its lines as it reads them and never counts again. Whatever led to a log, its tally is
what a recount of its lines and of the states as of them gives (`Built.tally_is_recount`): the
number of lines, the number of each `LineKind`, and the greatest depth of any state, which an exit
takes nothing from. `Log.unrecognized` lists the lines of one kind in the order of their indices.

One more line is counted once, under its own kind. It leads to one more depth when it is an
instruction, and to none that was not there before otherwise, because the state as of it is then
that of the line before.
-/

set_option autoImplicit false
set_option relaxedAutoImplicit false

namespace VerifierTrace

/-- What a line turned out to be. -/
inductive LineKind
  | instruction
  | sourceComment
  | unrecognized
  deriving DecidableEq, Repr

def Line.kind (line : Line) : LineKind :=
  match line.content with
  | .instruction .. => .instruction
  | .sourceComment _ => .sourceComment
  | .unrecognized _ => .unrecognized

theorem Line.kind_eq_unrecognized_iff {line : Line} :
    line.kind = .unrecognized ↔ ∃ error, line.content = .unrecognized error := by
  unfold kind
  cases line.content with
  | instruction instruction facts => simp
  | sourceComment text => simp
  | unrecognized error => simp

theorem Line.error?_eq_some_iff {line : Line} {error : LineError} :
    line.error? = some error ↔ line.content = .unrecognized error := by
  unfold error?
  cases line.content with
  | instruction instruction facts => simp
  | sourceComment text => simp
  | unrecognized found => simp

namespace Tally

/-- The number of lines of a kind. -/
def number (tally : Tally) : LineKind → Nat
  | .instruction => tally.instructions
  | .sourceComment => tally.sourceComments
  | .unrecognized => tally.unrecognized

variable (tally : Tally) (line : Line) (state : Option Machine)

theorem lines_count : (tally.count line state).lines = tally.lines + 1 := by
  unfold count
  cases line.content with
  | instruction instruction facts => rfl
  | sourceComment text => rfl
  | unrecognized error => rfl

/-- A line is counted under its own kind alone. -/
theorem number_count (kind : LineKind) : (tally.count line state).number kind =
    tally.number kind + if line.kind = kind then 1 else 0 := by
  unfold count Line.kind
  cases line.content with
  | instruction instruction facts => cases kind <;> rfl
  | sourceComment text => cases kind <;> rfl
  | unrecognized error => cases kind <;> rfl

theorem deepest_count : (tally.count line state).deepest =
    state.elim tally.deepest fun machine ↦ max tally.deepest machine.depth := by
  unfold count
  cases line.content with
  | instruction instruction facts => rfl
  | sourceComment text => rfl
  | unrecognized error => rfl

end Tally

namespace Log

/-! ### Lines -/

def lines (log : Log) : List Line :=
  log.entries.toList.map LogEntry.line

theorem length_lines (log : Log) : log.lines.length = log.size := by
  rw [lines, List.length_map, Array.length_toList, size]

theorem lines_push (log : Log) (text : String) :
    (log.push text).lines = log.lines ++ [Line.ofText text] := by
  rw [lines, push, Array.toList_push, List.map_append, List.map_singleton, lines]

/-- Every line is of one of the three kinds. -/
theorem length_eq_countP_kind (lines : List Line) :
    lines.countP (·.kind = .instruction) + lines.countP (·.kind = .sourceComment) +
      lines.countP (·.kind = .unrecognized) = lines.length := by
  induction lines with
  | nil => rfl
  | cons line lines ih =>
    have hone : (if line.kind = .instruction then 1 else 0) +
        (if line.kind = .sourceComment then 1 else 0) +
          (if line.kind = .unrecognized then 1 else 0) = 1 := by
      cases line.kind <;> rfl
    simp only [List.countP_cons, List.length_cons, decide_eq_true_eq]
    omega

/-! ### Depths -/

/-- The depths of the states as of all lines. -/
def depths (log : Log) : Set Nat :=
  {depth | ∃ index machine, log.stateAt? index = some machine ∧ machine.depth = depth}

/-- The state that a line would come upon is that of a line before. -/
theorem depth_latest?_mem {log : Log} {machine : Machine} (hlatest : log.latest? = some machine) :
    machine.depth ∈ log.depths := by
  rw [← stateBefore?_size] at hlatest
  cases hsize : log.size with
  | zero =>
    rw [hsize] at hlatest
    cases hlatest
  | succ index =>
    rw [hsize] at hlatest
    exact ⟨index, machine, hlatest, rfl⟩

/-- A line adds the depth of the state that it leads to, and no other. -/
theorem depths_push (log : Log) (text : String) : (log.push text).depths =
    (log.current.next? log.size (Line.ofText text)).elim log.depths
      fun machine ↦ insert machine.depth log.depths := by
  have hnew : ∀ machine, (log.push text).stateAt? log.size = some machine ↔
      (log.current.next? log.size (Line.ofText text)).or log.latest? = some machine := by
    intro machine
    rw [stateAt?_push, if_pos rfl]
  have hold : ∀ index ≠ log.size, (log.push text).stateAt? index = log.stateAt? index := by
    intro index hindex
    rw [stateAt?_push, if_neg hindex]
  have hkept : ∀ depth ∈ log.depths, depth ∈ (log.push text).depths := by
    rintro depth ⟨index, machine, hmachine, rfl⟩
    have hindex : index ≠ log.size := by
      rintro rfl
      rw [stateAt?, size, Array.getElem?_eq_none (Nat.le_refl _)] at hmachine
      cases hmachine
    exact ⟨index, machine, (hold index hindex).trans hmachine, rfl⟩
  ext depth
  cases hnext : log.current.next? log.size (Line.ofText text) with
  | none =>
    refine ⟨?_, hkept depth⟩
    rintro ⟨index, machine, hmachine, rfl⟩
    by_cases hindex : index = log.size
    · rw [hindex, hnew, hnext, Option.none_or] at hmachine
      exact depth_latest?_mem hmachine
    · rw [hold index hindex] at hmachine
      exact ⟨index, machine, hmachine, rfl⟩
  | some next =>
    constructor
    · rintro ⟨index, machine, hmachine, rfl⟩
      by_cases hindex : index = log.size
      · rw [hindex, hnew, hnext, Option.some_or] at hmachine
        exact .inl (congrArg Machine.depth (Option.some.inj hmachine).symm)
      · rw [hold index hindex] at hmachine
        exact .inr ⟨index, machine, hmachine, rfl⟩
    · rintro (rfl | hdepth)
      · exact ⟨log.size, next, (hnew next).mpr (by rw [hnext, Option.some_or]), rfl⟩
      · exact hkept depth hdepth

/-! ### The recount -/

/-- The tally is what counting all lines gives. -/
structure Recounted (log : Log) : Prop where
  lines : log.tally.lines = log.size
  number : ∀ kind, log.tally.number kind = log.lines.countP (·.kind = kind)
  deepest : IsGreatest (insert 0 log.depths) log.tally.deepest

theorem recounted_empty (maxDepth : Nat) : (Log.empty maxDepth).Recounted where
  lines := rfl
  number kind := by cases kind <;> rfl
  deepest := by
    have hnone : (Log.empty maxDepth).depths = ∅ := by
      ext depth
      simp [depths, stateAt?, Log.empty]
    rw [hnone, insert_empty_eq]
    exact isGreatest_singleton

theorem Recounted.push {log : Log} (hlog : log.Recounted) (text : String) :
    (log.push text).Recounted where
  lines := by
    rw [size_push, ← hlog.lines]
    exact Tally.lines_count _ _ _
  number kind := by
    rw [lines_push, List.countP_append, List.countP_singleton, ← hlog.number kind, Log.push,
      Tally.number_count]
    simp only [decide_eq_true_eq]
  deepest := by
    have hdeepest : (log.push text).tally.deepest = _ := Tally.deepest_count _ _ _
    rw [hdeepest, depths_push]
    cases log.current.next? log.size (Line.ofText text) with
    | none => exact hlog.deepest
    | some machine =>
      rw [Option.elim_some, Option.elim_some, Set.insert_comm, max_comm]
      exact hlog.deepest.insert machine.depth

theorem Built.recounted {log : Log} (hlog : log.Built) : log.Recounted := by
  refine hlog.push_induction recounted_empty ⟨?_, ?_⟩
  · intro log text hrecounted
    exact hrecounted.push text
  · intro log pending hrecounted
    exact ⟨hrecounted.lines, hrecounted.number, hrecounted.deepest⟩

/-! ### The lines that were not recognized -/

theorem mem_unrecognized_iff {log : Log} {index : Nat} {line : Line} {error : LineError} :
    (index, line, error) ∈ log.unrecognized ↔
      log.line? index = some line ∧ line.content = .unrecognized error := by
  simp only [unrecognized, List.mem_filterMap, List.mem_zipIdx_iff_getElem?, Option.map_eq_some_iff,
    Prod.exists, Prod.mk.injEq, line?, Array.getElem?_toList]
  constructor
  · rintro ⟨entry, place, hentry, found, herror, rfl, rfl, rfl⟩
    exact ⟨⟨entry, hentry, rfl⟩, Line.error?_eq_some_iff.mp herror⟩
  · rintro ⟨⟨entry, hentry, rfl⟩, hcontent⟩
    exact ⟨entry, index, hentry, error, Line.error?_eq_some_iff.mpr hcontent, rfl, rfl, rfl⟩

/-- The unrecognized lines are listed in the order of their indices. -/
theorem pairwise_unrecognized (log : Log) :
    log.unrecognized.Pairwise fun first second ↦ first.1 < second.1 := by
  have hindices : log.entries.toList.zipIdx.Pairwise fun first second ↦ first.2 < second.2 := by
    rw [← List.pairwise_map (f := Prod.snd), List.zipIdx_map_snd]
    exact List.pairwise_lt_range'
  rw [unrecognized, List.pairwise_filterMap]
  refine hindices.imp fun hlt first hfirst second hsecond ↦ ?_
  obtain ⟨_, -, rfl⟩ := Option.map_eq_some_iff.mp hfirst
  obtain ⟨_, -, rfl⟩ := Option.map_eq_some_iff.mp hsecond
  exact hlt

/-- The tally of a log is a recount of it: of its lines, of those of each kind, which are all of its
lines together, and of the greatest depth of a state as of any line, or zero when there is no state.
The lines that were not recognized are listed in increasing order, each with its index and its
error, and no other line is. -/
theorem Built.tally_is_recount {log : Log} (hlog : log.Built) :
    log.tally.lines = log.size ∧
    (∀ kind, log.tally.number kind = log.lines.countP (·.kind = kind)) ∧
    log.tally.instructions + log.tally.sourceComments + log.tally.unrecognized =
      log.tally.lines ∧
    (IsGreatest log.depths log.tally.deepest ∨ log.depths = ∅ ∧ log.tally.deepest = 0) ∧
    (log.unrecognized.Pairwise fun first second ↦ first.1 < second.1) ∧
    (∀ index line error, (index, line, error) ∈ log.unrecognized ↔
      log.line? index = some line ∧ line.content = .unrecognized error) ∧
    ∀ index line, log.line? index = some line →
      (line.kind = .unrecognized ↔ ∃ error, (index, line, error) ∈ log.unrecognized) := by
  have hrecounted := hlog.recounted
  refine ⟨hrecounted.lines, hrecounted.number, ?_, ?_, log.pairwise_unrecognized,
    fun index line error ↦ mem_unrecognized_iff, fun index line hline ↦ ?_⟩
  · have hkinds := length_eq_countP_kind log.lines
    rw [← hrecounted.number, ← hrecounted.number, ← hrecounted.number, length_lines,
      ← hrecounted.lines] at hkinds
    exact hkinds
  · obtain ⟨hmember, hbound⟩ := hrecounted.deepest
    rcases hmember with hzero | hdepth
    · rcases Set.eq_empty_or_nonempty log.depths with hnone | ⟨depth, hdepth⟩
      · exact .inr ⟨hnone, hzero⟩
      · have hle : depth ≤ log.tally.deepest := hbound (.inr hdepth)
        obtain rfl : depth = log.tally.deepest := by omega
        exact .inl ⟨hdepth, fun other hother ↦ hbound (.inr hother)⟩
    · exact .inl ⟨hdepth, fun other hother ↦ hbound (.inr hother)⟩
  · rw [Line.kind_eq_unrecognized_iff]
    exact exists_congr fun error ↦ ⟨fun hcontent ↦ mem_unrecognized_iff.mpr ⟨hline, hcontent⟩,
      fun hmember ↦ (mem_unrecognized_iff.mp hmember).2⟩

/-- The called function has returned, and its depth is still the greatest. -/
theorem tally_is_recount_callAndReturn :
    (callAndReturn.feed "processed 7 insns\n").Built ∧
      (callAndReturn.feed "processed 7 insns\n").tally = ⟨8, 6, 1, 1, 1⟩ ∧
      (callAndReturn.feed "processed 7 insns\n").current.depth = 0 ∧
      IsGreatest (callAndReturn.feed "processed 7 insns\n").depths 1 := by
  have hbuilt : (callAndReturn.feed "processed 7 insns\n").Built := .feed built_callAndReturn _
  have htally : (callAndReturn.feed "processed 7 insns\n").tally = ⟨8, 6, 1, 1, 1⟩ := by
    decide +kernel
  refine ⟨hbuilt, htally, by decide +kernel, ?_⟩
  obtain ⟨-, -, -, hdeepest | ⟨-, hzero⟩, -⟩ := Built.tally_is_recount hbuilt
  · rwa [htally] at hdeepest
  · rw [htally] at hzero
    cases hzero

end Log

end VerifierTrace
