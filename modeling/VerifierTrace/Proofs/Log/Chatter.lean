import Mathlib.Data.List.Induction
import VerifierTrace.Proofs.Log.Spread

/-!
# Chatter

Between the instructions the verifier prints comments from the source program, states of its own and
other lines that are no instructions. Such a line may stand anywhere without any effect on what a
log tells of the others: with one more of them every line keeps its state, its chains of
dependencies and its content, and only the indices of the lines behind it are one higher
(`answers_insertIdx`). A line is at `placeAround position` once another stands at that position, and
the log with the additional line is spread over the one without it by these places
(`spread_insertIdx`).
-/

set_option autoImplicit false
set_option relaxedAutoImplicit false

namespace VerifierTrace

theorem Line.instruction?_eq_none_iff {line : Line} :
    line.instruction? = none ↔ line.isInstruction = false := by
  rw [isInstruction, Option.isSome_eq_false_iff, Option.isNone_iff_eq_none]

namespace Log

/-! ### A log of whole lines -/

/-- The log of some lines that are complete. -/
def ofLines (maxDepth : Nat) (lines : List String) : Log :=
  lines.foldl push (.empty maxDepth)

theorem ofLines_concat (maxDepth : Nat) (lines : List String) (text : String) :
    ofLines maxDepth (lines ++ [text]) = (ofLines maxDepth lines).push text :=
  List.foldl_append

theorem built_ofLines (maxDepth : Nat) (lines : List String) : (ofLines maxDepth lines).Built := by
  induction lines using List.reverseRecOn with
  | nil => exact .empty maxDepth
  | append_singleton lines text ih =>
    rw [ofLines_concat]
    exact .push ih text

theorem size_ofLines (maxDepth : Nat) (lines : List String) :
    (ofLines maxDepth lines).size = lines.length := by
  induction lines using List.reverseRecOn with
  | nil => rfl
  | append_singleton lines text ih =>
    rw [ofLines_concat, size_push, ih, List.length_append, List.length_singleton]

theorem line?_ofLines (maxDepth : Nat) (lines : List String) (index : Nat) :
    (ofLines maxDepth lines).line? index = lines[index]?.map Line.ofText := by
  induction lines using List.reverseRecOn with
  | nil => rfl
  | append_singleton lines text ih =>
    rw [ofLines_concat, line?_push, size_ofLines, ih]
    by_cases hindex : index = lines.length
    · rw [if_pos hindex, hindex, List.getElem?_concat_length, Option.map_some]
    · rw [if_neg hindex]
      by_cases hlt : index < lines.length
      · rw [List.getElem?_append_left hlt]
      · rw [List.getElem?_eq_none (by omega),
          List.getElem?_eq_none (by rw [List.length_append, List.length_singleton]; omega)]

/-! ### One more line -/

/-- Where a line stands when there is another one at a position. -/
def placeAround (position index : Nat) : Nat :=
  if index < position then index else index + 1

theorem strictMono_placeAround (position : Nat) : StrictMono (placeAround position) := by
  intro first second hlt
  unfold placeAround
  split
  · split
    · exact hlt
    · omega
  · rw [if_neg (by omega)]
    omega

/-- Only the position itself is no place of another line. -/
theorem exists_placeAround_eq {position spot : Nat} (hspot : spot ≠ position) :
    ∃ index, placeAround position index = spot := by
  by_cases hlt : spot < position
  · exact ⟨spot, if_pos hlt⟩
  · refine ⟨spot - 1, ?_⟩
    rw [placeAround, if_neg (by omega)]
    omega

section Insertion

variable {lines : List String} {position : Nat} (hposition : position ≤ lines.length)
  {inserted : String} (hinserted : (Line.ofText inserted).isInstruction = false) (maxDepth : Nat)

include hposition

theorem placeAround_length : placeAround position lines.length =
    (lines.insertIdx position inserted).length := by
  rw [List.length_insertIdx_of_le_length hposition, placeAround, if_neg (by omega)]

include hinserted

/-- With one more line that is no instruction, the log is spread over the one without it. -/
theorem spread_insertIdx :
    Spread (placeAround position) lines.length (ofLines maxDepth lines)
      (ofLines maxDepth (lines.insertIdx position inserted)) where
  strictMono := strictMono_placeAround position
  bound_le := by rw [size_ofLines]
  place_le := by rw [size_ofLines, placeAround_length hposition]
  line?_place index hindex := by
    rw [line?_ofLines, line?_ofLines, List.getElem?_insertIdx, placeAround]
    by_cases hlt : index < position
    · rw [if_pos hlt, if_pos hlt]
    · rw [if_neg hlt, if_neg (by omega), if_neg (by omega), Nat.add_sub_cancel]
  between spot hspot hfree := by
    have hhere : spot = position := by
      by_contra hother
      obtain ⟨index, hindex⟩ := exists_placeAround_eq hother
      exact hfree index hindex
    rw [instruction?, line?_ofLines, hhere, List.getElem?_insertIdx_self, if_pos hposition,
      Option.map_some, Option.bind_some, Line.instruction?_eq_none_iff]
    exact hinserted

/-- A line that is no instruction may be inserted anywhere. Every other line keeps its content, the
state as of it and its chains of dependencies, except that all line indices in them move with their
lines, and so does the state after the last line. -/
theorem answers_insertIdx :
    (∀ index < lines.length,
      (ofLines maxDepth (lines.insertIdx position inserted)).line? (placeAround position index) =
        (ofLines maxDepth lines).line? index ∧
      (ofLines maxDepth (lines.insertIdx position inserted)).stateAt? (placeAround position index) =
        ((ofLines maxDepth lines).stateAt? index).map (Machine.rename (placeAround position)) ∧
      ∀ length slot,
        (ofLines maxDepth (lines.insertIdx position inserted)).chain length
            (placeAround position index) slot =
          ((ofLines maxDepth lines).chain length index slot).map (placeAround position)) ∧
    (ofLines maxDepth (lines.insertIdx position inserted)).current =
      (ofLines maxDepth lines).current.rename (placeAround position) := by
  have hspread := spread_insertIdx hposition hinserted maxDepth
  have hlog := built_ofLines maxDepth lines
  have hwide := built_ofLines maxDepth (lines.insertIdx position inserted)
  have hsize : (ofLines maxDepth (lines.insertIdx position inserted)).size =
      placeAround position lines.length :=
    (size_ofLines maxDepth _).trans (placeAround_length hposition).symm
  refine ⟨fun index hindex ↦ ⟨hspread.line?_place index hindex,
    hspread.stateAt?_place hwide hlog hindex,
    fun length slot ↦ hspread.chain_place hwide hlog length hindex slot⟩, ?_⟩
  rw [current_eq_before_size, current_eq_before_size, size_ofLines maxDepth lines, hsize]
  exact hspread.before_place hwide hlog (Nat.le_refl _)

end Insertion

/-- The lines of a call that passes an argument on. -/
def passedArgument : List String :=
  ["0: (b7) r1 = 13", "1: (85) call pc+1", "3: (bf) r0 = r1", "4: (95) exit"]

/-- A comment after the call separates neither the argument nor the returned value from its
origin. -/
theorem answers_insertIdx_passedArgument :
    2 ≤ passedArgument.length ∧ (Line.ofText "; return x; @ a.c:3").isInstruction = false ∧
      (ofLines 16 (passedArgument.insertIdx 2 "; return x; @ a.c:3")).chain 16 (placeAround 2 3)
          Slot.returnValue =
        ((ofLines 16 passedArgument).chain 16 3 Slot.returnValue).map (placeAround 2) ∧
      (ofLines 16 (passedArgument.insertIdx 2 "; return x; @ a.c:3")).current =
        (ofLines 16 passedArgument).current.rename (placeAround 2) := by
  have hinserted : (Line.ofText "; return x; @ a.c:3").isInstruction = false := by decide +kernel
  have hposition : 2 ≤ passedArgument.length := by decide
  obtain ⟨hlines, hcurrent⟩ := answers_insertIdx hposition hinserted 16
  obtain ⟨hline, hstate, hchain⟩ := hlines 3 (by decide)
  exact ⟨hposition, hinserted, hchain 16 Slot.returnValue, hcurrent⟩

end Log

end VerifierTrace
