import VerifierTrace.Proofs.Grammar.Shift

/-!
# Blanks before a line and the ends after it

Blanks may stand before a line, and any characters that end lines after it. Neither changes what the
line is read as: the ends are removed, and the blanks are kept in the text of the line and move
every position in what is read by their number (`Line.ofText_indented`).

The blanks are passed before anything else is read, so the rest is read as it would be read from the
beginning, only further along (`Line.readContent_shift`).
-/

set_option autoImplicit false
set_option relaxedAutoImplicit false

namespace VerifierTrace

open Scan

/-- A run of characters that end lines, which may be empty. -/
structure LineEnds where
  text : List Char
  areLineEnds : text.all isLineEnd

/-! ### Blanks -/

namespace Blanks

/-- Every blank is one octet. -/
theorem octets_text (blanks : Blanks) : octets blanks.text = blanks.text.length := by
  obtain ⟨text, hareBlank⟩ := blanks
  induction text with
  | nil => rfl
  | cons c text ih =>
    obtain ⟨hblank, hothers⟩ := Bool.and_eq_true_iff.mp hareBlank
    have hsize : c.utf8Size = 1 := by
      rcases isBlank_iff.mp hblank with rfl | rfl
      · rfl
      · rfl
    rw [octets_cons, hsize, List.length_cons, Nat.add_comm]
    exact congrArg (· + 1) (ih hothers)

/-- No blank ends a line. -/
theorem isLineEnd_getLast? (blanks : Blanks) :
    ∀ c ∈ blanks.text.getLast?, isLineEnd c = false := by
  intro c hc
  have hblank := List.all_eq_true.mp blanks.all_isBlank c (List.mem_of_getLast? hc)
  rcases isBlank_iff.mp hblank with rfl | rfl
  · rfl
  · rfl

end Blanks

/-- Blanks are passed together with those that come after them. -/
theorem Scan.Passes.skipBlanks_eq_skipBlanks {blanks : Blanks} {start stop : Scan}
    (hpasses : Passes blanks.text start stop) : start.skipBlanks = stop.skipBlanks := by
  obtain ⟨others, hothers, havoids⟩ := skipBlanks_eq_iff.mp (rfl : stop.skipBlanks = _)
  have hall : (blanks.text ++ others.text).all isBlank := by
    rw [List.all_append, blanks.all_isBlank, others.all_isBlank]
    rfl
  exact skipBlanks_eq_iff.mpr ⟨⟨_, hall⟩, passes_append.mpr ⟨stop, hpasses, hothers⟩, havoids⟩

/-! ### Ends -/

theorem trimEndWhile_append_of_all {inClass : Char → Bool} (text : List Char) {after : List Char}
    (hafter : after.all inClass) :
    trimEndWhile inClass (text ++ after) = trimEndWhile inClass text := by
  have hreversed : ∀ c ∈ after.reverse, inClass c :=
    fun c hc ↦ List.all_eq_true.mp hafter c (List.mem_reverse.mp hc)
  rw [trimEndWhile, List.reverse_append, List.dropWhile_append_of_pos hreversed, trimEndWhile]

namespace Line

/-- Blanks before a line are kept, and the ends after it are removed. -/
theorem withoutLineEnd_append (blanks : Blanks) (text : String) (ends : LineEnds) :
    withoutLineEnd (String.ofList blanks.text ++ text ++ String.ofList ends.text) =
      String.ofList blanks.text ++ withoutLineEnd text := by
  rw [withoutLineEnd, withoutLineEnd, ← String.ofList_append]
  apply congrArg
  rw [String.toList_append, String.toList_append, String.toList_ofList, String.toList_ofList,
    trimEndWhile_append_of_all _ ends.areLineEnds,
    trimEndWhile_append_of_getLast? blanks.isLineEnd_getLast?]

/-- The line with blanks before it: all its positions are moved by their number. -/
def indent (blanks : Blanks) (line : Line) : Line where
  raw := String.ofList blanks.text ++ line.raw
  content := line.content.shift blanks.text.length

theorem readContent_append (blanks : Blanks) (raw : String) :
    readContent (Scan.ofText (String.ofList blanks.text ++ raw)) =
      readContent ((Scan.ofText raw).shift blanks.text.length) := by
  have hpasses : Passes blanks.text (Scan.ofText (String.ofList blanks.text ++ raw))
      ((Scan.ofText raw).shift blanks.text.length) := by
    rw [Passes, blanks.octets_text]
    exact ⟨by simp [Scan.ofText, Scan.shift], rfl⟩
  rw [readContent, hpasses.skipBlanks_eq_skipBlanks, readContent]

/-- Blanks before a line move the positions in it, and ends after it change nothing. -/
theorem ofText_append (blanks : Blanks) (text : String) (ends : LineEnds) :
    ofText (String.ofList blanks.text ++ text ++ String.ofList ends.text) =
      (ofText text).indent blanks := by
  simp only [ofText, withoutLineEnd_append, readContent_append, readContent_shift]
  cases readContent (Scan.ofText (withoutLineEnd text)) with
  | error error => rfl
  | ok content => rfl

/-- What a line is read as does not depend on the blanks before it and the ends after it, but for
its text, which keeps the blanks, and its positions, which are moved by their number. The slots that
its instruction uses and changes stay the same. -/
theorem ofText_indented (blanks : Blanks) (text : String) (ends : LineEnds) :
    ofText (String.ofList blanks.text ++ text ++ String.ofList ends.text) =
        (ofText text).indent blanks ∧
      ((ofText text).indent blanks).instruction?.map Instruction.reads =
        (ofText text).instruction?.map Instruction.reads ∧
      ((ofText text).indent blanks).instruction?.map Instruction.writes =
        (ofText text).instruction?.map Instruction.writes := by
  have hinstruction : ((ofText text).indent blanks).instruction? =
      (ofText text).instruction?.map (Instruction.shift blanks.text.length) := by
    rw [indent, instruction?, instruction?]
    cases (ofText text).content with
    | instruction read facts => rfl
    | sourceComment span => rfl
    | unrecognized error => rfl
  have hreads : Instruction.reads ∘ Instruction.shift blanks.text.length = Instruction.reads :=
    funext (Instruction.reads_shift _)
  have hwrites : Instruction.writes ∘ Instruction.shift blanks.text.length = Instruction.writes :=
    funext (Instruction.writes_shift _)
  refine ⟨ofText_append blanks text ends, ?_, ?_⟩
  · rw [hinstruction, Option.map_map, hreads]
  · rw [hinstruction, Option.map_map, hwrites]

/-- An indented line without a program counter: the fault is after the blanks. -/
example : ofText "\t x\r\n" = ⟨"\t x", .unrecognized (.fault 2 .missingProgramCounter)⟩ := by
  decide +kernel

end Line

end VerifierTrace
