import VerifierTrace.Proofs.Grammar.FactRow
import VerifierTrace.Proofs.Machine.Transition

/-!
# Facts of another frame

The facts of a line are about one frame, the one that the mark before them names or, without a mark,
the outermost one (`Fact.depth_of_mem_read`). A machine takes over the facts that are about the
running frame, and what is written before the comment decides alone which frame that is. So a line
whose mark names another frame leads where its code leads without the comment
(`Machine.next?_of_other_frame`).

A mark is read when its number is below `2 ^ 64`. With a greater one it is a word like any other,
and what follows counts for the outermost frame: no depth is as great as the number, and yet the
facts are taken over (`Machine.next?_of_unread_mark`).
-/

set_option autoImplicit false
set_option relaxedAutoImplicit false

namespace VerifierTrace

open Scan

/-! ### The frame that facts are about -/

namespace Fact

theorem depth_of_ofToken? {depth : Nat} {token : FactToken} {fact : Fact}
    (hfact : ofToken? depth token = some fact) : fact.depth = depth := by
  unfold ofToken? at hfact
  split at hfact
  · cases hfact
  · dsimp only at hfact
    split at hfact
    · cases hfact
    · rw [← Option.some.inj hfact]

/-- All facts of a line are about the frame of its mark, or the outermost one. -/
theorem depth_of_mem_read {start : Scan} {fact : Fact} (hfact : fact ∈ read start) :
    fact.depth = ((frameMark? start.skipBlanks).map Prod.fst).getD 0 := by
  obtain ⟨token, -, hfound⟩ := List.mem_filterMap.mp hfact
  rw [depth_of_ofToken? hfound]
  cases frameMark? start.skipBlanks with
  | none => rfl
  | some mark => rfl

/-- What looks like a mark is one when its number is below `2 ^ 64`. -/
theorem frameMark?_of_passes {digits : List Char} {start stop : Scan}
    (hdigits : digits.all Char.isDigit)
    (hpasses : Passes ("frame".toList ++ (digits ++ ":".toList)) start stop) :
    frameMark? start = (Numeral.decimal? 64 digits).map (·, stop) := by
  obtain ⟨word, hword, hrest⟩ := passes_append.mp hpasses
  obtain ⟨afterDigits, hnumber, hcolon⟩ := passes_append.mp hrest
  have hrun := run_eq_iff.mpr ⟨hdigits, hnumber, hcolon.avoids rfl rfl⟩
  have hliteral : start.literal? "frame" = some word := literal?_eq_some_iff.mpr hword
  have hend : afterDigits.literal? ":" = some stop := literal?_eq_some_iff.mpr hcolon
  simp only [frameMark?, hliteral, hrun, hend, Option.bind_eq_bind, Option.bind_some]
  cases Numeral.decimal? 64 digits with
  | none => rfl
  | some depth => rfl

/-- A comment that begins like a mark states its facts about the frame with the number of the mark,
or about the outermost one when the number is not below `2 ^ 64`. -/
theorem depth_of_mem_read_marked {offset : Nat} {digits rest : List Char} {fact : Fact}
    (hnumber : Numeral.isNumeral Char.isDigit digits)
    (hfact : fact ∈ read ⟨offset, " frame".toList ++ (digits ++ (":".toList ++ rest))⟩) :
    fact.depth =
      if Numeral.ofDigits 10 digits < Numeral.limit 64 then Numeral.ofDigits 10 digits else 0 := by
  let start : Scan := ⟨offset, " frame".toList ++ (digits ++ (":".toList ++ rest))⟩
  obtain ⟨stop, hall⟩ : ∃ stop, Passes ((Blanks.spaces 1).text ++
      ("frame".toList ++ (digits ++ ":".toList))) start stop := by
    refine ⟨⟨_, rest⟩, ?_, rfl⟩
    simp [start, Blanks.spaces]
  obtain ⟨place, hblanks, hmark⟩ := passes_append.mp hall
  have hskip : start.skipBlanks = place := hblanks.skipBlanks_eq (hmark.avoids rfl rfl)
  rw [depth_of_mem_read hfact, hskip, frameMark?_of_passes (Numeral.all_of_isNumeral hnumber) hmark]
  by_cases hsmall : Numeral.ofDigits 10 digits < Numeral.limit 64
  · rw [if_pos hsmall, Numeral.decimal?_eq_some_iff.mpr ⟨hnumber, hsmall, rfl⟩]
    rfl
  · have hnone : Numeral.decimal? 64 digits = none := by simp [Numeral.decimal?, hsmall]
    rw [if_neg hsmall, hnone]
    rfl

end Fact

/-! ### What a machine takes over -/

namespace Machine

variable (machine : Machine) (index : Nat)

/-- A line leads on by what its instruction does and by the program counter, not by where on the
line the instruction stands. -/
theorem advance_congr {first second : Instruction} (hpc : first.pc = second.pc)
    (hoperation : first.operation = second.operation) (facts : List Fact) :
    machine.advance index first facts = machine.advance index second facts := by
  obtain ⟨pc, opcode, operation, span⟩ := first
  obtain ⟨pc', opcode', operation', span'⟩ := second
  obtain rfl : pc = pc' := hpc
  obtain rfl : operation = operation' := hoperation
  rfl

/-- Facts that are all about other frames than the running one change nothing. -/
theorem advance_of_other_frame (instruction : Instruction) {facts : List Fact}
    (hfacts : ∀ fact ∈ facts, fact.depth ≠ (machine.advance index instruction facts).depth) :
    machine.advance index instruction facts = machine.advance index instruction [] := by
  have hnone : facts.filter (fun fact ↦
      fact.depth == ((machine.transfer index instruction).locate index instruction.pc).depth) =
        [] :=
    List.filter_eq_nil_iff.mpr fun fact hmem hsame ↦ hfacts fact hmem (beq_iff_eq.mp hsame)
  rw [advance, learn, hnone]
  rfl

end Machine

/-! ### Lines with a mark -/

/-- A mark and facts after the code of an instruction line leave the program counter and the
operation as they are, and all facts are about one frame. -/
theorem Line.exists_content_ofText_marked {code number : String} (rest : String)
    {instruction : Instruction} {facts : List Fact} (hplain : ';' ∉ code.toList)
    (hend : ∀ c ∈ code.toList.getLast?, isLineEnd c = false)
    (hnumber : Numeral.isNumeral Char.isDigit number.toList)
    (hbare : (ofText code).content = .instruction instruction facts) :
    facts = [] ∧ ∃ instruction' facts',
      (ofText (code ++ " ; frame" ++ number ++ ": " ++ rest)).content =
        .instruction instruction' facts' ∧
      instruction'.pc = instruction.pc ∧ instruction'.operation = instruction.operation ∧
      ∀ fact ∈ facts', fact.depth =
        if Numeral.ofDigits 10 number.toList < Numeral.limit 64 then
          Numeral.ofDigits 10 number.toList
        else 0 := by
  obtain ⟨form, htext, rfl, rfl⟩ := content_ofText_eq_iff_form.mp hbare
  rw [withoutLineEnd_eq_self hend] at htext
  have hnone : form.ending.comment = none := eq_none_of_noSemicolon (htext ▸ hplain)
  have hcode : code.toList = form.code := by
    rw [htext, LineForm.text, hnone, commentText, List.append_nil]
  let comment : List Char := " frame".toList ++
    (number.toList ++ (":".toList ++ trimEndWhile isLineEnd (' ' :: rest.toList)))
  obtain ⟨padded, hpadded, hcomment, hpc, hoperation⟩ :=
    form.exists_padded (.spaces 1) (some comment)
  refine ⟨by rw [LineForm.facts, EndingForm.facts, hnone], padded.instruction, padded.facts,
    content_ofText_eq_iff_form.mpr ⟨padded, ?_, rfl, rfl⟩, hpc, hoperation, ?_⟩
  · have hbefore : ∀ c ∈ ((code.toList ++ (" ; frame".toList ++ number.toList)) ++
        [':']).getLast?, isLineEnd c = false := by
      rw [List.getLast?_concat]
      simp [isLineEnd]
    have hall : (code ++ " ; frame" ++ number ++ ": " ++ rest).toList =
        ((code.toList ++ (" ; frame".toList ++ number.toList)) ++ [':']) ++ ' ' :: rest.toList := by
      simp
    rw [withoutLineEnd, String.toList_ofList, hall, trimEndWhile_append_of_getLast? hbefore,
      LineForm.text, hpadded, hcomment, hcode]
    simp [comment, commentText, Blanks.spaces]
  · intro fact hfact
    rw [LineForm.facts, EndingForm.facts, hcomment] at hfact
    exact Fact.depth_of_mem_read_marked hnumber hfact

namespace Machine

variable (machine : Machine) (index : Nat)

/-- When the frame that runs after an instruction is not the one that the mark of the comment names,
the line leads where the instruction leads without the comment. A mark whose number is not below
`2 ^ 64` counts as one of the outermost frame. -/
theorem next?_of_other_frame (code number rest : String) (hplain : ';' ∉ code.toList)
    (hend : ∀ c ∈ code.toList.getLast?, isLineEnd c = false)
    (hinstruction : (Line.ofText code).isInstruction = true)
    (hnumber : Numeral.isNumeral Char.isDigit number.toList) :
    ∃ next, machine.next? index (Line.ofText (code ++ " ; frame" ++ number ++ ": " ++ rest)) =
        some next ∧
      (next.depth ≠ Numeral.ofDigits 10 number.toList →
        Numeral.ofDigits 10 number.toList < Numeral.limit 64 ∨ next.depth ≠ 0 →
          machine.next? index (Line.ofText code) = some next) := by
  obtain ⟨instruction, hfound⟩ := Option.isSome_iff_exists.mp hinstruction
  have hbare := Line.instruction?_eq_some_iff.mp hfound
  obtain ⟨hnone, instruction', facts', hmarked, hpc, hoperation, hdepth⟩ :=
    Line.exists_content_ofText_marked rest hplain hend hnumber hbare
  refine ⟨machine.advance index instruction' facts', by rw [next?, hmarked], ?_⟩
  intro hother hread
  have hfacts : ∀ fact ∈ facts',
      fact.depth ≠ (machine.advance index instruction' facts').depth := by
    intro fact hfact
    rw [hdepth fact hfact]
    split
    next hsmall => exact hother.symm
    next hgreat => exact (hread.resolve_left hgreat).symm
  rw [next?, hbare, hnone, machine.advance_of_other_frame index instruction' hfacts,
    machine.advance_congr index hpc hoperation]

/-- A fact about the frame of a subprogram, in the line that returns from it. -/
theorem next?_of_other_frame_exit :
    ';' ∉ "6: (95) exit".toList ∧
      (∀ c ∈ "6: (95) exit".toList.getLast?, isLineEnd c = false) ∧
      (Line.ofText "6: (95) exit").isInstruction = true ∧
      Numeral.isNumeral Char.isDigit "1".toList ∧
      ∃ next, (Machine.mk .initial [.initial]).next? 3
          (Line.ofText ("6: (95) exit" ++ " ; frame" ++ "1" ++ ": " ++ "R0=7")) = some next ∧
        next.depth ≠ Numeral.ofDigits 10 "1".toList ∧
        Numeral.ofDigits 10 "1".toList < Numeral.limit 64 ∧
        (Machine.mk .initial [.initial]).next? 3 (Line.ofText "6: (95) exit") = some next := by
  have hplain : ';' ∉ "6: (95) exit".toList := by decide
  have hend : ∀ c ∈ "6: (95) exit".toList.getLast?, isLineEnd c = false := by simp [isLineEnd]
  have hinstruction : (Line.ofText "6: (95) exit").isInstruction = true := by decide +kernel
  have hnumber : Numeral.isNumeral Char.isDigit "1".toList := by decide
  have hsmall : Numeral.ofDigits 10 "1".toList < Numeral.limit 64 := by decide
  obtain ⟨next, hnext, hsame⟩ := next?_of_other_frame (Machine.mk .initial [.initial])
    3 "6: (95) exit" "1" "R0=7" hplain hend hinstruction hnumber
  have hdepth : ((Machine.mk .initial [.initial]).next? 3 (Line.ofText
      ("6: (95) exit" ++ " ; frame" ++ "1" ++ ": " ++ "R0=7"))).map depth = some 0 := by
    decide +kernel
  rw [hnext] at hdepth
  have hother : next.depth ≠ Numeral.ofDigits 10 "1".toList := by
    rw [Option.some.inj hdepth]
    decide
  exact ⟨hplain, hend, hinstruction, hnumber, next, hnext, hother, hsmall,
    hsame hother (Or.inl hsmall)⟩

/-- The condition on the number cannot be dropped. The mark names a frame that is not the running
one, and still the fact behind it is taken over. -/
theorem next?_of_unread_mark :
    ∃ next, initial.next? 0
        (Line.ofText ("0: (b7) r2 = 1" ++ " ; frame" ++ "18446744073709551616" ++ ": " ++ "R2=7")) =
          some next ∧
      next.depth ≠ Numeral.ofDigits 10 "18446744073709551616".toList ∧
      initial.next? 0 (Line.ofText "0: (b7) r2 = 1") ≠ some next := by
  refine ⟨_, rfl, ?_, ?_⟩
  · decide +kernel
  · decide +kernel

end Machine

end VerifierTrace
