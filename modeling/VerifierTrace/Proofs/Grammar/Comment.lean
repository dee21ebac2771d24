import VerifierTrace.Proofs.Grammar.InstructionLine

/-!
# Comments on instruction lines

An instruction line is its code and perhaps a semicolon and a comment. There is no semicolon in
code, so it ends at the first one of the line. It decides alone which instruction is read, for the
line is still the text of a syntax tree when another comment stands after it (`Line.exists_code`).

`Line.instruction?_ofText_comment` says this of whole lines. A comment that is put after a text
neither makes an instruction of it nor unmakes one, and changes nothing of the instruction. It is
the one source of the facts of the line, which are read from the octet after the semicolon.
-/

set_option autoImplicit false
set_option relaxedAutoImplicit false

namespace VerifierTrace

open Scan

/-! ### Texts without a semicolon -/

def NoSemicolon (text : List Char) : Prop :=
  ';' ∉ text

instance (text : List Char) : Decidable (NoSemicolon text) :=
  inferInstanceAs (Decidable (';' ∉ text))

theorem noSemicolon_append {first second : List Char} :
    NoSemicolon (first ++ second) ↔ NoSemicolon first ∧ NoSemicolon second := by
  rw [NoSemicolon, List.mem_append, not_or]
  rfl

theorem IsCode.noSemicolon {text : List Char} (hcode : IsCode text) : NoSemicolon text :=
  hcode.semicolon_not_mem

/-! ### The code of a line -/

/-- The facts that are read from what follows the code of a line. -/
def factsAfter (code : List Char) : Option (List Char) → List Fact
  | none => []
  | some comment => Fact.read ⟨octets (code ++ [';']), comment⟩

theorem EndingForm.facts_eq_factsAfter (text : List Char) (blanks : Blanks)
    (comment : Option (List Char)) :
    EndingForm.facts ⟨blanks, comment⟩ (octets text) = factsAfter (text ++ blanks.text) comment := by
  cases comment with
  | none => rfl
  | some comment =>
    rw [EndingForm.facts, factsAfter, List.append_assoc, octets_append text]

/-- A position after a text is where the rest begins. -/
theorem Scan.seek_octets_append (passed rest : List Char) :
    seek (octets passed) 0 (passed ++ rest) = ⟨octets passed, rest⟩ := by
  suffices ∀ offset, seek (offset + octets passed) offset (passed ++ rest) =
      ⟨offset + octets passed, rest⟩ by
    simpa using this 0
  induction passed with
  | nil =>
    intro offset
    cases rest with
    | nil => rfl
    | cons c rest => simp [seek]
  | cons c passed ih =>
    intro offset
    have hpositive : 0 < c.utf8Size := c.utf8Size_pos
    rw [List.cons_append, seek, if_neg (by rw [octets_cons]; omega), octets_cons, ← Nat.add_assoc]
    exact ih (offset + c.utf8Size)

namespace Line

/-- The code of an instruction line has no semicolon in it, and with any comment after it, or with
none, it is read as the same instruction. -/
theorem exists_code {raw : String} {instruction : Instruction} {facts : List Fact}
    (hread : readContent (Scan.ofText raw) = .ok (.instruction instruction facts)) :
    ∃ code comment, raw.toList = code ++ commentText comment ∧ NoSemicolon code ∧
      ∀ (raw' : String) (comment' : Option (List Char)),
        raw'.toList = code ++ commentText comment' →
          readContent (Scan.ofText raw') =
            .ok (.instruction instruction (factsAfter code comment')) := by
  obtain ⟨form, htext, rfl, -⟩ := readContent_eq_ok_iff_form.mp hread
  refine ⟨form.code, form.ending.comment, htext, form.isCode.noSemicolon, ?_⟩
  intro raw' comment' hraw'
  let form' : LineForm := { form with ending := ⟨form.ending.blanks, comment'⟩ }
  refine readContent_eq_ok_iff_form.mpr ⟨form', hraw', rfl, ?_⟩
  rw [LineForm.facts, EndingForm.facts_eq_factsAfter, LineForm.code, List.append_assoc]

/-! ### Lines with a comment -/

theorem eq_none_of_noSemicolon {code : List Char} {comment : Option (List Char)}
    (hplain : NoSemicolon (code ++ commentText comment)) : comment = none := by
  cases comment with
  | none => rfl
  | some comment => exact absurd (List.mem_append_right code List.mem_cons_self) hplain

/-- The first semicolon of a text is where its comment begins. -/
theorem eq_of_append_commentText {before code comment : List Char} {found : Option (List Char)}
    (hbefore : NoSemicolon before) (hcode : NoSemicolon code)
    (hsame : before ++ commentText (some comment) = code ++ commentText found) :
    code = before := by
  have hends : ∀ {text : List Char} (rest : List Char), NoSemicolon text →
      (text ++ ';' :: rest).takeWhile (· != ';') = text := by
    intro text rest htext
    have hall : ∀ c ∈ text, (c != ';') = true := by
      intro c hc
      exact bne_iff_ne.mpr fun hsemicolon ↦ htext (hsemicolon ▸ hc)
    rw [List.takeWhile_append_of_pos hall, List.takeWhile_cons_of_neg (by decide), List.append_nil]
  cases found with
  | none =>
    have hplain : NoSemicolon (before ++ commentText (some comment)) := by
      rw [hsame]
      exact noSemicolon_append.mpr ⟨hcode, List.not_mem_nil⟩
    cases eq_none_of_noSemicolon hplain
  | some found =>
    rw [← hends found hcode, ← hends comment hbefore]
    exact congrArg _ hsame.symm

/-- The end of a line is removed from its comment. -/
theorem toList_withoutLineEnd (before comment : String) :
    (withoutLineEnd (before ++ ";" ++ comment)).toList =
      before.toList ++ commentText (some (trimEndWhile isLineEnd comment.toList)) := by
  have htext : (before ++ ";" ++ comment).toList = (before.toList ++ [';']) ++ comment.toList := by
    simp
  have hsemicolon : ∀ c ∈ (before.toList ++ [';']).getLast?, isLineEnd c = false := by
    simp [isLineEnd]
  rw [withoutLineEnd, String.toList_ofList, htext, trimEndWhile_append_of_getLast? hsemicolon,
    List.append_assoc, commentText]

/-- The facts of a comment are read from the octet after its semicolon. -/
theorem readFrom_eq_factsAfter {raw : String} {before comment : List Char}
    (hraw : raw.toList = before ++ commentText (some comment)) :
    Fact.readFrom raw (octets before + 1) = factsAfter before (some comment) := by
  have hsemicolon : octets before + 1 = octets (before ++ [';']) := by
    rw [octets_append]
    rfl
  have htext : raw.toList = (before ++ [';']) ++ comment := by
    rw [hraw, commentText, List.append_assoc]
  rw [Fact.readFrom, hsemicolon, htext, Scan.seek_octets_append, factsAfter]

theorem instruction?_eq_some_iff {line : Line} {instruction : Instruction} :
    line.instruction? = some instruction ↔
      line.content = .instruction instruction line.facts := by
  obtain ⟨raw, content⟩ := line
  cases content with
  | instruction instruction' facts => simp [instruction?, Line.facts]
  | sourceComment text => simp [instruction?]
  | unrecognized error => simp [instruction?]

theorem facts_eq_nil_of_instruction?_eq_none {line : Line} (hnone : line.instruction? = none) :
    line.facts = [] := by
  obtain ⟨raw, content⟩ := line
  cases content with
  | instruction instruction facts => cases hnone
  | sourceComment text => rfl
  | unrecognized error => rfl

theorem raw_ofText (text : String) : (ofText text).raw = withoutLineEnd text := by
  simp only [ofText]
  split
  next => rfl
  next => rfl

section Commented

variable {before : String} (comment : String) {instruction : Instruction} {facts : List Fact}

/-- A comment leaves an instruction before it as it is. -/
theorem content_ofText_with_comment (hplain : ';' ∉ before.toList)
    (hend : ∀ c ∈ before.toList.getLast?, isLineEnd c = false)
    (hbare : (ofText before).content = .instruction instruction facts) :
    facts = [] ∧ (ofText (before ++ ";" ++ comment)).content = .instruction instruction
      (factsAfter before.toList (some (trimEndWhile isLineEnd comment.toList))) := by
  have hread := content_ofText_eq_instruction_iff.mp hbare
  rw [withoutLineEnd_eq_self hend] at hread
  obtain ⟨code, found, hcode, -, hsame⟩ := exists_code hread
  obtain rfl : found = none := eq_none_of_noSemicolon (hcode ▸ hplain)
  obtain rfl : code = before.toList := by rw [hcode, commentText, List.append_nil]
  have hnone := hsame before none hcode
  rw [hread] at hnone
  refine ⟨(LineContent.instruction.inj (Except.ok.inj hnone)).2, ?_⟩
  exact content_ofText_eq_instruction_iff.mpr (hsame _ _ (toList_withoutLineEnd before comment))

/-- An instruction before a comment stands there without the comment as well. -/
theorem content_ofText_without_comment (hplain : ';' ∉ before.toList)
    (hend : ∀ c ∈ before.toList.getLast?, isLineEnd c = false)
    (hcommented : (ofText (before ++ ";" ++ comment)).content = .instruction instruction facts) :
    (ofText before).content = .instruction instruction [] := by
  have hread := content_ofText_eq_instruction_iff.mp hcommented
  obtain ⟨code, found, hcode, hcodePlain, hsame⟩ := exists_code hread
  rw [toList_withoutLineEnd] at hcode
  obtain rfl : code = before.toList := eq_of_append_commentText hplain hcodePlain hcode
  have hbare := hsame before none (List.append_nil _).symm
  rw [← withoutLineEnd_eq_self hend] at hbare
  exact content_ofText_eq_instruction_iff.mpr hbare

end Commented

/-- A comment that is put after a text does not change whether the text is an instruction, nor
which one it is. The text alone states no facts, and with the comment the facts of the line are
those that are read from the octet after the semicolon. -/
theorem instruction?_ofText_comment (before comment : String) (hplain : ';' ∉ before.toList)
    (hend : ∀ c ∈ before.toList.getLast?, isLineEnd c = false) :
    ((ofText (before ++ ";" ++ comment)).isInstruction = true ↔
        (ofText before).isInstruction = true) ∧
      (ofText (before ++ ";" ++ comment)).instruction? = (ofText before).instruction? ∧
      (ofText before).facts = [] ∧
      ((ofText before).isInstruction = true →
        (ofText (before ++ ";" ++ comment)).facts =
          Fact.readFrom (ofText (before ++ ";" ++ comment)).raw (before.utf8ByteSize + 1)) := by
  have hinstruction : (ofText (before ++ ";" ++ comment)).instruction? =
      (ofText before).instruction? := by
    refine Option.ext fun instruction ↦ ?_
    constructor
    · intro hcommented
      have hbare := content_ofText_without_comment comment hplain hend
        (instruction?_eq_some_iff.mp hcommented)
      rw [instruction?, hbare]
    · intro hbare
      have hcommented := content_ofText_with_comment comment hplain hend
        (instruction?_eq_some_iff.mp hbare)
      rw [instruction?, hcommented.2]
  refine ⟨by rw [isInstruction, isInstruction, hinstruction], hinstruction, ?_, ?_⟩
  · cases hbare : (ofText before).instruction? with
    | none => exact facts_eq_nil_of_instruction?_eq_none hbare
    | some instruction =>
      exact (content_ofText_with_comment comment hplain hend
        (instruction?_eq_some_iff.mp hbare)).1
  · intro hisInstruction
    obtain ⟨instruction, hbare⟩ := Option.isSome_iff_exists.mp hisInstruction
    have hcommented := content_ofText_with_comment comment hplain hend
      (instruction?_eq_some_iff.mp hbare)
    rw [raw_ofText, ← octets_toList, readFrom_eq_factsAfter (toList_withoutLineEnd before comment),
      Line.facts, hcommented.2]

/-- The comment may hold another semicolon and what looks like an instruction. -/
theorem instruction?_ofText_comment_store :
    ';' ∉ "7: (7b) *(u64 *)(r10 -8) = r1 ".toList ∧
      (∀ c ∈ "7: (7b) *(u64 *)(r10 -8) = r1 ".toList.getLast?, isLineEnd c = false) ∧
      (ofText "7: (7b) *(u64 *)(r10 -8) = r1 ").isInstruction = true ∧
      (ofText ("7: (7b) *(u64 *)(r10 -8) = r1 " ++ ";" ++ " fp-8_w=1 ; r1 = 2")).instruction? =
        (ofText "7: (7b) *(u64 *)(r10 -8) = r1 ").instruction? ∧
      (ofText ("7: (7b) *(u64 *)(r10 -8) = r1 " ++ ";" ++ " fp-8_w=1 ; r1 = 2")).facts =
        Fact.readFrom
          (ofText ("7: (7b) *(u64 *)(r10 -8) = r1 " ++ ";" ++ " fp-8_w=1 ; r1 = 2")).raw
          ("7: (7b) *(u64 *)(r10 -8) = r1 ".utf8ByteSize + 1) := by
  have hplain : ';' ∉ "7: (7b) *(u64 *)(r10 -8) = r1 ".toList := by decide
  have hend : ∀ c ∈ "7: (7b) *(u64 *)(r10 -8) = r1 ".toList.getLast?, isLineEnd c = false := by
    simp [isLineEnd]
  have hinstruction : (ofText "7: (7b) *(u64 *)(r10 -8) = r1 ").isInstruction = true := by
    decide +kernel
  obtain ⟨-, hsame, -, hfacts⟩ :=
    instruction?_ofText_comment "7: (7b) *(u64 *)(r10 -8) = r1 " " fp-8_w=1 ; r1 = 2" hplain hend
  exact ⟨hplain, hend, hinstruction, hsame, hfacts hinstruction⟩

end Line

end VerifierTrace
