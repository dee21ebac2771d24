import VerifierTrace.Proofs.Grammar.Jump
import VerifierTrace.Proofs.Grammar.Line

/-!
# The lines that hold jumps

A `JumpLineForm` is the syntax tree of a whole line: a head whose opcode is that of a jump, the jump
in the form that belongs to its operation code, and an ending. `Line.content_ofText_eq_jump_iff`
says that the texts of these trees are all the lines that are read as instructions of the jump
classes, and that what is read from a text is what its tree stands for: the kind of the jump, the
target with its position, the two sides of the comparison, and the facts of the comment.

An exit that is not spelled out has no text, so that the blanks before and after it are one run. The
tree counts them to the head, which keeps the position of the instruction.
-/

set_option autoImplicit false
set_option relaxedAutoImplicit false

namespace VerifierTrace

open Scan

/-- There are no blanks where none comes next. -/
theorem Blanks.text_eq_nil_of_avoids {blanks : Blanks} {start stop : Scan}
    (hpasses : Passes blanks.text start stop) (havoids : start.Avoids isBlank) :
    blanks.text = [] := by
  cases hhead : blanks.text.head? with
  | none => exact List.head?_eq_none_iff.mp hhead
  | some c =>
    have hblank := List.all_eq_true.mp blanks.all_isBlank c (List.mem_of_head? hhead)
    rw [Avoids, hpasses.head? hhead] at havoids
    exact absurd (hblank.symm.trans havoids) (by decide)

namespace JumpForm

/-- No jump begins with a blank, and where it has no text, neither does what follows it. -/
theorem avoids_isBlank (form : JumpForm) {start stop : Scan}
    (hpasses : Passes form.text start stop) (hstop : form.text = [] → stop.Avoids isBlank) :
    start.Avoids isBlank := by
  cases form with
  | call afterCall target => exact hpasses.avoids rfl rfl
  | exit spelled =>
    cases spelled with
    | true => exact hpasses.avoids rfl rfl
    | false =>
      rw [← passes_nil.mp hpasses]
      exact hstop rfl
  | unconditional goto target =>
    obtain ⟨_, hgoto, -⟩ := passes_append.mp hpasses
    exact hgoto.avoids goto.head?_text rfl
  | conditional form => exact hpasses.avoids rfl rfl

/-- An ending lets every jump before it end. -/
theorem ends_of_ending (form : JumpForm) (ending : EndingForm) {start stop : Scan}
    (hpasses : Passes ending.text start stop) (hstop : stop.rest = []) : form.Ends start := by
  obtain ⟨place, hblanks, hcomment⟩ := passes_append.mp hpasses
  have havoids : ∀ inClass : Char → Bool, inClass ';' = false →
      (∀ c, isBlank c → inClass c = false) → start.Avoids inClass :=
    fun inClass hsemicolon hblank ↦
      hblanks.avoids_of_blanks (avoids_of_comment hcomment hstop hsemicolon) hblank
  have htarget : start.Avoids isTargetChar :=
    havoids _ rfl DestinationForm.isTargetChar_eq_false_of_isBlank
  cases form with
  | call afterCall target => exact htarget
  | exit spelled =>
    cases spelled with
    | true => exact havoids _ rfl isWordChar_eq_false_of_isBlank
    | false =>
      have hletter : start.Avoids (· == 'e') := by
        refine havoids _ rfl fun c hblank ↦ ?_
        rcases isBlank_iff.mp hblank with rfl | rfl <;> rfl
      show start.keyword? "exit" = none
      rw [keyword?, literal?_eq_none_of_avoids rfl hletter]
      rfl
  | unconditional goto target => exact htarget
  | conditional form => exact htarget

end JumpForm

/-- The syntax tree of a line with an instruction of the jump classes. -/
structure JumpLineForm where
  head : HeadForm
  isJump : head.opcode.byte.toNat % 8 = 5 ∨ head.opcode.byte.toNat % 8 = 6
  body : JumpForm
  isCode : head.opcode.byte.toNat / 16 ∈ body.codes
  ending : EndingForm
  /-- Around an exit that is not spelled out, the blanks belong to the head. -/
  anchored : body.text = [] → ending.blanks.text = []

namespace JumpLineForm

def text (form : JumpLineForm) : List Char :=
  form.head.text ++ (form.body.text ++ form.ending.text)

/-- The instruction that the line holds. -/
def instruction (form : JumpLineForm) : Instruction where
  pc := some form.head.pc
  opcode := form.head.opcode
  operation := .jump (form.body.jump (octets form.head.text))
  span := ⟨octets form.head.text, octets form.body.text⟩

/-- The facts that the line states. -/
def facts (form : JumpLineForm) : List Fact :=
  form.ending.facts (octets (form.head.text ++ form.body.text))

/-- The tree of `6: (6e) if w3 s> w4 goto pc+3 ; R3=7`. -/
def signedBranch : JumpLineForm where
  head := ⟨.spaces 0, ['6'], rfl, by decide, .spaces 1, .ofOctet 0x6e, .spaces 1⟩
  isJump := by decide
  body := .conditional
    { afterIf := .space
      condition :=
        { left := .ofDigit .low 3
          beforeComparator := .spaces 1
          comparator := .signedGreater
          beforeRight := .spaces 1
          right := .target (.register (.ofDigit .low 4))
          separated := fun _ ↦ by decide }
      beforeGoto := .space
      goto := ⟨.short, .space⟩
      target := ⟨"pc+3".toList, by decide, by decide⟩ }
  isCode := by decide
  ending := ⟨.spaces 1, some " R3=7".toList⟩
  anchored := by decide

/-- The tree of `7: (25) if r5 > 0x2A ll gotol +9`. -/
def numberBranch : JumpLineForm where
  head := ⟨.spaces 0, ['7'], rfl, by decide, .spaces 1, .ofOctet 0x25, .spaces 1⟩
  isJump := by decide
  body := .conditional
    { afterIf := .space
      condition :=
        { left := .ofDigit .whole 5
          beforeComparator := .spaces 1
          comparator := .greater
          beforeRight := .spaces 1
          right := .number ⟨false, ⟨.hexadecimal, ['2', 'A'], rfl, by decide⟩⟩ (some .space)
          separated := fun h ↦ absurd h (by decide) }
      beforeGoto := .space
      goto := ⟨.long, .space⟩
      target := ⟨"+9".toList, by decide, by decide⟩ }
  isCode := by decide
  ending := ⟨.spaces 0, none⟩
  anchored := by decide

/-- The tree of `9: (76) if w6 s>= *(u16 *)(r0 -6) goto out#1`. -/
def referenceBranch : JumpLineForm where
  head := ⟨.spaces 0, ['9'], rfl, by decide, .spaces 1, .ofOctet 0x76, .spaces 1⟩
  isJump := by decide
  body := .conditional
    { afterIf := .space
      condition :=
        { left := .ofDigit .low 6
          beforeComparator := .spaces 1
          comparator := .signedGreaterEqual
          beforeRight := .spaces 1
          right := .target (.reference
            { width := .bits16
              base := .ofDigit .whole 0
              offset := ⟨.minus, ['6'], rfl, by decide⟩
              beforeWidth := .spaces 0
              afterWidth := .spaces 1
              beforeAddress := .spaces 0
              beforeBase := .spaces 0
              beforeOffset := .spaces 1
              afterOffset := .spaces 0 })
          separated := fun _ ↦ by decide }
      beforeGoto := .space
      goto := ⟨.short, .space⟩
      target := ⟨"out#1".toList, by decide, by decide⟩ }
  isCode := by decide
  ending := ⟨.spaces 0, none⟩
  anchored := by decide

end JumpLineForm

namespace Line

/-- A line whose end has been removed is read as an instruction of the jump classes exactly when it
is the text of a syntax tree, and then as the instruction and the facts of the tree. -/
theorem content_ofText_eq_jump_iff (raw : String)
    (hraw : ∀ c ∈ raw.toList.getLast?, isLineEnd c = false) (instruction : Instruction)
    (facts : List Fact) :
    ((ofText raw).content = .instruction instruction facts ∧
        instruction.opcode.instructionClass.isJump = true) ↔
      ∃ form : JumpLineForm, raw.toList = form.text ∧ instruction = form.instruction ∧
        facts = form.facts := by
  rw [content_ofText_eq_instruction_iff, withoutLineEnd_eq_self hraw, readContent_eq_ok_iff]
  constructor
  · rintro ⟨⟨head, ending, place, after, stop, hhead, hplace, hread, hending, hstop, rfl⟩, hclass⟩
    rw [Instruction.opcode_of_read hread] at hclass
    obtain ⟨body, hcode, hbody, -, rfl⟩ := (Instruction.read_eq_ok_iff_of_isJump hclass).mp hread
    have hanchored : body.text = [] → ending.blanks.text = [] := by
      intro hnone
      rw [hnone] at hbody
      rw [← passes_nil.mp hbody] at hplace
      obtain ⟨_, hblanks, -⟩ := passes_append.mp hending
      exact Blanks.text_eq_nil_of_avoids hblanks hplace
    have hall : Passes (head.text ++ (body.text ++ ending.text)) (Scan.ofText raw) stop :=
      passes_append.mpr ⟨place, hhead, passes_append.mpr ⟨after, hbody, hending⟩⟩
    have hoctet := Opcode.isJump_instructionClass_iff.mp hclass
    refine ⟨⟨head, hoctet, body, hcode, ending, hanchored⟩, toList_eq_of_passes hall hstop, ?_, ?_⟩
    · rw [offset_of_passes hhead]
      rfl
    · rw [offset_of_passes (passes_append.mpr ⟨place, hhead, hbody⟩)]
      rfl
  · rintro ⟨form, htext, rfl, rfl⟩
    have hclass := Opcode.isJump_instructionClass_iff.mpr form.isJump
    refine ⟨?_, hclass⟩
    obtain ⟨place, hhead, hrest⟩ := passes_append.mp (passes_of_toList_eq htext)
    obtain ⟨after, hbody, hending⟩ := passes_append.mp hrest
    have hplace : place.Avoids isBlank := by
      refine form.body.avoids_isBlank hbody fun hnone ↦ ?_
      obtain ⟨_, hblanks, hcomment⟩ := passes_append.mp hending
      rw [form.anchored hnone] at hblanks
      rw [← passes_nil.mp hblanks]
      exact avoids_of_comment hcomment rfl rfl
    refine ⟨form.head, form.ending, place, after, _, hhead, hplace, ?_, hending, rfl, ?_⟩
    · refine (Instruction.read_eq_ok_iff_of_isJump hclass).mpr
        ⟨form.body, form.isCode, hbody, form.body.ends_of_ending form.ending hending rfl, ?_⟩
      rw [offset_of_passes hhead]
      rfl
    · rw [offset_of_passes (passes_append.mpr ⟨place, hhead, hbody⟩)]
      rfl

/-- A jump with a register, one with a number and one with a reference on the right side. -/
theorem content_ofText_branches :
    ((∀ c ∈ "6: (6e) if w3 s> w4 goto pc+3 ; R3=7".toList.getLast?, isLineEnd c = false) ∧
      (ofText "6: (6e) if w3 s> w4 goto pc+3 ; R3=7").content =
        .instruction ⟨some 6, ⟨0x6e⟩, .jump ⟨.conditional, "pc+3", some ⟨25, 4⟩,
          some ⟨⟨.register 3, 4, ⟨11, 2⟩⟩, .signedGreater, ⟨.register 4, 4, ⟨17, 2⟩⟩⟩⟩, ⟨8, 21⟩⟩
          JumpLineForm.signedBranch.facts) ∧
    ((∀ c ∈ "7: (25) if r5 > 0x2A ll gotol +9".toList.getLast?, isLineEnd c = false) ∧
      (ofText "7: (25) if r5 > 0x2A ll gotol +9").content =
        .instruction ⟨some 7, ⟨0x25⟩, .jump ⟨.conditional, "+9", some ⟨30, 2⟩,
          some ⟨⟨.register 5, 8, ⟨11, 2⟩⟩, .greater, ⟨.immediate 42, 8, ⟨16, 4⟩⟩⟩⟩, ⟨8, 24⟩⟩ []) ∧
    (∀ c ∈ "9: (76) if w6 s>= *(u16 *)(r0 -6) goto out#1".toList.getLast?, isLineEnd c = false) ∧
      (ofText "9: (76) if w6 s>= *(u16 *)(r0 -6) goto out#1").content =
        .instruction ⟨some 9, ⟨0x76⟩, .jump ⟨.conditional, "out#1", some ⟨39, 5⟩,
          some ⟨⟨.register 6, 4, ⟨11, 2⟩⟩, .signedGreaterEqual,
            ⟨.reference 0 (-6), 2, ⟨18, 15⟩⟩⟩⟩, ⟨8, 36⟩⟩ [] := by
  have hregister : ∀ c ∈ "6: (6e) if w3 s> w4 goto pc+3 ; R3=7".toList.getLast?,
      isLineEnd c = false := by simp [isLineEnd]
  have hnumber : ∀ c ∈ "7: (25) if r5 > 0x2A ll gotol +9".toList.getLast?,
      isLineEnd c = false := by simp [isLineEnd]
  have hreference : ∀ c ∈ "9: (76) if w6 s>= *(u16 *)(r0 -6) goto out#1".toList.getLast?,
      isLineEnd c = false := by simp [isLineEnd]
  refine ⟨⟨hregister, ?_⟩, ⟨hnumber, ?_⟩, hreference, ?_⟩
  · exact ((content_ofText_eq_jump_iff _ hregister _ _).mpr
      ⟨JumpLineForm.signedBranch, by decide, by decide, rfl⟩).1
  · exact ((content_ofText_eq_jump_iff _ hnumber _ _).mpr
      ⟨JumpLineForm.numberBranch, by decide, by decide, rfl⟩).1
  · exact ((content_ofText_eq_jump_iff _ hreference _ _).mpr
      ⟨JumpLineForm.referenceBranch, by decide, by decide, rfl⟩).1

end Line

end VerifierTrace
