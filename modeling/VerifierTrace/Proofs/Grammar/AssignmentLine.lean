import VerifierTrace.Proofs.Grammar.Assignment
import VerifierTrace.Proofs.Grammar.Line

/-!
# The lines that hold assignments

An `AssignmentLineForm` is the syntax tree of a whole line: a head whose opcode lies outside the
jump classes, an assignment, and an ending. `Line.content_ofText_eq_assignment_iff` says that the
texts of these trees are all the lines that are read as assignments, and that what is read from a
text is what its tree stands for: the program counter, the opcode, the operator, the operands with
their values and positions, the modifier and the facts of the comment. Nothing inside such a line is
skipped, and no layout of blanks is refused.
-/

set_option autoImplicit false
set_option relaxedAutoImplicit false

namespace VerifierTrace

open Scan

/-- An ending lets every source before it end. -/
theorem SourceForm.ends_of_ending (source : SourceForm) (ending : EndingForm) {start stop : Scan}
    (hpasses : Passes ending.text start stop) (hstop : stop.rest = []) : source.Ends start := by
  obtain ⟨place, hblanks, hcomment⟩ := passes_append.mp hpasses
  have hword : start.Avoids isWordChar :=
    hblanks.avoids_of_blanks (avoids_of_comment hcomment hstop rfl) isWordChar_eq_false_of_isBlank
  exact source.ends_of_blanks hblanks hword (avoids_of_comment hcomment hstop rfl)
    (avoids_of_comment hcomment hstop rfl)

/-- The syntax tree of a line with an instruction outside the jump classes. -/
structure AssignmentLineForm where
  head : HeadForm
  isAssignment : head.opcode.byte.toNat % 8 ≠ 5 ∧ head.opcode.byte.toNat % 8 ≠ 6
  body : AssignmentForm
  ending : EndingForm

namespace AssignmentLineForm

def text (form : AssignmentLineForm) : List Char :=
  form.head.text ++ (form.body.text ++ form.ending.text)

/-- The instruction that the line holds. -/
def instruction (form : AssignmentLineForm) : Instruction where
  pc := some form.head.pc
  opcode := form.head.opcode
  operation := .assignment (form.body.assignment (octets form.head.text))
  span := ⟨octets form.head.text, octets form.body.text⟩

/-- The facts that the line states. -/
def facts (form : AssignmentLineForm) : List Fact :=
  form.ending.facts (octets (form.head.text ++ form.body.text))

/-- The tree of `12: (db) lock *(u64 *)(r1 +8) += r2 ; R2=7`. -/
def atomicAdd : AssignmentLineForm where
  head := ⟨.spaces 0, ['1', '2'], rfl, by decide, .spaces 1, .ofOctet 0xdb, .spaces 1⟩
  isAssignment := by decide
  body :=
    { lock := some .space
      target := .reference
        { width := .bits64
          base := .ofDigit .whole 1
          offset := ⟨.plus, ['8'], rfl, by decide⟩
          beforeWidth := .spaces 0
          afterWidth := .spaces 1
          beforeAddress := .spaces 0
          beforeBase := .spaces 0
          beforeOffset := .spaces 1
          afterOffset := .spaces 0 }
      beforeOperator := .spaces 1
      operator := .add
      beforeModifier := .spaces 1
      modifier := none
      source := .target (.register (.ofDigit .whole 2))
      separated := fun h ↦ absurd h (by decide)
      negated := fun h ↦ absurd h (by simp) }
  ending := ⟨.spaces 1, some " R2=7".toList⟩

/-- The tree of `13: (dc) r4 = be16 r4`. -/
def swap : AssignmentLineForm where
  head := ⟨.spaces 0, ['1', '3'], rfl, by decide, .spaces 1, .ofOctet 0xdc, .spaces 1⟩
  isAssignment := by decide
  body :=
    { lock := none
      target := .register (.ofDigit .whole 4)
      beforeOperator := .spaces 1
      operator := .assign
      beforeModifier := .spaces 1
      modifier := some (.byteSwap .big .bits16 .space)
      source := .target (.register (.ofDigit .whole 4))
      separated := fun _ h ↦ absurd h (by decide)
      negated := fun h ↦ absurd h (by simp) }
  ending := ⟨.spaces 0, none⟩

/-- The tree of `14: (bf) r5 = (s8)r6`. -/
def extension : AssignmentLineForm where
  head := ⟨.spaces 0, ['1', '4'], rfl, by decide, .spaces 1, .ofOctet 0xbf, .spaces 1⟩
  isAssignment := by decide
  body :=
    { lock := none
      target := .register (.ofDigit .whole 5)
      beforeOperator := .spaces 1
      operator := .assign
      beforeModifier := .spaces 1
      modifier := some (.signExtend .bits8 (.spaces 0))
      source := .target (.register (.ofDigit .whole 6))
      separated := fun _ h ↦ absurd h (by decide)
      negated := fun h ↦ absurd h (by simp) }
  ending := ⟨.spaces 0, none⟩

/-- The tree of `15: (18) r7 = -0XfE ll`. -/
def constant : AssignmentLineForm where
  head := ⟨.spaces 0, ['1', '5'], rfl, by decide, .spaces 1, .ofOctet 0x18, .spaces 1⟩
  isAssignment := by decide
  body :=
    { lock := none
      target := .register (.ofDigit .whole 7)
      beforeOperator := .spaces 1
      operator := .assign
      beforeModifier := .spaces 1
      modifier := none
      source := .number ⟨true, ⟨.upperHexadecimal, ['f', 'E'], rfl, by decide⟩⟩ (some .space)
      separated := fun _ h ↦ absurd h (by decide)
      negated := fun h ↦ absurd h (by simp) }
  ending := ⟨.spaces 0, none⟩

end AssignmentLineForm

namespace Line

/-- A line whose end has been removed is read as an instruction outside the jump classes exactly
when it is the text of a syntax tree, and then as the instruction and the facts of the tree. -/
theorem content_ofText_eq_assignment_iff (raw : String)
    (hraw : ∀ c ∈ raw.toList.getLast?, isLineEnd c = false) (instruction : Instruction)
    (facts : List Fact) :
    ((ofText raw).content = .instruction instruction facts ∧
        instruction.opcode.instructionClass.isJump = false) ↔
      ∃ form : AssignmentLineForm, raw.toList = form.text ∧ instruction = form.instruction ∧
        facts = form.facts := by
  rw [content_ofText_eq_instruction_iff, withoutLineEnd_eq_self hraw, readContent_eq_ok_iff]
  constructor
  · rintro ⟨⟨head, ending, place, after, stop, hhead, -, hread, hending, hstop, rfl⟩, hclass⟩
    rw [Instruction.opcode_of_read hread] at hclass
    obtain ⟨body, hbody, -, rfl⟩ := (Instruction.read_eq_ok_iff hclass).mp hread
    have hall : Passes (head.text ++ (body.text ++ ending.text)) (Scan.ofText raw) stop :=
      passes_append.mpr ⟨place, hhead, passes_append.mpr ⟨after, hbody, hending⟩⟩
    have hoctet := Opcode.isJump_instructionClass_eq_false_iff.mp hclass
    refine ⟨⟨head, hoctet, body, ending⟩, toList_eq_of_passes hall hstop, ?_, ?_⟩
    · rw [offset_of_passes hhead]
      rfl
    · rw [offset_of_passes (passes_append.mpr ⟨place, hhead, hbody⟩)]
      rfl
  · rintro ⟨form, htext, rfl, rfl⟩
    have hclass := Opcode.isJump_instructionClass_eq_false_iff.mpr form.isAssignment
    refine ⟨?_, hclass⟩
    obtain ⟨place, hhead, hrest⟩ := passes_append.mp (passes_of_toList_eq htext)
    obtain ⟨after, hbody, hending⟩ := passes_append.mp hrest
    refine ⟨form.head, form.ending, place, after, _, hhead, form.body.avoids_isBlank hbody, ?_,
      hending, rfl, ?_⟩
    · refine (Instruction.read_eq_ok_iff hclass).mpr ⟨form.body, hbody, ?_, ?_⟩
      · exact form.body.source.ends_of_ending form.ending hending rfl
      · rw [offset_of_passes hhead]
        rfl
    · rw [offset_of_passes (passes_append.mpr ⟨place, hhead, hbody⟩)]
      rfl

/-- An atomic addition, a byte swap, a sign extension and a constant with the word `ll`. -/
theorem content_ofText_swapAndConstant :
    ((∀ c ∈ "12: (db) lock *(u64 *)(r1 +8) += r2 ; R2=7".toList.getLast?, isLineEnd c = false) ∧
      (ofText "12: (db) lock *(u64 *)(r1 +8) += r2 ; R2=7").content =
        .instruction ⟨some 12, ⟨0xdb⟩, .assignment ⟨.add, ⟨.reference 1 8, 8, ⟨14, 15⟩⟩,
          ⟨.register 2, 8, ⟨33, 2⟩⟩, none, true⟩, ⟨9, 26⟩⟩ AssignmentLineForm.atomicAdd.facts) ∧
    ((∀ c ∈ "13: (dc) r4 = be16 r4".toList.getLast?, isLineEnd c = false) ∧
      (ofText "13: (dc) r4 = be16 r4").content =
        .instruction ⟨some 13, ⟨0xdc⟩, .assignment ⟨.assign, ⟨.register 4, 8, ⟨9, 2⟩⟩,
          ⟨.register 4, 8, ⟨19, 2⟩⟩, some (.byteSwap .big 16), false⟩, ⟨9, 12⟩⟩ []) ∧
    ((∀ c ∈ "14: (bf) r5 = (s8)r6".toList.getLast?, isLineEnd c = false) ∧
      (ofText "14: (bf) r5 = (s8)r6").content =
        .instruction ⟨some 14, ⟨0xbf⟩, .assignment ⟨.assign, ⟨.register 5, 8, ⟨9, 2⟩⟩,
          ⟨.register 6, 8, ⟨18, 2⟩⟩, some (.signExtend 8), false⟩, ⟨9, 11⟩⟩ []) ∧
    (∀ c ∈ "15: (18) r7 = -0XfE ll".toList.getLast?, isLineEnd c = false) ∧
      (ofText "15: (18) r7 = -0XfE ll").content =
        .instruction ⟨some 15, ⟨0x18⟩, .assignment ⟨.assign, ⟨.register 7, 8, ⟨9, 2⟩⟩,
          ⟨.immediate (-254), 8, ⟨14, 5⟩⟩, none, false⟩, ⟨9, 13⟩⟩ [] := by
  have hadd : ∀ c ∈ "12: (db) lock *(u64 *)(r1 +8) += r2 ; R2=7".toList.getLast?,
      isLineEnd c = false := by simp [isLineEnd]
  have hswap : ∀ c ∈ "13: (dc) r4 = be16 r4".toList.getLast?, isLineEnd c = false := by
    simp [isLineEnd]
  have hextension : ∀ c ∈ "14: (bf) r5 = (s8)r6".toList.getLast?, isLineEnd c = false := by
    simp [isLineEnd]
  have hconstant : ∀ c ∈ "15: (18) r7 = -0XfE ll".toList.getLast?, isLineEnd c = false := by
    simp [isLineEnd]
  refine ⟨⟨hadd, ?_⟩, ⟨hswap, ?_⟩, ⟨hextension, ?_⟩, hconstant, ?_⟩
  · exact ((content_ofText_eq_assignment_iff _ hadd _ _).mpr
      ⟨AssignmentLineForm.atomicAdd, by decide, by decide, rfl⟩).1
  · exact ((content_ofText_eq_assignment_iff _ hswap _ _).mpr
      ⟨AssignmentLineForm.swap, by decide, by decide, rfl⟩).1
  · exact ((content_ofText_eq_assignment_iff _ hextension _ _).mpr
      ⟨AssignmentLineForm.extension, by decide, by decide, rfl⟩).1
  · exact ((content_ofText_eq_assignment_iff _ hconstant _ _).mpr
      ⟨AssignmentLineForm.constant, by decide, by decide, rfl⟩).1

end Line

end VerifierTrace
