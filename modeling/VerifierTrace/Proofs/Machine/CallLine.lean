import VerifierTrace.Proofs.Grammar.InstructionLine
import VerifierTrace.Proofs.Machine.Transition

/-!
# Calls

A `CallLineForm` is the syntax tree of a line with a call. The text of its target decides what is
called: an offset from the program counter such as `pc+3` is a subprogram, for which a frame is
opened on top of the machine as it was, and any other target is a helper, for which none is. The
line leads there from every machine (`Machine.next?_of_call_line`).

The digits of an offset may be of any number, with zeros in front, as long as the value is an
integer of 64 bits. Digits of a greater value only look like an offset: what they call counts as a
helper, and no frame is opened (`Machine.next?_of_great_offset`).
-/

set_option autoImplicit false
set_option relaxedAutoImplicit false

namespace VerifierTrace

open Scan

/-! ### The targets of calls -/

namespace DestinationForm

/-- The target is written like an offset from the program counter: a sign and digits after `pc`. -/
def LooksLikeOffset (target : DestinationForm) : Prop :=
  ∃ (sign : Sign) (digits : List Char), Numeral.isNumeral Char.isDigit digits ∧
    target.text = "pc".toList ++ sign.character :: digits

/-- The target is written like an offset, and the offset is an integer of 64 bits. -/
def IsOffset (target : DestinationForm) : Prop :=
  ∃ offset : SignedForm 64, target.text = "pc".toList ++ offset.text

variable {target : DestinationForm}

theorem IsOffset.looksLikeOffset (hoffset : target.IsOffset) : target.LooksLikeOffset := by
  obtain ⟨offset, htext⟩ := hoffset
  exact ⟨offset.sign, offset.digits, offset.isNumeral, htext⟩

theorem isSome_pcOffset?_iff : (pcOffset? target.name).isSome ↔ target.IsOffset := by
  rw [pcOffset?, name, String.toList_ofList]
  constructor
  · intro hsome
    split at hsome
    next digits htext =>
      obtain ⟨value, hvalue⟩ := Option.isSome_iff_exists.mp hsome
      obtain ⟨offset, rfl, -⟩ := SignedForm.signed?_eq_some_iff.mp hvalue
      exact ⟨offset, htext⟩
    next => cases hsome
  · rintro ⟨offset, htext⟩
    have hvalue := SignedForm.signed?_eq_some_iff.mpr ⟨offset, rfl, rfl⟩
    rw [htext]
    exact Option.isSome_iff_exists.mpr ⟨offset.value, hvalue⟩

end DestinationForm

/-! ### Lines with a call -/

/-- The syntax tree of a line with a call. -/
structure CallLineForm where
  head : HeadForm
  isJump : head.opcode.instructionClass.isJump = true
  isCall : head.opcode.code = JumpOperation.call.code
  afterCall : Gap
  target : DestinationForm
  ending : EndingForm

namespace CallLineForm

/-- The line as one with an instruction. -/
def line (form : CallLineForm) : LineForm where
  head := form.head
  body := .jump (.call form.afterCall form.target)
  belongs := ⟨form.isJump, form.isCall ▸ List.mem_singleton.mpr rfl⟩
  ending := form.ending
  anchored := fun hnone ↦
    absurd hnone (List.append_ne_nil_of_right_ne_nil _ form.target.nonempty)

def text (form : CallLineForm) : List Char :=
  form.line.text

/-- Every line that is read as a call is the text of a tree. -/
theorem exists_of_content {raw : String} {instruction : Instruction} {facts : List Fact}
    (hread : (Line.ofText raw).content = .instruction instruction facts)
    (hjump : instruction.opcode.instructionClass.isJump = true)
    (hcall : instruction.opcode.code = JumpOperation.call.code) :
    ∃ form : CallLineForm, (Line.withoutLineEnd raw).toList = form.text ∧
      instruction = form.line.instruction := by
  obtain ⟨⟨head, body, hbelongs, ending, hanchored⟩, htext, rfl, -⟩ :=
    Line.content_ofText_eq_iff_form.mp hread
  cases body with
  | assignment body => exact absurd (hjump.symm.trans hbelongs) (by decide)
  | jump body =>
    have hcode : JumpOperation.call.code ∈ body.codes := hcall ▸ hbelongs.2
    cases body with
    | call afterCall target =>
      exact ⟨⟨head, hbelongs.1, hcall, afterCall, target, ending⟩, htext, rfl⟩
    | exit spelled => exact absurd hcode (by simp [JumpForm.codes, JumpOperation.code])
    | unconditional goto target =>
      exact absurd hcode (by simp [JumpForm.codes, JumpOperation.code])
    | conditional form => exact absurd hcode (by simp [JumpForm.codes, JumpOperation.code])

variable {form : CallLineForm}

theorem jumpKind?_of_isOffset (hoffset : form.target.IsOffset) :
    form.line.instruction.jumpKind? = some .subprogramCall := by
  have hsome := DestinationForm.isSome_pcOffset?_iff.mpr hoffset
  exact congrArg some (if_pos hsome)

theorem jumpKind?_of_not_isOffset (hoffset : ¬ form.target.IsOffset) :
    form.line.instruction.jumpKind? = some .helperCall := by
  have hnone := mt DestinationForm.isSome_pcOffset?_iff.mp hoffset
  exact congrArg some (if_neg hnone)

/-- The tree of `12: (85) call pc-007 ; R1=2`. -/
def backwardCall : CallLineForm where
  head := ⟨.spaces 0, "12".toList, rfl, by decide, .spaces 1, ⟨'8', '5', rfl, rfl⟩, .spaces 1⟩
  isJump := by decide
  isCall := by decide
  afterCall := .space
  target := ⟨"pc-007".toList, by decide, by decide⟩
  ending := ⟨.spaces 1, some " R1=2".toList⟩

/-- The tree of `0: (85) call pc+9223372036854775808`, whose offset is `2 ^ 63`. -/
def greatOffset : CallLineForm where
  head := ⟨.spaces 0, "0".toList, rfl, by decide, .spaces 1, ⟨'8', '5', rfl, rfl⟩, .spaces 1⟩
  isJump := by decide
  isCall := by decide
  afterCall := .space
  target := ⟨"pc+9223372036854775808".toList, by decide, by decide⟩
  ending := ⟨.spaces 0, none⟩

end CallLineForm

/-! ### What a call does to a machine -/

namespace Machine

variable (machine : Machine) (index : Nat)

theorem caller?_of_callers_eq {next : Machine}
    (hcallers : next.callers = machine.frame :: machine.callers) :
    next.caller? = some machine := by
  rw [caller?, hcallers]

/-- A call whose target is an offset from the program counter opens a frame, and the machine before
it is the caller. A call whose target does not look like an offset leaves all callers as they
are. -/
theorem next?_of_call_line (form : CallLineForm) (raw : String)
    (hraw : (Line.withoutLineEnd raw).toList = form.text) :
    ∃ instruction next, (Line.ofText raw).instruction? = some instruction ∧
      instruction.pc = some form.head.pc ∧ instruction.opcode = form.head.opcode ∧
      machine.next? index (Line.ofText raw) = some next ∧
      (form.target.IsOffset → instruction.jumpKind? = some .subprogramCall ∧
        next.caller? = some machine ∧ next.depth = machine.depth + 1) ∧
      (¬ form.target.LooksLikeOffset → instruction.jumpKind? = some .helperCall ∧
        next.callers = machine.callers ∧ next.depth = machine.depth) := by
  have hread : (Line.ofText raw).content = .instruction form.line.instruction form.line.facts :=
    Line.content_ofText_eq_iff_form.mpr ⟨form.line, hraw, rfl, rfl⟩
  refine ⟨form.line.instruction, machine.advance index form.line.instruction form.line.facts,
    by rw [Line.instruction?, hread], rfl, rfl, by rw [next?, hread], ?_, ?_⟩
  · intro hoffset
    have hkind := form.jumpKind?_of_isOffset hoffset
    have hcallers : (machine.advance index form.line.instruction form.line.facts).callers =
        machine.frame :: machine.callers := by
      rw [callers_advance, transfer, hkind]
    exact ⟨hkind, machine.caller?_of_callers_eq hcallers, by rw [depth, hcallers]; rfl⟩
  · intro hother
    have hkind :=
      form.jumpKind?_of_not_isOffset (mt DestinationForm.IsOffset.looksLikeOffset hother)
    have hcallers : (machine.advance index form.line.instruction form.line.facts).callers =
        machine.callers := by
      rw [callers_advance, transfer, hkind]
    exact ⟨hkind, hcallers, by rw [depth, hcallers]; rfl⟩

/-- A backward call with zeros in front of the offset, which carries a comment. -/
theorem next?_of_call_line_backwardCall :
    (Line.withoutLineEnd "12: (85) call pc-007 ; R1=2").toList =
        CallLineForm.backwardCall.text ∧
      CallLineForm.backwardCall.target.IsOffset ∧
      ∃ instruction next,
        (Line.ofText "12: (85) call pc-007 ; R1=2").instruction? = some instruction ∧
        initial.next? 4 (Line.ofText "12: (85) call pc-007 ; R1=2") = some next ∧
        instruction.jumpKind? = some .subprogramCall ∧
        next.caller? = some initial ∧ next.depth = 1 := by
  have hraw : (Line.withoutLineEnd "12: (85) call pc-007 ; R1=2").toList =
      CallLineForm.backwardCall.text := by
    decide +kernel
  have hoffset : CallLineForm.backwardCall.target.IsOffset :=
    ⟨⟨.minus, "007".toList, by decide, by decide⟩, by decide⟩
  obtain ⟨instruction, next, hfound, -, -, hnext, hopens, -⟩ :=
    next?_of_call_line initial 4 CallLineForm.backwardCall _ hraw
  exact ⟨hraw, hoffset, instruction, next, hfound, hnext, hopens hoffset⟩

/-- The bound on the offset cannot be dropped. The target is written like an offset, and the call
counts as one of a helper, which opens no frame. -/
theorem next?_of_great_offset :
    (Line.withoutLineEnd "0: (85) call pc+9223372036854775808").toList =
        CallLineForm.greatOffset.text ∧
      CallLineForm.greatOffset.target.LooksLikeOffset ∧
      ∃ instruction next,
        (Line.ofText "0: (85) call pc+9223372036854775808").instruction? = some instruction ∧
        initial.next? 0 (Line.ofText "0: (85) call pc+9223372036854775808") = some next ∧
        instruction.jumpKind? ≠ some .subprogramCall ∧
        next.caller? ≠ some initial ∧ next.depth ≠ initial.depth + 1 := by
  refine ⟨by decide +kernel, ⟨.plus, "9223372036854775808".toList, by decide, by decide⟩, _, _, rfl,
    rfl, ?_, ?_, ?_⟩
  · decide +kernel
  · decide +kernel
  · decide +kernel

end Machine

end VerifierTrace
