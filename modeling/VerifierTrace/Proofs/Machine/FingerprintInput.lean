import VerifierTrace.Line.Reader
import VerifierTrace.Machine.Hashing
import VerifierTrace.Proofs.Grammar.Spans
import VerifierTrace.Proofs.Machine.Following
import VerifierTrace.Proofs.Machine.Rendering
import VerifierTrace.Proofs.Machine.SlotEffect

/-!
# What the input of a fingerprint tells

A fingerprint is the digest of a rendering in UTF-8 (`Machine.fingerprintInput`), whichever digest
is taken (`Machine.fingerprintWith_eq`). Two machines that follow the lines of two logs from the
start have the same input exactly when they agree in all but the lines that they are at, if the
facts of the lines are `Fact.IsLegible`: no value is a question mark alone, all parentheses in a
value are closed, and a less-than sign stands in parentheses only
(`Machine.fingerprintInput_ofTexts_eq_iff`). The reader sees to the spaces: it ends a value at the
first one outside parentheses (`encloses_readValue`).

Legible values stay so. An instruction makes no value but those of a new frame; all others were
known before, or a fact of the line reports them. So one line keeps `Machine.IsLegible`
(`Machine.IsLegible.advance`), and by induction so do all.

The conditions are needed. A reported question mark is rendered as an unknown value is
(`Machine.fingerprintInput_of_question`), and a value with an open parenthesis, or with a less-than
sign, may look like the slots or the writers after it.
-/

set_option autoImplicit false
set_option relaxedAutoImplicit false

namespace VerifierTrace

/-! ### What the reader takes for a value -/

/-- The reported value is told from an unknown one, and from what follows it but for spaces. -/
structure Fact.IsLegible (fact : Fact) : Prop where
  known : fact.value ≠ "?"
  encloses : encloses (· == '<') 0 fact.value.toList

instance (fact : Fact) : Decidable fact.IsLegible :=
  decidable_of_iff (fact.value ≠ "?" ∧ encloses (· == '<') 0 fact.value.toList)
    ⟨fun h ↦ ⟨h.1, h.2⟩, fun h ↦ ⟨h.known, h.encloses⟩⟩

namespace FactToken

/-- A value ends at the first space outside parentheses, so it encloses its spaces. -/
theorem encloses_take_valueLength {depth : Nat} {text : List Char}
    (hvalue : encloses (· == '<') depth (text.take (valueLength depth text))) :
    encloses isMark depth (text.take (valueLength depth text)) := by
  induction text generalizing depth with
  | nil => exact hvalue
  | cons c text ih =>
    rw [valueLength] at hvalue ⊢
    split at hvalue
    · next hspace =>
      rw [if_pos hspace]
      exact hvalue
    · next hspace =>
      rw [if_neg hspace]
      obtain ⟨hc, hothers⟩ := Bool.and_eq_true_iff.mp hvalue
      refine Bool.and_eq_true_iff.mpr ⟨?_, ih hothers⟩
      simp only [isMark, Bool.or_eq_true, bne_iff_ne, Bool.not_eq_true', beq_eq_false_iff_ne,
        Bool.or_eq_false_iff] at hc ⊢
      by_cases hdepth : depth = 0
      · exact .inr ⟨fun hc ↦ hspace ⟨hc, hdepth⟩, hc.resolve_left (absurd hdepth)⟩
      · exact .inl hdepth

theorem encloses_readValue {scan : Scan}
    (hvalue : encloses (· == '<') 0 (readValue scan).1) : encloses isMark 0 (readValue scan).1 :=
  encloses_take_valueLength hvalue

/-- The value of a token is read as one. -/
theorem exists_readValue_of_read {scan stop : Scan} {token : FactToken} {value : List Char}
    (hread : read scan = (token, stop)) (hvalue : token.value = some value) :
    ∃ place, value = (readValue place).1 := by
  simp only [read] at hread
  split at hread
  · obtain ⟨rfl, -⟩ := Prod.mk.inj hread
    cases hvalue
  · next afterSign hsign =>
    obtain ⟨rfl, -⟩ := Prod.mk.inj hread
    exact ⟨afterSign, (Option.some.inj hvalue).symm⟩

end FactToken

/-- The value of a fact is read as one. -/
theorem Fact.exists_readValue_of_mem_read {scan : Scan} {fact : Fact} (hfact : fact ∈ read scan) :
    ∃ place, fact.value.toList = (FactToken.readValue place).1 := by
  obtain ⟨token, htoken, hof⟩ := List.mem_filterMap.mp hfact
  obtain ⟨-, value, name, hvalue, hsame, -⟩ := exists_of_ofToken? hof
  obtain ⟨start, stop, -, hread⟩ := FactToken.exists_read_of_mem_all htoken
  obtain ⟨place, rfl⟩ := FactToken.exists_readValue_of_read hread hvalue
  exact ⟨place, by rw [hsame, String.toList_ofList]⟩

theorem Line.exists_readValue_of_mem_facts {text : String} {fact : Fact}
    (hfact : fact ∈ (ofText text).facts) :
    ∃ place, fact.value.toList = (FactToken.readValue place).1 := by
  simp only [ofText] at hfact
  split at hfact
  · next content hread =>
    cases content with
    | instruction instruction facts =>
      obtain ⟨-, ending, -, after, -, -, -, -, -, -, rfl⟩ := exists_of_readContent hread
      cases hcomment : ending.comment with
      | none => simp [facts, EndingForm.facts, hcomment] at hfact
      | some comment =>
        simp only [facts, EndingForm.facts, hcomment] at hfact
        exact Fact.exists_readValue_of_mem_read hfact
    | sourceComment span => cases hfact
    | unrecognized error => cases hfact
  · cases hfact

/-- A legible fact of a line that was read reports a legible value. -/
theorem Fact.IsLegible.legible_value {text : String} {fact : Fact} (hlegible : fact.IsLegible)
    (hfact : fact ∈ (Line.ofText text).facts) : Legible fact.value := by
  obtain ⟨place, hvalue⟩ := Line.exists_readValue_of_mem_facts hfact
  have hencloses := hlegible.encloses
  rw [hvalue] at hencloses
  refine ⟨hlegible.known, ?_⟩
  rw [hvalue]
  exact FactToken.encloses_readValue hencloses

/-! ### Cells -/

namespace Cell

variable {cell cell' : Cell}

theorem isLegible_of_value_eq (hsame : cell.value = cell'.value) (hcell' : cell'.IsLegible) :
    cell.IsLegible :=
  fun value hvalue ↦ hcell' value (hsame ▸ hvalue)

theorem isLegible_of_value_eq_none (hnone : cell.value = none) : cell.IsLegible :=
  fun _ hvalue ↦ nomatch hnone.symm.trans hvalue

theorem isLegible_of_value_eq_some {value : String} (hknown : cell.value = some value)
    (hvalue : Legible value) : cell.IsLegible :=
  fun _ hsome ↦ Option.some.inj (hknown.symm.trans hsome) ▸ hvalue

theorem IsLegible.touch (hcell : cell.IsLegible) (index : Nat) (isRead isWrite : Bool) :
    (cell.touch index isRead isWrite).IsLegible := by
  cases isWrite with
  | true => exact isLegible_of_value_eq_none rfl
  | false => exact isLegible_of_value_eq rfl hcell

/-- Only the fact matters, for it replaces the value. -/
theorem isLegible_learn (cell : Cell) (index : Nat) {fact : Fact} (hfact : Legible fact.value) :
    (cell.learn index fact).IsLegible := by
  unfold learn
  split
  · exact isLegible_of_value_eq_some rfl hfact
  · exact isLegible_of_value_eq_some rfl hfact

end Cell

/-! ### Frames -/

namespace Frame

variable {frame : Frame}

/-- A frame is legible when the cells of all slots are, tracked or not. -/
theorem isLegible_iff : frame.IsLegible ↔ ∀ slot, (frame.cell slot).IsLegible := by
  constructor
  · intro hframe slot
    cases hcell : frame.cells.get? slot with
    | none => exact Cell.isLegible_of_value_eq_none (by rw [cell, hcell]; rfl)
    | some cell =>
      have hentry := hframe (slot, cell) ((frame.cells.mem_entries_iff _ _).mpr hcell)
      exact Cell.isLegible_of_value_eq (by rw [Frame.cell, hcell]; rfl) hentry
  · rintro hframe ⟨slot, cell⟩ hmem
    have hcell := (frame.cells.mem_entries_iff _ _).mp hmem
    exact Cell.isLegible_of_value_eq (by rw [Frame.cell, hcell]; rfl) (hframe slot)

theorem legible_framePointerValue : Legible framePointerValue := by
  constructor
  · decide
  · decide

theorem legible_contextValue : Legible contextValue := by
  constructor
  · decide
  · decide

theorem isLegible_initial : initial.IsLegible := by
  refine isLegible_iff.mpr fun slot ↦ ?_
  simp only [cell, initial, SlotMap.get?_insert, SlotMap.get?_empty]
  split
  · exact Cell.isLegible_of_value_eq_some rfl legible_framePointerValue
  · split
    · exact Cell.isLegible_of_value_eq_some rfl legible_contextValue
    · exact Cell.isLegible_of_value_eq_none rfl

namespace IsLegible

theorem run (hframe : frame.IsLegible) (index : Nat) (instruction : Instruction) :
    (frame.run index instruction).IsLegible := by
  refine isLegible_iff.mpr fun slot ↦ ?_
  rw [cell_run_eq_touch]
  exact (isLegible_iff.mp hframe slot).touch _ _ _

theorem passed (hframe : frame.IsLegible) (slot : Slot) : (frame.passed slot).IsLegible := by
  unfold Frame.passed
  split
  · exact isLegible_iff.mp hframe slot
  · split
    · exact Cell.isLegible_of_value_eq_some rfl legible_framePointerValue
    · exact Cell.isLegible_of_value_eq_none rfl

theorem call (hframe : frame.IsLegible) (index : Nat) : (frame.call index).IsLegible := by
  refine isLegible_iff.mpr fun slot ↦ ?_
  rw [cell_call_eq_touch]
  exact (hframe.passed slot).touch _ _ _

/-- The result of a subprogram was legible in its own frame. -/
theorem resume {callee : Frame} (hframe : frame.IsLegible) (hcallee : callee.IsLegible)
    (index : Nat) (slot : Slot) : (frame.resume index (callee.cell slot).value).IsLegible := by
  refine isLegible_iff.mpr fun query ↦ ?_
  rw [cell_resume]
  split
  · exact Cell.isLegible_of_value_eq_none rfl
  · split
    · exact Cell.isLegible_of_value_eq rfl (isLegible_iff.mp hcallee slot)
    · exact Cell.isLegible_of_value_eq rfl (isLegible_iff.mp hframe query)

theorem learn (hframe : frame.IsLegible) (index : Nat) {facts : List Fact}
    (hfacts : ∀ fact ∈ facts, Legible fact.value) : (frame.learn index facts).IsLegible := by
  induction facts generalizing frame with
  | nil => exact hframe
  | cons fact facts ih =>
    obtain ⟨hfact, hothers⟩ := List.forall_mem_cons.mp hfacts
    refine ih (isLegible_iff.mpr fun slot ↦ ?_) hothers
    rw [cell_change]
    split
    · exact (frame.cell fact.slot).isLegible_learn index hfact
    · exact isLegible_iff.mp hframe slot

end IsLegible

end Frame

/-! ### Machines -/

namespace Machine

variable {machine next : Machine} {index : Nat} {instruction : Instruction}

theorem isLegible_initial : initial.IsLegible :=
  List.forall_mem_singleton.mpr Frame.isLegible_initial

/-- On each of the four ways the next frame takes its values from frames that were there. -/
theorem Transition.isLegible (hnext : Transition machine index instruction next)
    (hmachine : machine.IsLegible) : next.IsLegible := by
  have hcallers : ∀ frame ∈ next.callers, frame.IsLegible :=
    fun frame hframe ↦ hmachine frame (hnext.callers_suffix.mem hframe)
  have hrunning := hmachine machine.frame List.mem_cons_self
  refine List.forall_mem_cons.mpr ⟨?_, hcallers⟩
  cases hnext with
  | stay hcall hexit => exact hrunning.run index instruction
  | enter hcall => exact hrunning.call index
  | @leave hexit caller callers hwaiting =>
    have hcaller : caller ∈ machine.callers := hwaiting ▸ List.mem_cons_self
    exact (hmachine caller (List.mem_cons_of_mem _ hcaller)).resume hrunning index _
  | restart hexit hwaiting => exact Frame.isLegible_initial.resume hrunning index _

theorem IsLegible.advance (hmachine : machine.IsLegible) (index : Nat) (instruction : Instruction)
    {facts : List Fact} (hfacts : ∀ fact ∈ facts, Legible fact.value) :
    (machine.advance index instruction facts).IsLegible := by
  have hmoved := (machine.transition_transfer index instruction).isLegible hmachine
  obtain ⟨hrunning, hcallers⟩ := List.forall_mem_cons.mp hmoved
  have hlocated : ((machine.transfer index instruction).locate index
      instruction.pc).frame.IsLegible := hrunning
  refine List.forall_mem_cons.mpr ⟨hlocated.learn index fun fact hfact ↦ ?_, hcallers⟩
  exact hfacts fact (List.mem_filter.mp hfact).1

theorem IsLegible.read (hmachine : machine.IsLegible) (index : Nat) {line : Line}
    (hfacts : ∀ fact ∈ line.facts, Legible fact.value) : (machine.read index line).IsLegible := by
  cases hline : line.instruction? with
  | none =>
    rw [read_of_none machine index hline]
    exact hmachine
  | some instruction =>
    rw [read_of_instruction machine index hline]
    exact hmachine.advance index instruction hfacts

theorem IsLegible.follow (hmachine : machine.IsLegible) {lines : List (Nat × Line)}
    (hfacts : ∀ line ∈ lines, ∀ fact ∈ line.2.facts, Legible fact.value) :
    (machine.follow lines).IsLegible := by
  induction lines generalizing machine with
  | nil => exact hmachine
  | cons line lines ih =>
    obtain ⟨hline, hothers⟩ := List.forall_mem_cons.mp hfacts
    exact ih (hmachine.read line.1 hline) hothers

/-- The machine after the lines of a log, each given as a text with its index. -/
def ofTexts (texts : List (Nat × String)) : Machine :=
  initial.follow (texts.map fun text ↦ (text.1, Line.ofText text.2))

theorem isLegible_ofTexts {texts : List (Nat × String)}
    (htexts : ∀ text ∈ texts, ∀ fact ∈ (Line.ofText text.2).facts, fact.IsLegible) :
    (ofTexts texts).IsLegible := by
  refine isLegible_initial.follow fun line hline fact hfact ↦ ?_
  obtain ⟨text, htext, rfl⟩ := List.mem_map.mp hline
  dsimp only at hfact
  exact (htexts text htext fact hfact).legible_value hfact

/-- Machines that follow lines with legible facts have fingerprints of the same input exactly when
they agree in all but the lines of their frames. -/
theorem fingerprintInput_ofTexts_eq_iff {texts texts' : List (Nat × String)}
    (htexts : ∀ text ∈ texts, ∀ fact ∈ (Line.ofText text.2).facts, fact.IsLegible)
    (htexts' : ∀ text ∈ texts', ∀ fact ∈ (Line.ofText text.2).facts, fact.IsLegible) :
    (ofTexts texts).fingerprintInput = (ofTexts texts').fingerprintInput ↔
      (ofTexts texts).forgetLines = (ofTexts texts').forgetLines := by
  rw [← rendering_eq_iff (isLegible_ofTexts htexts) (isLegible_ofTexts htexts')]
  exact String.toByteArray_inj

/-- A mark at a value and the effect of the instruction write a slot alike. -/
theorem forgetLines_ofTexts_of_marked :
    (ofTexts [(0, "0: (b7) r2 = 1 ; R2_w=scalar(id=1 max<9)")]).forgetLines =
      (ofTexts [(0, "0: (b7) r2 = 7 ; R2=scalar(id=1 max<9)")]).forgetLines :=
  (fingerprintInput_ofTexts_eq_iff (by decide +kernel) (by decide +kernel)).mp (by decide +kernel)

/-- A reported question mark is rendered as an unknown value is. -/
theorem fingerprintInput_of_question :
    (ofTexts [(0, "0: (b7) r2 = 1")]).fingerprintInput =
        (ofTexts [(0, "0: (b7) r2 = 1 ; R2=?")]).fingerprintInput ∧
      ((ofTexts [(0, "0: (b7) r2 = 1")]).frame.cell (.register 2)).value = none ∧
        ((ofTexts [(0, "0: (b7) r2 = 1 ; R2=?")]).frame.cell (.register 2)).value = some "?" := by
  decide +kernel

/-- A value with an open parenthesis takes in the slot after it. -/
example : (ofTexts [(0, "0: (b7) r2 = 1 ; R3=( r4=2")]).fingerprintInput =
      (ofTexts [(0, "0: (b7) r2 = 1 ; R4=2 R3=(")]).fingerprintInput := by
  decide +kernel

/-- A value with a less-than sign takes in a writer. -/
example : (ofTexts [(0, "0: (b7) r2 = 1 ; R2=1"), (1, "1: (b7) r3 = 1")]).fingerprintInput =
      (ofTexts [(1, "1: (b7) r3 = 1 ; R2=1 R10=fp0r2<0;")]).fingerprintInput := by
  decide +kernel

end Machine

end VerifierTrace
