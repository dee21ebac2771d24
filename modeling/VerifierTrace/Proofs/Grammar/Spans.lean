import VerifierTrace.Proofs.Grammar.FactRow
import VerifierTrace.Proofs.Grammar.Jump
import VerifierTrace.Proofs.Text.Octets

/-!
# Where the parts of a line stand

What is read from a line carries the span that it takes up. Spans are `Span.InOrder` between two
positions of a line when none of them is empty, each can be cut out of the line, and each ends
before the next one begins. An instruction that is read `Instruction.IsPlaced`: its span can be cut
out, and the spans of its operands and of the target of its jump are in order inside it
(`Instruction.isPlaced_of_read`). The facts that are read from a place on `Fact.ArePlaced`: their
spans are in order after it, and each cuts out the key, the equals sign and the value that the fact
was read from (`Fact.arePlaced_read`).

Both come from `Scan.Tokens`, the texts that are passed one after the other between two places. An
instruction is up to three tokens with words and blanks between them, form by form of the grammar,
and the facts are some of the tokens of a row.
-/

set_option autoImplicit false
set_option relaxedAutoImplicit false

namespace VerifierTrace

open Scan

/-! ### Spans in order -/

/-- Stretches of a line between two positions: none is empty, each can be cut out of the line, and
each ends before the next one begins. -/
structure Span.InOrder (line : String) (start stop : Nat) (spans : List Span) : Prop where
  slices : ∀ span ∈ spans, (span.slice? line).isSome
  nonempty : ∀ span ∈ spans, 0 < span.length
  inside : ∀ span ∈ spans, start ≤ span.offset ∧ span.stop ≤ stop
  increasing : spans.Pairwise fun first second ↦ first.stop ≤ second.offset

namespace Span.InOrder

variable {line : String} {start stop : Nat} {spans others : List Span}

theorem nil : Span.InOrder line start stop [] where
  slices := nofun
  nonempty := nofun
  inside := nofun
  increasing := .nil

theorem sublist (hspans : Span.InOrder line start stop spans) (hothers : others.Sublist spans) :
    Span.InOrder line start stop others where
  slices span hspan := hspans.slices span (hothers.subset hspan)
  nonempty span hspan := hspans.nonempty span (hothers.subset hspan)
  inside span hspan := hspans.inside span (hothers.subset hspan)
  increasing := hspans.increasing.sublist hothers

theorem mono {start' : Nat} (hspans : Span.InOrder line start stop spans)
    (hstart : start' ≤ start) : Span.InOrder line start' stop spans where
  slices := hspans.slices
  nonempty := hspans.nonempty
  inside span hspan :=
    ⟨Nat.le_trans hstart (hspans.inside span hspan).1, (hspans.inside span hspan).2⟩
  increasing := hspans.increasing

end Span.InOrder

/-! ### Tokens between two places -/

namespace Scan

variable {start middle place stop : Scan} {text : List Char} {spans others : List Span}

theorem Passes.reaches (hpasses : Passes text start stop) : start.Reaches stop :=
  ⟨text, hpasses⟩

/-- A place on a line lies at the end of its beginning. -/
theorem offset_le_of_reaches (hreaches : start.Reaches stop) : start.offset ≤ stop.offset := by
  obtain ⟨passed, -, hoffset⟩ := hreaches
  omega

/-- The text between two places is cut out of the line. -/
theorem slice?_of_passes {line : String} (hline : (Scan.ofText line).Reaches start)
    (hpasses : Passes text start stop) :
    (Span.mk start.offset (octets text)).slice? line = some (String.ofList text) := by
  obtain ⟨before, hbefore, hoffset⟩ := hline
  have htext : line.toList = before ++ (text ++ stop.rest) := hpasses.1 ▸ hbefore
  have hstart : start.offset = octets before := hoffset.trans (Nat.zero_add _)
  rw [Span.slice?, htext, hstart, Span.cut?_append]
  rfl

/-- The end of the line that a place lies on. -/
def lineEnd (scan : Scan) : Scan :=
  ⟨scan.offset + octets scan.rest, []⟩

theorem Reaches.lineEnd_eq (hreaches : start.Reaches stop) : stop.lineEnd = start.lineEnd := by
  obtain ⟨passed, hrest, hoffset⟩ := hreaches
  rw [lineEnd, lineEnd, hrest, hoffset, octets_append, Nat.add_assoc]

/-- Texts that are passed one after the other between two places, by their spans. -/
inductive Tokens : Scan → Scan → List Span → Prop
  | none {start stop : Scan} (hreaches : start.Reaches stop) : Tokens start stop []
  | next {start place after stop : Scan} {text : List Char} {spans : List Span}
    (hreaches : start.Reaches place) (htext : Passes text place after) (hnonempty : text ≠ [])
    (hothers : Tokens after stop spans) :
    Tokens start stop (⟨place.offset, octets text⟩ :: spans)

namespace Tokens

theorem single (htext : Passes text start stop) (hnonempty : text ≠ []) :
    Tokens start stop [⟨start.offset, octets text⟩] :=
  .next (.refl start) htext hnonempty (.none (.refl stop))

theorem after (hreaches : start.Reaches middle) (htokens : Tokens middle stop spans) :
    Tokens start stop spans := by
  cases htokens with
  | none hrest => exact .none (hreaches.trans hrest)
  | next hrest htext hnonempty hothers => exact .next (hreaches.trans hrest) htext hnonempty hothers

theorem append (hfirst : Tokens start middle spans) (hsecond : Tokens middle stop others) :
    Tokens start stop (spans ++ others) := by
  induction hfirst with
  | none hreaches => exact hsecond.after hreaches
  | next hreaches htext hnonempty _ ih => exact .next hreaches htext hnonempty (ih hsecond)

theorem reaches (htokens : Tokens start stop spans) : start.Reaches stop := by
  induction htokens with
  | none hreaches => exact hreaches
  | next hreaches htext _ _ ih => exact (hreaches.trans htext.reaches).trans ih

theorem before (htokens : Tokens start middle spans) (hreaches : middle.Reaches stop) :
    Tokens start stop spans := by
  have htokens := htokens.append (.none hreaches)
  rwa [List.append_nil] at htokens

theorem inOrder {line : String} (htokens : Tokens start stop spans)
    (hline : (Scan.ofText line).Reaches start) :
    Span.InOrder line start.offset stop.offset spans := by
  induction htokens with
  | none hreaches => exact .nil
  | next hreaches htext hnonempty hothers ih =>
    have hplace := hline.trans hreaches
    have hothers' := ih (hplace.trans htext.reaches)
    have hbefore := offset_le_of_reaches hreaches
    have hafter := Nat.le_of_eq htext.2.symm
    have hstop := offset_le_of_reaches hothers.reaches
    constructor
    · refine List.forall_mem_cons.mpr ⟨?_, hothers'.slices⟩
      rw [slice?_of_passes hplace htext]
      rfl
    · refine List.forall_mem_cons.mpr ⟨?_, hothers'.nonempty⟩
      exact Nat.pos_of_ne_zero (mt octets_eq_zero_iff.mp hnonempty)
    · refine List.forall_mem_cons.mpr ⟨⟨hbefore, Nat.le_trans hafter hstop⟩, ?_⟩
      · intro span hspan
        have hinside := hothers'.inside span hspan
        omega
    · refine List.pairwise_cons.mpr ⟨?_, hothers'.increasing⟩
      intro span hspan
      exact Nat.le_trans hafter (hothers'.inside span hspan).1

end Tokens

end Scan

/-! ### Operands and targets -/

section Operands

variable {start stop : Scan}

theorem ne_nil_of_head? {text : List Char} {c : Char} (hhead : text.head? = some c) :
    text ≠ [] := by
  rintro rfl
  cases hhead

theorem TargetForm.tokens (form : TargetForm) (hpasses : Passes form.text start stop) :
    Tokens start stop [(form.operand start.offset).span] := by
  have htokens := Tokens.single hpasses (ne_nil_of_head? form.head?_text)
  cases form with
  | register form => exact htokens
  | reference form => exact htokens

theorem SourceForm.tokens (form : SourceForm) (hpasses : Passes form.text start stop) :
    Tokens start stop [(form.operand start.offset).span] := by
  cases form with
  | target form => exact form.tokens hpasses
  | number form longMark =>
    obtain ⟨c, hhead, -⟩ := form.exists_head
    obtain ⟨middle, hnumber, hmark⟩ := passes_append.mp hpasses
    exact (Tokens.single hnumber (ne_nil_of_head? hhead)).before hmark.reaches

theorem AssignmentForm.tokens (form : AssignmentForm) (hpasses : Passes form.text start stop) :
    Tokens start stop [(form.assignment start.offset).target.span,
      (form.assignment start.offset).source.span] := by
  obtain ⟨sourceAt, hbeforeSource, hsource⟩ := passes_append.mp hpasses
  obtain ⟨targetAt, hlock, hparts⟩ := passes_append.mp hbeforeSource
  obtain ⟨afterTarget, htarget, hoperator⟩ := passes_append.mp hparts
  have htokens := ((form.target.tokens htarget).after hlock.reaches).append
    ((form.source.tokens hsource).after hoperator.reaches)
  rw [hlock.2, hbeforeSource.2] at htokens
  exact htokens

theorem DestinationForm.tokens (form : DestinationForm) (hpasses : Passes form.text start stop) :
    Tokens start stop [⟨start.offset, octets form.text⟩] :=
  .single hpasses form.nonempty

theorem ConditionForm.tokens (form : ConditionForm) (hpasses : Passes form.text start stop) :
    Tokens start stop [(form.condition start.offset).left.span,
      (form.condition start.offset).right.span] := by
  obtain ⟨rightAt, hbeforeRight, hright⟩ := passes_append.mp hpasses
  obtain ⟨afterLeft, hleft, hcomparator⟩ := passes_append.mp hbeforeRight
  have htokens := (TargetForm.tokens (.register form.left) hleft).append
    ((form.right.tokens hright).after hcomparator.reaches)
  rw [hbeforeRight.2] at htokens
  exact htokens

end Operands

/-! ### Instructions -/

/-- The spans of the operands, and then that of the target of the jump. -/
def Instruction.spans (instruction : Instruction) : List Span :=
  instruction.operands.map Operand.span ++ (instruction.jump?.bind Jump.targetSpan).toList

section Instructions

variable {start stop : Scan} {pc : Nat} {opcode : Opcode} {instruction : Instruction}

theorem JumpForm.tokens (form : JumpForm) (hpasses : Passes form.text start stop) (span : Span) :
    Tokens start stop
      (Instruction.mk (some pc) opcode (.jump (form.jump start.offset)) span).spans := by
  cases form with
  | call afterCall target =>
    obtain ⟨targetAt, hword, htarget⟩ := passes_append.mp hpasses
    have htokens := target.tokens htarget
    rw [hword.2] at htokens
    exact htokens.after hword.reaches
  | exit spelled => exact .none hpasses.reaches
  | unconditional goto target =>
    obtain ⟨targetAt, hword, htarget⟩ := passes_append.mp hpasses
    have htokens := target.tokens htarget
    rw [hword.2] at htokens
    exact htokens.after hword.reaches
  | conditional form =>
    obtain ⟨targetAt, hbeforeTarget, htarget⟩ := passes_append.mp hpasses
    obtain ⟨conditionAt, hif, hparts⟩ := passes_append.mp hbeforeTarget
    obtain ⟨afterCondition, hcondition, hgoto⟩ := passes_append.mp hparts
    have htokens := ((form.condition.tokens hcondition).after hif.reaches).append
      ((form.target.tokens htarget).after hgoto.reaches)
    rw [hif.2, hbeforeTarget.2] at htokens
    exact htokens

/-- An instruction takes up what is passed by reading it, and its parts are tokens of that. -/
theorem Instruction.tokens_of_read
    (hread : Instruction.read pc opcode start = .ok (instruction, stop)) :
    Tokens start stop instruction.spans ∧
      ∃ text, Passes text start stop ∧ instruction.span = ⟨start.offset, octets text⟩ := by
  cases hclass : opcode.instructionClass.isJump with
  | false =>
    obtain ⟨form, hpasses, -, rfl⟩ := (Instruction.read_eq_ok_iff hclass).mp hread
    exact ⟨form.tokens hpasses, form.text, hpasses, rfl⟩
  | true =>
    obtain ⟨form, -, hpasses, -, rfl⟩ := (Instruction.read_eq_ok_iff_of_isJump hclass).mp hread
    exact ⟨form.tokens hpasses _, form.text, hpasses, rfl⟩

/-- The instruction can be cut out of the line, and its parts stand in order inside it. -/
structure Instruction.IsPlaced (line : String) (instruction : Instruction) : Prop where
  slices : (instruction.span.slice? line).isSome
  inOrder : Span.InOrder line instruction.span.offset instruction.span.stop instruction.spans

theorem Instruction.isPlaced_of_read {line : String} (hline : (Scan.ofText line).Reaches start)
    (hread : Instruction.read pc opcode start = .ok (instruction, stop)) :
    instruction.IsPlaced line ∧ instruction.span.stop = stop.offset := by
  obtain ⟨htokens, text, htext, hspan⟩ := Instruction.tokens_of_read hread
  have hstop : instruction.span.stop = stop.offset := by
    rw [hspan]
    exact htext.2.symm
  refine ⟨⟨?_, ?_⟩, hstop⟩
  · rw [hspan, slice?_of_passes hline htext]
    rfl
  · rw [hstop, hspan]
    exact htokens.inOrder hline

end Instructions

/-! ### Facts -/

namespace FactToken

variable {scan start stop : Scan}

/-- The text that a token was read from. -/
def text (token : FactToken) : List Char :=
  token.key ++ match token.value with
    | none => []
    | some value => '=' :: value

theorem passes_readValue (scan : Scan) : Passes (readValue scan).1 scan (readValue scan).2 :=
  ⟨(List.take_append_drop _ _).symm, rfl⟩

/-- A token takes up its text, and its key is one. -/
theorem passes_of_read {token : FactToken} (hread : read scan = (token, stop)) :
    Passes token.text scan stop ∧ token.span = ⟨scan.offset, octets token.text⟩ ∧
      token.key.all isKeyChar := by
  obtain ⟨key, afterKey, hrun⟩ : ∃ key afterKey, scan.run isKeyChar = (key, afterKey) :=
    ⟨_, _, rfl⟩
  obtain ⟨hkey, hpassesKey, -⟩ := run_eq_iff.mp hrun
  have hpasses : ∀ {text : List Char}, Passes text afterKey stop → token.text = key ++ text →
      Passes token.text scan stop := by
    intro text htext hsame
    rw [hsame]
    exact passes_append.mpr ⟨afterKey, hpassesKey, htext⟩
  have hspan : token.span = scan.spanTo stop → Passes token.text scan stop →
      token.span = ⟨scan.offset, octets token.text⟩ :=
    fun hspan htext ↦ hspan.trans htext.spanTo
  simp only [read, hrun] at hread
  split at hread
  · obtain ⟨rfl, rfl⟩ := Prod.mk.inj hread
    have htext := hpasses (passes_nil.mpr rfl) rfl
    exact ⟨htext, hspan rfl htext, hkey⟩
  · next afterSign hsign =>
    obtain ⟨rfl, rfl⟩ := Prod.mk.inj hread
    have hvalue : Passes ('=' :: (readValue afterSign).1) afterKey (readValue afterSign).2 :=
      passes_append.mpr ⟨afterSign, literal?_eq_some_iff.mp hsign, passes_readValue afterSign⟩
    have htext := hpasses hvalue rfl
    exact ⟨htext, hspan rfl htext, hkey⟩

theorem read_of_next? {token : FactToken} (hnext : next? scan = some (token, stop)) :
    read scan.skipBlanks = (token, stop) := by
  unfold next? at hnext
  split at hnext
  · cases hnext
  · exact Option.some.inj hnext

/-- The next token is not empty, for something is passed. -/
theorem text_ne_nil_of_next? {token : FactToken} (hnext : next? scan = some (token, stop)) :
    token.text ≠ [] := by
  intro hempty
  have hread := read_of_next? hnext
  have hstop : stop = scan.skipBlanks := passes_nil.mp (hempty ▸ (passes_of_read hread).1)
  cases hrest : scan.skipBlanks.rest with
  | nil =>
    rw [next?, atEnd, hrest] at hnext
    cases hnext
  | cons c others =>
    have hblank : isBlank c = false := by
      have havoids := scan.avoids_skipWhile isBlank
      rwa [Avoids, show (scan.skipWhile isBlank).rest = c :: others from hrest] at havoids
    have hshorter := length_read hrest hblank
    rw [hread, hstop] at hshorter
    exact Nat.lt_irrefl _ hshorter

/-- All tokens are passed one after the other up to the end of the line. -/
theorem tokens_all (scan : Scan) : Tokens scan scan.lineEnd ((all scan).map FactToken.span) := by
  fun_induction all scan with
  | case1 scan hnone => exact .none scan.passes_rest.reaches
  | case2 scan next hnext hshorter ih =>
    obtain ⟨token, stop⟩ := next
    obtain ⟨htext, hspan, -⟩ := passes_of_read (read_of_next? hnext)
    have hstop := scan.reaches_skipBlanks.trans htext.reaches
    rw [List.map_cons, hspan, ← hstop.lineEnd_eq]
    exact .next scan.reaches_skipBlanks htext (text_ne_nil_of_next? hnext) ih

/-- Every token is read somewhere on the line. -/
theorem exists_read_of_mem_all {token : FactToken} (hmem : token ∈ all scan) :
    ∃ place stop, scan.Reaches place ∧ read place = (token, stop) := by
  fun_induction all scan with
  | case1 scan hnone => cases hmem
  | case2 scan next hnext hshorter ih =>
    obtain ⟨first, after⟩ := next
    have hread := read_of_next? hnext
    rcases List.mem_cons.mp hmem with rfl | hmem
    · exact ⟨_, _, scan.reaches_skipBlanks, hread⟩
    · obtain ⟨place, stop, hreaches, hplace⟩ := ih hmem
      have hafter := (passes_of_read hread).1.reaches
      exact ⟨place, stop, (scan.reaches_skipBlanks.trans hafter).trans hreaches, hplace⟩

end FactToken

/-- The fact stands in the line: its span cuts out the key that it was read from, which names its
slot and may be marked, an equals sign, and its value. -/
def Fact.StandsIn (line : String) (fact : Fact) : Prop :=
  ∃ key name, key.all FactToken.isKeyChar ∧ Fact.slotName key = (name, fact.written) ∧
    Slot.ofText (String.ofList name) = .ok fact.slot ∧
      fact.span.slice? line = some (String.ofList key ++ "=" ++ fact.value)

/-- The facts stand in the line, in order from a position on. -/
structure Fact.ArePlaced (line : String) (start : Nat) (facts : List Fact) : Prop where
  inOrder : Span.InOrder line start (octets line.toList) (facts.map Fact.span)
  standsIn : ∀ fact ∈ facts, fact.StandsIn line

namespace Fact

variable {depth : Nat} {scan : Scan} {line : String}

/-- A fact is what its token says about the slot that the key names. -/
theorem exists_of_ofToken? {token : FactToken} {fact : Fact}
    (hfact : ofToken? depth token = some fact) : fact.span = token.span ∧
      ∃ value name, token.value = some value ∧ fact.value = String.ofList value ∧
        slotName token.key = (name, fact.written) ∧
          Slot.ofText (String.ofList name) = .ok fact.slot := by
  unfold ofToken? at hfact
  split at hfact
  · cases hfact
  · next value hvalue =>
    cases hname : slotName token.key with
    | mk name written =>
      simp only [hname] at hfact
      split at hfact
      · cases hfact
      · next slot hslot =>
        obtain rfl := Option.some.inj hfact
        exact ⟨rfl, value, name, hvalue, rfl, rfl, hslot⟩

/-- The spans of the facts are some of those of the tokens. -/
theorem sublist_span_ofToken? (depth : Nat) (tokens : List FactToken) :
    ((tokens.filterMap (ofToken? depth)).map Fact.span).Sublist (tokens.map FactToken.span) := by
  induction tokens with
  | nil => exact .slnil
  | cons token tokens ih =>
    rw [List.filterMap_cons, List.map_cons]
    cases hfact : ofToken? depth token with
    | none => exact ih.cons token.span
    | some fact =>
      rw [List.map_cons, (exists_of_ofToken? hfact).1]
      exact ih.cons_cons token.span

theorem arePlaced_filterMap_all (hline : (Scan.ofText line).Reaches scan) (depth : Nat) :
    ArePlaced line scan.offset ((FactToken.all scan).filterMap (ofToken? depth)) where
  inOrder := by
    have hend : scan.lineEnd.offset = octets line.toList := by
      rw [hline.lineEnd_eq]
      exact Nat.zero_add _
    rw [← hend]
    exact ((FactToken.tokens_all scan).inOrder hline).sublist (sublist_span_ofToken? depth _)
  standsIn := by
    intro fact hmem
    obtain ⟨token, htoken, hfact⟩ := List.mem_filterMap.mp hmem
    obtain ⟨hspan, value, name, hvalue, htext, hname, hslot⟩ := exists_of_ofToken? hfact
    obtain ⟨place, stop, hreaches, hread⟩ := FactToken.exists_read_of_mem_all htoken
    obtain ⟨hpasses, hplace, hkey⟩ := FactToken.passes_of_read hread
    refine ⟨token.key, name, hkey, hname, hslot, ?_⟩
    have hsign : String.ofList (['='] ++ value) = "=" ++ String.ofList value :=
      String.ofList_append
    rw [hspan, hplace, slice?_of_passes (hline.trans hreaches) hpasses, FactToken.text, hvalue,
      htext, String.ofList_append, String.append_assoc]
    exact congrArg (fun rest ↦ some (String.ofList token.key ++ rest)) hsign

theorem reaches_of_frameMark? {stop : Scan} (hmark : frameMark? scan = some (depth, stop)) :
    scan.Reaches stop := by
  obtain ⟨mark, hpasses, -⟩ := FrameMark.frameMark?_eq_some_iff.mp hmark
  exact hpasses.reaches

/-- The facts that are read from a place on stand in the line after it. -/
theorem arePlaced_read (hline : (Scan.ofText line).Reaches scan) :
    ArePlaced line scan.offset (read scan) := by
  have hplace : ∀ place : Scan, scan.skipBlanks.Reaches place → ∀ depth,
      ArePlaced line scan.offset ((FactToken.all place).filterMap (ofToken? depth)) := by
    intro place hreaches depth
    have hafter := scan.reaches_skipBlanks.trans hreaches
    have hplaced := arePlaced_filterMap_all (hline.trans hafter) depth
    exact ⟨hplaced.inOrder.mono (offset_le_of_reaches hafter), hplaced.standsIn⟩
  rw [read]
  cases hmark : frameMark? scan.skipBlanks with
  | none => exact hplace _ (.refl _) 0
  | some mark => exact hplace mark.2 (reaches_of_frameMark? hmark) mark.1

end Fact

end VerifierTrace
