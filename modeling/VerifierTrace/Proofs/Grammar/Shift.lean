import VerifierTrace.Proofs.Grammar.LineReader

/-!
# Reading further along a line

What is read carries positions: the spans of operands, targets, instructions and facts, and the
positions of faults. `LineContent.shift` moves all of them by a number of octets and keeps the
lengths of the spans and everything else.

`Reader.Shifts` relates two readers when the second one, started further along with the same text
left, finds what the first one finds, shifted. The relation is closed under sequences, attempts and
choices. A reader never looks back, and it asks for its position only to put it into a span or a
fault, so each reader of the grammar is related to itself, from single moves up to the reader of
lines (`Reader.Shifts.line`). `Line.readContent_shift` says the same of the reader of scans.
-/

set_option autoImplicit false
set_option relaxedAutoImplicit false

namespace VerifierTrace

/-! ### Shifted positions -/

/-- The same text at a position further along. -/
def Scan.shift (count : Nat) (scan : Scan) : Scan :=
  { scan with offset := scan.offset + count }

def Span.shift (count : Nat) (span : Span) : Span :=
  { span with offset := span.offset + count }

def Operand.shift (count : Nat) (operand : Operand) : Operand :=
  { operand with span := operand.span.shift count }

def Assignment.shift (count : Nat) (assignment : Assignment) : Assignment :=
  { assignment with
    target := assignment.target.shift count
    source := assignment.source.shift count }

def Condition.shift (count : Nat) (condition : Condition) : Condition :=
  { condition with
    left := condition.left.shift count
    right := condition.right.shift count }

def Jump.shift (count : Nat) (jump : Jump) : Jump :=
  { jump with
    targetSpan := jump.targetSpan.map (Span.shift count)
    condition := jump.condition.map (Condition.shift count) }

def Operation.shift (count : Nat) : Operation → Operation
  | .assignment body => .assignment (body.shift count)
  | .jump body => .jump (body.shift count)

def Instruction.shift (count : Nat) (instruction : Instruction) : Instruction :=
  { instruction with
    operation := instruction.operation.shift count
    span := instruction.span.shift count }

def FactToken.shift (count : Nat) (token : FactToken) : FactToken :=
  { token with span := token.span.shift count }

def Fact.shift (count : Nat) (fact : Fact) : Fact :=
  { fact with span := fact.span.shift count }

def LineError.shift (count : Nat) : LineError → LineError
  | .empty => .empty
  | .fault offset found => .fault (offset + count) found

def LineContent.shift (count : Nat) : LineContent → LineContent
  | .instruction read facts => .instruction (read.shift count) (facts.map (Fact.shift count))
  | .sourceComment text => .sourceComment (text.shift count)
  | .unrecognized error => .unrecognized (error.shift count)

section Shifted

variable (count : Nat)

theorem Span.between_shift (start stop : Nat) :
    Span.between (start + count) (stop + count) = (Span.between start stop).shift count := by
  rw [between, between, shift, Nat.add_sub_add_right]

/-- The slots that an instruction uses and changes do not depend on where it stands. -/
theorem Instruction.reads_shift (instruction : Instruction) :
    (instruction.shift count).reads = instruction.reads := by
  obtain ⟨pc, opcode, operation, span⟩ := instruction
  cases operation with
  | assignment assignment => rfl
  | jump jump =>
    obtain ⟨kind, target, targetSpan, condition⟩ := jump
    cases kind with
    | conditional => cases condition <;> rfl
    | unconditional | helperCall | subprogramCall | exit => rfl

theorem Instruction.writes_shift (instruction : Instruction) :
    (instruction.shift count).writes = instruction.writes := by
  obtain ⟨pc, opcode, operation, span⟩ := instruction
  cases operation with
  | assignment assignment => rfl
  | jump jump => rfl

theorem Fact.ofToken?_shift (depth : Nat) (token : FactToken) :
    ofToken? depth (token.shift count) = (ofToken? depth token).map (Fact.shift count) := by
  obtain ⟨key, value, span⟩ := token
  cases value with
  | none => rfl
  | some value =>
    simp only [ofToken?, FactToken.shift]
    split
    · rfl
    · rfl

end Shifted

namespace Scan

variable (count : Nat) (scan : Scan)

theorem literal?_shift (text : String) :
    (scan.shift count).literal? text = (scan.literal? text).map (shift count) := by
  have hafter : ∀ rest, Scan.mk (scan.offset + count + octets text.toList) rest =
      shift count ⟨scan.offset + octets text.toList, rest⟩ := by
    intro rest
    rw [shift, Nat.add_right_comm]
  rw [literal?, literal?, Option.map_map]
  exact congrArg (Option.map · _) (funext hafter)

end Scan

namespace Reader

variable {Part Part' Result Result' : Type} {count : Nat}

/-- Started further along, the second reader finds what the first one finds, shifted, and ends
further along, or it fails with the same error further along. -/
def Shifts (count : Nat) (shift : Result → Result') (first : Reader Result)
    (second : Reader Result') : Prop :=
  ∀ scan : Scan, second.exec (scan.shift count) =
    ((first.exec scan).map (Prod.map shift (Scan.shift count))).mapError (LineError.shift count)

namespace Shifts

variable {shift : Result → Result'} {shiftPart : Part → Part'} {first : Reader Result}
  {second : Reader Result'}

/-! ### Single moves -/

theorem pure {result : Result} {result' : Result'} (hresult : result' = shift result) :
    Shifts count shift (pure result) (pure result') := by
  intro scan
  rw [hresult]
  rfl

theorem fail (error : LineError) :
    Shifts count shift (.fail error) (.fail (error.shift count)) :=
  fun _ ↦ rfl

theorem miss : Shifts count shift Reader.miss Reader.miss :=
  .fail .empty

theorem fault (found : Fault) : Shifts count shift (Reader.fault found) (Reader.fault found) :=
  fun _ ↦ rfl

theorem here : Shifts count (· + count) Reader.here Reader.here :=
  fun _ ↦ rfl

theorem remaining : Shifts count id Reader.remaining Reader.remaining :=
  fun _ ↦ rfl

theorem rest : Shifts count id (Reader.rest .done) (Reader.rest .done) :=
  fun _ ↦ rfl

theorem look (rule : PassRule) : Shifts count id (Reader.look rule) (Reader.look rule) :=
  fun _ ↦ rfl

theorem run (rule : PassRule) : Shifts count id (Reader.run rule) (Reader.run rule) := by
  intro scan
  show Except.ok (_, Scan.mk (scan.offset + count + _) _) =
    Except.ok (_, Scan.mk (scan.offset + _ + count) _)
  rw [Nat.add_right_comm]
  rfl

theorem accept (text : String) : Shifts count id (Reader.accept text) (Reader.accept text) := by
  intro scan
  rw [exec_accept, exec_accept, scan.literal?_shift]
  cases scan.literal? text with
  | none => rfl
  | some stop => rfl

theorem ofOption (found : Option Result) :
    Shifts count id (Reader.ofOption found) (Reader.ofOption found) := by
  cases found with
  | none => exact .miss
  | some result => exact .pure rfl

/-! ### Sequences, attempts and choices -/

theorem bind {part : Reader Part} {part' : Reader Part'} {next : Part → Reader Result}
    {next' : Part' → Reader Result'} (hpart : Shifts count shiftPart part part')
    (hnext : ∀ found, Shifts count shift (next found) (next' (shiftPart found))) :
    Shifts count shift (part >>= next) (part' >>= next') := by
  intro scan
  rw [exec_bind, exec_bind, hpart scan]
  cases part.exec scan with
  | error error => rfl
  | ok found => exact hnext found.1 found.2

theorem ite {condition : Prop} [Decidable condition] {other : Reader Result}
    {other' : Reader Result'} (hfirst : Shifts count shift first second)
    (hother : Shifts count shift other other') :
    Shifts count shift (if condition then first else other)
      (if condition then second else other') := by
  split
  · exact hfirst
  · exact hother

/-- What a reader matches further along. -/
theorem matcher (hshifts : Shifts count shift first second) (scan : Scan) :
    second.matcher (scan.shift count) =
      (first.matcher scan).map (Prod.map shift (Scan.shift count)) := by
  rw [Reader.matcher, Reader.matcher, hshifts scan]
  cases first.exec scan with
  | error error => rfl
  | ok found => rfl

theorem optional (hshifts : Shifts count shift first second) :
    Shifts count (Option.map shift) first.optional second.optional := by
  intro scan
  rw [exec_optional, exec_optional, hshifts.matcher]
  cases first.matcher scan with
  | none => rfl
  | some found => rfl

theorem orFault (hshifts : Shifts count shift first second) (missing : Fault) :
    Shifts count shift (first.orFault missing) (second.orFault missing) := by
  intro scan
  rw [exec_orFault, exec_orFault, hshifts.matcher]
  cases first.matcher scan with
  | none => rfl
  | some found => rfl

theorem orElse {other : Reader Result} {other' : Reader Result'}
    (hfirst : Shifts count shift first second) (hother : Shifts count shift other other') :
    Shifts count shift (first.orElse other) (second.orElse other') := by
  refine .bind hfirst.optional fun found ↦ ?_
  cases found with
  | none => exact hother
  | some result => exact .pure rfl

theorem firstOf {Entry : Type} {reader : Entry → Reader Result} {reader' : Entry → Reader Result'}
    (hreader : ∀ entry, Shifts count shift (reader entry) (reader' entry)) (table : List Entry) :
    Shifts count shift (Reader.firstOf reader table) (Reader.firstOf reader' table) := by
  induction table with
  | nil => exact .miss
  | cons entry table ih => exact (hreader entry).orElse ih

/-! ### Matchers -/

theorem skipBlanks : Shifts count id Reader.skipBlanks Reader.skipBlanks :=
  .bind (.run _) fun _ ↦ .pure rfl

theorem blanks : Shifts count id Reader.blanks Reader.blanks :=
  .bind (.run _) fun _ ↦ .ite .miss (.pure rfl)

theorem literal (text : String) : Shifts count id (Reader.literal text) (Reader.literal text) :=
  .bind (.accept _) fun _ ↦ .ite .miss (.pure rfl)

theorem keyword (word : String) : Shifts count id (Reader.keyword word) (Reader.keyword word) :=
  .bind (.literal _) fun _ ↦ .bind (.look _) fun _ ↦ .ite .miss (.pure rfl)

/-- A table of fixed texts, each with what it stands for. -/
theorem firstOf_literal {Entry : Type} (text : Entry → String) (result : Entry → Result)
    (table : List Entry) :
    Shifts count id
      (Reader.firstOf (fun entry ↦ do Reader.literal (text entry); Pure.pure (result entry)) table)
      (Reader.firstOf (fun entry ↦ do Reader.literal (text entry); Pure.pure (result entry))
        table) := by
  refine .firstOf (fun entry ↦ ?_) table
  exact .bind (.literal _) fun _ ↦ .pure rfl

theorem oneOf (table : List (Char × Result)) :
    Shifts count id (Reader.oneOf table) (Reader.oneOf table) := by
  rw [Reader.oneOf]
  exact .firstOf_literal _ _ table

/-! ### Operands -/

theorem registerName : Shifts count id Reader.registerName Reader.registerName :=
  .bind (.oneOf _) fun _ ↦ .bind (.run _) fun _ ↦ .bind (.look _) fun _ ↦
    .bind (.ofOption _) fun _ ↦ .ite (.pure rfl) .miss

theorem register : Shifts count (Operand.shift count) Reader.register Reader.register :=
  .bind .here fun _ ↦ .bind .registerName fun _ ↦ .bind .here fun _ ↦
    .pure (congrArg (Operand.mk _ _) (Span.between_shift ..))

theorem offset : Shifts count id Reader.offset Reader.offset :=
  .bind (.oneOf _) fun _ ↦ .bind (.run _) fun _ ↦ .bind (.ofOption _) fun _ ↦ .pure rfl

theorem reference : Shifts count (Operand.shift count) Reader.reference Reader.reference := by
  have hwidth : Shifts count id
      (Reader.firstOf (fun width ↦ do Reader.keyword width.1; Pure.pure width.2) Operand.widths)
      (Reader.firstOf (fun width ↦ do Reader.keyword width.1; Pure.pure width.2)
        Operand.widths) := by
    refine .firstOf (fun _ ↦ ?_) _
    exact .bind (.keyword _) fun _ ↦ .pure rfl
  exact .bind .here fun _ ↦ .bind (.literal _) fun _ ↦ .bind .skipBlanks fun _ ↦
    .bind hwidth fun _ ↦ .bind .skipBlanks fun _ ↦ .bind (.literal _) fun _ ↦
      .bind .skipBlanks fun _ ↦ .bind (.literal _) fun _ ↦ .bind .skipBlanks fun _ ↦
        .bind .registerName fun _ ↦ .bind .skipBlanks fun _ ↦ .bind .offset fun _ ↦
          .bind .skipBlanks fun _ ↦ .bind (.literal _) fun _ ↦ .bind .here fun _ ↦
            .pure (congrArg (Operand.mk _ _) (Span.between_shift ..))

theorem magnitude : Shifts count id Reader.magnitude Reader.magnitude := by
  have hmark : Shifts count id Reader.hexMark Reader.hexMark := .orElse (.literal _) (.literal _)
  refine .bind hmark.optional fun found ↦ ?_
  cases found with
  | none => exact .bind (.run _) fun _ ↦ .ofOption _
  | some mark => exact .bind (.run _) fun _ ↦ .ofOption _

theorem immediate : Shifts count (Operand.shift count) Reader.immediate Reader.immediate := by
  have hmark : Shifts count id Reader.longMark Reader.longMark :=
    .bind .blanks fun _ ↦ .keyword _
  exact .bind .here fun _ ↦ .bind (.accept _) fun _ ↦ .bind .magnitude fun _ ↦
    .bind (.look _) fun _ ↦ .ite .miss <| .bind .here fun _ ↦ .bind hmark.optional fun _ ↦
      .pure (congrArg (Operand.mk _ _) (Span.between_shift ..))

theorem target : Shifts count (Operand.shift count) Reader.target Reader.target :=
  .orElse .register .reference

theorem source : Shifts count (Operand.shift count) Reader.source Reader.source :=
  .orElse .target .immediate

theorem modifier : Shifts count id Reader.modifier Reader.modifier := by
  have hnegation : Shifts count id Reader.negation Reader.negation :=
    .bind (.literal _) fun _ ↦ .bind (.look _) fun _ ↦ .ite (.pure rfl) .miss
  have hswap : Shifts count id Reader.swap Reader.swap := by
    refine .firstOf (fun _ ↦ ?_) _
    exact .bind (.keyword _) fun _ ↦ .bind .blanks fun _ ↦ .pure rfl
  have hcast : Shifts count id Reader.cast Reader.cast := by
    refine .firstOf (fun _ ↦ ?_) _
    exact .bind (.literal _) fun _ ↦ .bind .skipBlanks fun _ ↦ .pure rfl
  exact .orElse (.orElse hnegation hswap) hcast

/-! ### Instructions -/

theorem assignment :
    Shifts count (Assignment.shift count) Reader.assignment Reader.assignment := by
  have hlock : Shifts count id Reader.lock Reader.lock := .bind (.keyword _) fun _ ↦ .blanks
  refine .bind hlock.optional fun locked ↦ .bind (.orFault .target _) fun target ↦
    .bind .skipBlanks fun _ ↦ .bind (.orFault (.firstOf_literal _ _ _) _) fun operator ↦
      .bind .skipBlanks fun _ ↦ .bind (.optional .modifier) fun modifier ↦
        .bind (.orFault .source _) fun source ↦ .pure ?_
  rw [Option.map_id, Option.map_id]
  rfl

theorem keywordAndBlanks (word : String) :
    Shifts count id (Reader.keywordAndBlanks word) (Reader.keywordAndBlanks word) :=
  .bind (.orFault (.keyword _) _) fun _ ↦ .orFault .blanks _

theorem goto : Shifts count id Reader.goto Reader.goto := by
  refine .bind (.optional (.keyword _)) fun found ↦ ?_
  cases found with
  | none => exact .keywordAndBlanks _
  | some word => exact .orFault .blanks _

theorem jumpTarget :
    Shifts count (Prod.map id (Span.shift count)) Reader.jumpTarget Reader.jumpTarget :=
  .bind .here fun _ ↦ .bind (.run _) fun _ ↦ .ite (.fail _) <| .bind .here fun _ ↦
    .pure (congrArg (Prod.mk _) (Span.between_shift ..))

theorem condition : Shifts count (Condition.shift count) Reader.condition Reader.condition :=
  .bind (.orFault .register _) fun _ ↦ .bind .skipBlanks fun _ ↦
    .bind (.orFault (.firstOf_literal _ _ _) _) fun _ ↦ .bind .skipBlanks fun _ ↦
      .bind (.orFault .source _) fun _ ↦ .pure rfl

theorem jump (operation : JumpOperation) :
    Shifts count (Jump.shift count) (Reader.jump operation) (Reader.jump operation) := by
  have hconditional : Shifts count (Jump.shift count) Reader.conditional Reader.conditional :=
    .bind (.keywordAndBlanks _) fun _ ↦ .bind .condition fun _ ↦
      .bind (.orFault .blanks _) fun _ ↦ .bind .goto fun _ ↦ .bind .jumpTarget fun _ ↦ .pure rfl
  cases operation with
  | call => exact .bind (.keywordAndBlanks _) fun _ ↦ .bind .jumpTarget fun _ ↦ .pure rfl
  | exit => exact .bind (.optional (.keyword _)) fun _ ↦ .pure rfl
  | ja => exact .bind .goto fun _ ↦ .bind .jumpTarget fun _ ↦ .pure rfl
  | _ => exact hconditional

theorem instruction (pc : Nat) (opcode : Opcode) : Shifts count (Instruction.shift count)
    (Reader.instruction pc opcode) (Reader.instruction pc opcode) := by
  have hoperation : Shifts count (Operation.shift count) (operation opcode) (operation opcode) :=
    .ite (.bind (.orFault (.ofOption _) _) fun _ ↦ .bind (.jump _) fun _ ↦ .pure rfl)
      (.bind .assignment fun _ ↦ .pure rfl)
  exact .bind .here fun _ ↦ .bind hoperation fun _ ↦ .bind .here fun _ ↦
    .pure (congrArg (Instruction.mk _ _ _) (Span.between_shift ..))

/-! ### Facts -/

theorem factToken : Shifts count (FactToken.shift count) Reader.factToken Reader.factToken :=
  .bind .here fun _ ↦ .bind (.run _) fun _ ↦ .bind (.accept _) fun _ ↦
    .ite
      (.bind (.run _) fun _ ↦ .bind .here fun _ ↦
        .pure (congrArg (FactToken.mk _ _) (Span.between_shift ..)))
      (.bind .here fun _ ↦ .pure (congrArg (FactToken.mk _ _) (Span.between_shift ..)))

theorem factTokens (turns : Nat) : Shifts count (List.map (FactToken.shift count))
    (Reader.factTokens turns) (Reader.factTokens turns) := by
  induction turns with
  | zero => exact .pure rfl
  | succ turns ih =>
    exact .bind .skipBlanks fun _ ↦ .bind .remaining fun _ ↦ .ite (.pure rfl) <|
      .bind .factToken fun _ ↦ .bind ih fun _ ↦ .pure rfl

theorem facts : Shifts count (List.map (Fact.shift count)) Reader.facts Reader.facts := by
  have hmark : Shifts count id Reader.frameMark Reader.frameMark :=
    .bind (.literal _) fun _ ↦ .bind (.run _) fun _ ↦ .bind (.literal _) fun _ ↦ .ofOption _
  refine .bind .skipBlanks fun _ ↦ .bind hmark.optional fun depth ↦ .bind .remaining fun _ ↦
    .bind (.factTokens _) fun tokens ↦ .pure ?_
  rw [Option.map_id, List.filterMap_map, List.map_filterMap]
  exact congrArg (List.filterMap · tokens) (funext (Fact.ofToken?_shift count (depth.getD 0)))

/-! ### Lines -/

theorem opcode : Shifts count id Reader.opcode Reader.opcode := by
  refine .bind (.orFault (.literal _) _) fun _ ↦ .bind .here fun start ↦
    .bind (.run _) fun digits ↦ ?_
  dsimp only [id]
  cases Opcode.ofText (String.ofList digits) with
  | error cause => exact .fail _
  | ok opcode => exact .bind (.orFault (.literal _) _) fun _ ↦ .pure rfl

theorem line : Shifts count (LineContent.shift count) Reader.line Reader.line := by
  have hcomment : Shifts count (LineContent.shift count) sourceComment sourceComment :=
    .bind .skipBlanks fun _ ↦ .bind .here fun _ ↦ .bind .rest fun _ ↦ .pure rfl
  have hending : Shifts count (List.map (Fact.shift count)) ending ending :=
    .bind .skipBlanks fun _ ↦ .bind .remaining fun _ ↦ .ite (.pure rfl) <|
      .bind (.accept _) fun _ ↦ .ite .facts <| .bind .rest fun _ ↦ .fault _
  have hcounter : Shifts count id programCounter programCounter :=
    .orFault (.bind (.run _) fun _ ↦ .ofOption _) _
  have hinstruction : Shifts count (LineContent.shift count) instructionLine instructionLine :=
    .bind hcounter fun _ ↦ .bind (.orFault (.literal _) _) fun _ ↦ .bind .skipBlanks fun _ ↦
      .bind .opcode fun _ ↦ .bind .skipBlanks fun _ ↦ .bind (.instruction _ _) fun _ ↦
        .bind hending fun _ ↦ .pure rfl
  exact .bind .skipBlanks fun _ ↦ .bind .remaining fun _ ↦ .ite .miss <|
    .bind (.accept _) fun _ ↦ .ite hcomment hinstruction

end Shifts

end Reader

/-- A line is read alike wherever it stands, but for its positions. -/
theorem Line.readContent_shift (count : Nat) (scan : Scan) : readContent (scan.shift count) =
    ((readContent scan).map (LineContent.shift count)).mapError (LineError.shift count) := by
  rw [← Reader.exec_line, ← Reader.exec_line, Reader.Shifts.line scan]
  cases Reader.line.exec scan with
  | error error => rfl
  | ok found => rfl

end VerifierTrace
