import VerifierTrace.Proofs.Grammar.Comment
import VerifierTrace.Proofs.Grammar.LineReader
import VerifierTrace.Proofs.Grammar.Names
import VerifierTrace.Proofs.Grammar.Spans

/-!
# Reading by positions

`Line.readAt` reads a line, and `Fact.readAt` its facts from a position on, by moving over the
octets of the line and cutting it at positions; a cut inside a character or beyond the end leaves
them without an answer. `Line.reads_places` says that they always answer, and answer with what
`Line.ofText` and `Fact.readFrom` give: no cut is refused, nor is one in a name. It also says that
all spans and positions in the answers are places of the line, in the order of the text.

The positions of faults need an argument of their own. A reader reports faults inside the line
(`Reader.FaultsInside`) when it is put together from readers that do: each fault stands where some
reader began, and that is a place that the readers before it reached.

Reading facts may begin at any position. One inside a character is moved forward octet by octet, to
the end of the character (`nextBoundary_inside`), which is the place that `Scan.seek` finds.
-/

set_option autoImplicit false
set_option relaxedAutoImplicit false

namespace VerifierTrace

open Scan

/-! ### Positions of faults -/

namespace Reader

variable {Part Result : Type} {reader : Reader Result}

/-- Every fault that the reader reports stands at a place of the line that it read. -/
def FaultsInside (reader : Reader Result) : Prop :=
  ∀ ⦃scan : Scan⦄ ⦃offset : Nat⦄ ⦃fault : Fault⦄, reader.exec scan = .error (.fault offset fault) →
    ∃ place, scan.Reaches place ∧ place.offset = offset

namespace FaultsInside

theorem of_exec {result : Scan → Result × Scan}
    (hexec : ∀ scan, reader.exec scan = .ok (result scan)) : reader.FaultsInside := by
  intro scan offset fault hfault
  rw [hexec scan] at hfault
  cases hfault

theorem of_empty : (Reader.fail .empty : Reader Result).FaultsInside := by
  intro scan offset fault hfault
  cases hfault

theorem bind {first : Reader Part} {next : Part → Reader Result} (hfirst : first.FaultsInside)
    (hnext : ∀ part, (next part).FaultsInside) : (first >>= next).FaultsInside := by
  intro scan offset fault hfault
  rw [exec_bind] at hfault
  cases hexec : first.exec scan with
  | error error =>
    rw [hexec] at hfault
    obtain rfl := Except.error.inj hfault
    exact hfirst hexec
  | ok found =>
    rw [hexec] at hfault
    obtain ⟨place, hplace, hoffset⟩ := hnext _ hfault
    exact ⟨place, (first.reaches_of_exec hexec).trans hplace, hoffset⟩

theorem pure (result : Result) : (pure result : Reader Result).FaultsInside :=
  of_exec fun _ ↦ rfl

theorem ite {condition : Prop} [Decidable condition] {first second : Reader Result}
    (hfirst : first.FaultsInside) (hsecond : second.FaultsInside) :
    (if condition then first else second).FaultsInside := by
  split
  · exact hfirst
  · exact hsecond

/-- A reader that must find something reports a fault where it began. -/
theorem orFault (reader : Reader Result) (missing : Fault) :
    (reader.orFault missing).FaultsInside := by
  intro scan offset fault hfault
  rw [exec_orFault] at hfault
  cases hfound : reader.matcher scan with
  | none =>
    rw [hfound] at hfault
    obtain ⟨rfl, -⟩ := LineError.fault.inj (Except.error.inj hfault)
    exact ⟨scan, .refl scan, rfl⟩
  | some found =>
    rw [hfound] at hfault
    cases hfault

theorem fault (found : Fault) : (Reader.fault found : Reader Result).FaultsInside := by
  intro scan offset fault hfault
  obtain ⟨rfl, -⟩ := LineError.fault.inj (Except.error.inj hfault)
  exact ⟨scan, .refl scan, rfl⟩

theorem here : Reader.here.FaultsInside :=
  of_exec exec_here

theorem skipBlanks : Reader.skipBlanks.FaultsInside :=
  of_exec exec_skipBlanks

theorem optional (reader : Reader Part) : reader.optional.FaultsInside :=
  of_exec (exec_optional reader)

theorem accept (text : String) : (Reader.accept text).FaultsInside :=
  of_exec (exec_accept text)

theorem remaining : Reader.remaining.FaultsInside :=
  of_exec exec_remaining

theorem rest : (Reader.rest .done).FaultsInside :=
  of_exec fun _ ↦ rfl

/-! ### Instructions -/

theorem keywordAndBlanks (word : String) : (Reader.keywordAndBlanks word).FaultsInside :=
  .bind (.orFault _ _) fun _ ↦ .orFault _ _

theorem goto : Reader.goto.FaultsInside := by
  refine .bind (.optional _) fun found ↦ ?_
  cases found with
  | none => exact .keywordAndBlanks _
  | some word => exact .orFault _ _

theorem jumpTarget : Reader.jumpTarget.FaultsInside := by
  intro scan offset fault hfault
  rw [exec_jumpTarget, Scan.target] at hfault
  simp only at hfault
  split at hfault
  · obtain ⟨rfl, -⟩ := LineError.fault.inj (Except.error.inj hfault)
    exact ⟨scan, .refl scan, rfl⟩
  · cases hfault

theorem assignment : Reader.assignment.FaultsInside := by
  refine .bind (.optional _) fun locked ↦ .bind (.orFault _ _) fun target ↦
    .bind .skipBlanks fun _ ↦ .bind (.orFault _ _) fun operator ↦ .bind .skipBlanks fun _ ↦
      .bind (.optional _) fun modifier ↦ .bind (.orFault _ _) fun source ↦ .pure _

theorem condition : Reader.condition.FaultsInside :=
  .bind (.orFault _ _) fun _ ↦ .bind .skipBlanks fun _ ↦ .bind (.orFault _ _) fun _ ↦
    .bind .skipBlanks fun _ ↦ .bind (.orFault _ _) fun _ ↦ .pure _

theorem jump (operation : JumpOperation) : (Reader.jump operation).FaultsInside := by
  have hconditional : conditional.FaultsInside :=
    .bind (.keywordAndBlanks _) fun _ ↦ .bind .condition fun condition ↦
      .bind (.orFault _ _) fun _ ↦ .bind .goto fun _ ↦ .bind .jumpTarget fun target ↦ .pure _
  cases operation with
  | call => exact .bind (.keywordAndBlanks _) fun _ ↦ .bind .jumpTarget fun target ↦ .pure _
  | exit => exact .bind (.optional _) fun word ↦ .pure _
  | ja => exact .bind .goto fun _ ↦ .bind .jumpTarget fun target ↦ .pure _
  | _ => exact hconditional

theorem instruction (pc : Nat) (opcode : Opcode) :
    (Reader.instruction pc opcode).FaultsInside := by
  have hoperation : (operation opcode).FaultsInside :=
    .ite (.bind (.orFault _ _) fun operation ↦ .bind (.jump operation) fun jump ↦ .pure _)
      (.bind .assignment fun assignment ↦ .pure _)
  exact .bind .here fun start ↦ .bind hoperation fun operation ↦ .bind .here fun stop ↦ .pure _

/-! ### Lines -/

/-- Facts are read without faults. -/
theorem facts : Reader.facts.FaultsInside := by
  intro scan offset fault hfault
  have hexec := exec_facts scan
  rw [hfault] at hexec
  cases hexec

theorem opcode : Reader.opcode.FaultsInside := by
  refine .bind (.orFault _ _) fun _ scan offset fault hfault ↦ ?_
  simp only [exec_bind, exec_here, bind_ok, opcodeRule, exec_run_ofClass] at hfault
  split at hfault
  · obtain ⟨rfl, -⟩ := LineError.fault.inj (Except.error.inj hfault)
    exact ⟨scan, .refl scan, rfl⟩
  · obtain ⟨place, hplace, hoffset⟩ :=
      (FaultsInside.bind (.orFault _ _) fun _ ↦ .pure _ : FaultsInside (do _; _)) hfault
    exact ⟨place, (scan.reaches_skipWhile isOpcodeChar).trans hplace, hoffset⟩

theorem line : Reader.line.FaultsInside := by
  have hcomment : sourceComment.FaultsInside :=
    .bind .skipBlanks fun _ ↦ .bind .here fun start ↦ .bind .rest fun text ↦ .pure _
  have hending : ending.FaultsInside :=
    .bind .skipBlanks fun _ ↦ .bind .remaining fun _ ↦ .ite (.pure _) <|
      .bind (.accept _) fun found ↦ .ite .facts <| .bind .rest fun text ↦ .fault _
  have hinstruction : instructionLine.FaultsInside :=
    .bind (.orFault _ _) fun pc ↦ .bind (.orFault _ _) fun _ ↦ .bind .skipBlanks fun _ ↦
      .bind .opcode fun opcode ↦ .bind .skipBlanks fun _ ↦ .bind (.instruction pc opcode) fun _ ↦
        .bind hending fun facts ↦ .pure _
  exact .bind .skipBlanks fun _ ↦ .bind .remaining fun _ ↦ .ite .of_empty <|
    .bind (.accept _) fun found ↦ .ite hcomment hinstruction

end FaultsInside

end Reader

/-! ### Positions between characters -/

/-- The first position from this one on that lies between two characters of a line, or the position
itself when it is beyond the end. -/
def nextBoundary (line : List Char) (position : Nat) : Nat :=
  if position < octets line ∧ dropOctets? position line = none then
    nextBoundary line (position + 1)
  else position
  termination_by octets line - position

theorem le_nextBoundary (line : List Char) (position : Nat) :
    position ≤ nextBoundary line position := by
  fun_induction nextBoundary line position with
  | case1 position hinside ih => exact Nat.le_of_succ_le ih
  | case2 position hcut => exact Nat.le_refl position

theorem nextBoundary_of_cut {line : List Char} {position : Nat}
    (hcut : dropOctets? position line ≠ none) : nextBoundary line position = position := by
  rw [nextBoundary, if_neg fun h ↦ hcut h.2]

/-- After the beginning of a line, what follows it is cut. -/
theorem dropOctets?_octets_add (before text : List Char) (count : Nat) :
    dropOctets? (octets before + count) (before ++ text) = dropOctets? count text := by
  induction before with
  | nil => rw [octets_nil, Nat.zero_add, List.nil_append]
  | cons c before ih =>
    have hpos := c.utf8Size_pos
    obtain ⟨more, hmore⟩ : ∃ more, octets (c :: before) + count = more + 1 :=
      ⟨octets (c :: before) + count - 1, by rw [octets_cons]; omega⟩
    have hrest : more + 1 - c.utf8Size = octets before + count := by
      rw [← hmore, octets_cons]
      omega
    rw [hmore, List.cons_append, dropOctets?, if_pos (by rw [← hmore, octets_cons]; omega), hrest,
      ih]

theorem dropOctets?_inside {c : Char} {count : Nat} (hpos : 0 < count)
    (hinside : count < c.utf8Size) (text : List Char) : dropOctets? count (c :: text) = none := by
  cases count with
  | zero => exact absurd hpos (Nat.lt_irrefl 0)
  | succ count => rw [dropOctets?, if_neg (Nat.not_le_of_gt hinside)]

/-- From a position inside a character the next boundary is at its end. -/
theorem nextBoundary_inside (before after : List Char) (c : Char) {count missing : Nat}
    (hpos : 0 < count) (hmissing : count + missing = c.utf8Size) :
    nextBoundary (before ++ c :: after) (octets before + count) = octets before + c.utf8Size := by
  induction missing generalizing count with
  | zero =>
    obtain rfl : count = c.utf8Size := hmissing
    refine nextBoundary_of_cut ?_
    have hcut := dropOctets?_octets_append (before ++ [c]) after
    rw [octets_append, octets_cons, octets_nil, Nat.add_zero, List.append_assoc] at hcut
    rw [List.singleton_append.symm, hcut]
    exact Option.some_ne_none after
  | succ missing ih =>
    have hinside : dropOctets? (octets before + count) (before ++ c :: after) = none := by
      rw [dropOctets?_octets_add, dropOctets?_inside hpos (by omega)]
    have hbefore : octets before + count < octets (before ++ c :: after) := by
      rw [octets_append, octets_cons]
      omega
    rw [nextBoundary, if_pos ⟨hbefore, hinside⟩]
    exact ih (Nat.succ_pos count) (by omega)

theorem reaches_seek (position offset : Nat) (text : List Char) :
    (Scan.mk offset text).Reaches (Scan.seek position offset text) := by
  induction text generalizing offset with
  | nil => exact .refl _
  | cons c text ih =>
    rw [Scan.seek]
    split
    · exact .refl _
    · exact Reaches.trans ⟨[c], rfl, rfl⟩ (ih (offset + c.utf8Size))

theorem offset_seek_append {position : Nat} (before after : List Char)
    (hbefore : position ≤ octets before → nextBoundary (before ++ after)
      (min position (octets (before ++ after))) = octets before) :
    (Scan.seek position (octets before) after).offset =
      nextBoundary (before ++ after) (min position (octets (before ++ after))) := by
  induction after generalizing before with
  | nil =>
    rw [Scan.seek]
    by_cases hposition : position ≤ octets before
    · exact (hbefore hposition).symm
    · have hcut : dropOctets? (octets before) (before ++ []) ≠ none := by
        rw [dropOctets?_octets_append]
        exact Option.some_ne_none []
      rw [octets_append, octets_nil, Nat.add_zero, Nat.min_eq_right (Nat.le_of_not_le hposition),
        nextBoundary_of_cut hcut]
  | cons c after ih =>
    rw [Scan.seek]
    split
    · next hposition => exact (hbefore hposition).symm
    · next hposition =>
      have hline : before ++ c :: after = (before ++ [c]) ++ after :=
        (List.append_cons before c after)
      have hoctets : octets (before ++ [c]) = octets before + c.utf8Size := by
        rw [octets_append, octets_cons, octets_nil, Nat.add_zero]
      rw [← hoctets, hline]
      refine ih _ fun hinside ↦ ?_
      -- The position lies in the character `c` or at its end.
      obtain ⟨count, rfl⟩ := Nat.le.dest (Nat.le_of_not_le hposition)
      rw [hoctets] at hinside
      obtain ⟨missing, hmissing⟩ := Nat.le.dest (Nat.le_of_add_le_add_left hinside)
      have hcount : 0 < count := by omega
      have hmin : octets before + count ≤ octets (before ++ [c] ++ after) := by
        rw [octets_append, hoctets]
        omega
      rw [Nat.min_eq_left hmin, ← hline, nextBoundary_inside before after c hcount hmissing,
        hoctets]

/-- The place that is sought is at the next boundary. -/
theorem offset_seek (line : List Char) (position : Nat) :
    (Scan.seek position 0 line).offset = nextBoundary line (min position (octets line)) := by
  refine offset_seek_append [] line fun hposition ↦ ?_
  rw [Nat.le_zero.mp hposition, Nat.zero_min]
  refine nextBoundary_of_cut ?_
  rw [dropOctets?_zero]
  exact Option.some_ne_none _

/-! ### Reading by positions -/

/-- Reads a line by positions, from its first octet on. -/
def Line.readAt (line : String) : Option LineContent :=
  (Reader.line.execAt line.toList 0).map fun
    | .ok (content, _) => content
    | .error error => .unrecognized error

/-- Reads the facts of a line by positions, from one on that may lie inside a character or beyond
the end. -/
def Fact.readAt (line : String) (position : Nat) : Option (List Fact) :=
  (Reader.facts.execAt line.toList
    (nextBoundary line.toList (min position (octets line.toList)))).bind fun
      | .ok (facts, _) => some facts
      | .error _ => none

theorem Fact.readAt_eq_readFrom (line : String) (position : Nat) :
    Fact.readAt line position = some (Fact.readFrom line position) := by
  have hplace : (Scan.ofText line).Reaches (Scan.seek position 0 line.toList) :=
    reaches_seek position 0 line.toList
  have hexec := Reader.exec_facts (Scan.seek position 0 line.toList)
  rw [Fact.readAt, ← offset_seek, Reader.facts.execAt_offset hplace, Option.bind_some,
    Fact.readFrom]
  cases hfacts : Reader.facts.exec (Scan.seek position 0 line.toList) with
  | error error =>
    rw [hfacts] at hexec
    cases hexec
  | ok found =>
    rw [hfacts] at hexec
    exact congrArg some (Except.ok.inj hexec)

theorem Line.readAt_eq_content (text : String) :
    Line.readAt (Line.withoutLineEnd text) = some (Line.ofText text).content := by
  have hexec := Reader.exec_line (Scan.ofText (Line.withoutLineEnd text))
  have hread := Reader.line.execAt_offset (.refl (Scan.ofText (Line.withoutLineEnd text)))
  have hstart : (Scan.ofText (Line.withoutLineEnd text)).offset = 0 := rfl
  rw [hstart] at hread
  rw [Line.readAt, hread, Line.ofText, ← hexec]
  cases Reader.line.exec (Scan.ofText (Line.withoutLineEnd text)) with
  | error error => rfl
  | ok found => rfl

/-! ### Places in what is read -/

/-- The position lies in the line, between two characters or at an end. -/
def IsPosition (line : String) (position : Nat) : Prop :=
  position ≤ octets line.toList ∧ (dropOctets? position line.toList).isSome

/-- All spans and positions are places of the line: the parts of an instruction stand in order
inside it and its facts after it, a source comment can be cut out, and a fault stands between two
characters. -/
def LineContent.IsPlaced (line : String) : LineContent → Prop
  | .instruction read facts =>
    read.IsPlaced line ∧ Fact.ArePlaced line (read.span.stop + 1) facts
  | .sourceComment span => (span.slice? line).isSome
  | .unrecognized error => ∀ offset, error.offset? = some offset → IsPosition line offset

section Placed

variable {line : String} {start scan : Scan}

theorem isPosition_of_reaches (hreaches : (Scan.ofText line).Reaches scan) :
    IsPosition line scan.offset := by
  have hend : scan.offset + octets scan.rest = 0 + octets line.toList :=
    congrArg Scan.offset hreaches.lineEnd_eq
  refine ⟨by omega, ?_⟩
  rw [Reader.dropOctets?_offset hreaches]
  rfl

/-- The facts of an ending stand after the instruction before it. -/
theorem EndingForm.arePlaced {form : EndingForm} {stop : Scan}
    (hstart : (Scan.ofText line).Reaches start) (hpasses : Passes form.text start stop)
    (hstop : stop.rest = []) :
    Fact.ArePlaced line (start.offset + 1) (form.facts start.offset) := by
  rw [EndingForm.facts]
  rw [EndingForm.text] at hpasses
  cases hcomment : form.comment with
  | none => exact ⟨.nil, List.forall_mem_nil _⟩
  | some comment =>
    rw [hcomment, commentText, ← List.append_assoc, passes_append] at hpasses
    obtain ⟨after, hsemicolon, htext⟩ := hpasses
    have hplace : after = ⟨start.offset + octets (form.blanks.text ++ [';']), comment⟩ := by
      rw [← hsemicolon.2, ← List.append_nil comment, ← hstop, ← htext.1]
    have hplaced := Fact.arePlaced_read (hstart.trans hsemicolon.reaches)
    have hbefore : start.offset + 1 ≤ after.offset := by
      have hone : octets [';'] = 1 := rfl
      rw [hsemicolon.2, octets_append, hone]
      omega
    simp only [← hplace]
    exact ⟨hplaced.inOrder.mono hbefore, hplaced.standsIn⟩

theorem LineContent.isPlaced_readSourceComment (hstart : (Scan.ofText line).Reaches start) :
    (Line.readSourceComment start).IsPlaced line := by
  obtain ⟨removed, hremoved, -⟩ := trimEndWhile_append isWhiteSpace start.skipBlanks.rest
  have hpasses : Passes (trimEnd start.skipBlanks.rest) start.skipBlanks
      ⟨start.skipBlanks.offset + octets (trimEnd start.skipBlanks.rest), removed⟩ := ⟨hremoved, rfl⟩
  have hslice := slice?_of_passes (hstart.trans start.reaches_skipBlanks) hpasses
  exact Option.isSome_of_eq_some hslice

theorem LineContent.isPlaced_of_readContent {content : LineContent}
    (hread : Line.readContent (Scan.ofText line) = .ok content) : content.IsPlaced line := by
  rcases Line.readContent_cases hread with ⟨comment, hreaches, rfl⟩ | ⟨instruction, facts, rfl⟩
  · exact isPlaced_readSourceComment hreaches
  · obtain ⟨head, ending, place, after, stop, hhead, -, hinstruction, hending, hstop, rfl⟩ :=
      Line.exists_of_readContent hread
    obtain ⟨hplaced, hafter⟩ := Instruction.isPlaced_of_read hhead.reaches hinstruction
    have hreaches := hhead.reaches.trans (Instruction.tokens_of_read hinstruction).1.reaches
    refine ⟨hplaced, ?_⟩
    rw [hafter]
    exact EndingForm.arePlaced hreaches hending hstop

theorem LineContent.isPlaced_unrecognized {error : LineError}
    (hread : Line.readContent (Scan.ofText line) = .error error) :
    (LineContent.unrecognized error).IsPlaced line := by
  intro offset hoffset
  cases error with
  | empty => cases hoffset
  | fault position fault =>
    obtain rfl := Option.some.inj hoffset
    have hexec := Reader.exec_line (Scan.ofText line)
    rw [hread] at hexec
    cases hline : Reader.line.exec (Scan.ofText line) with
    | ok found =>
      rw [hline] at hexec
      cases hexec
    | error error =>
      rw [hline] at hexec
      obtain rfl := Except.error.inj hexec
      obtain ⟨place, hreaches, rfl⟩ := Reader.FaultsInside.line hline
      exact isPosition_of_reaches hreaches

end Placed

theorem LineContent.isPlaced_ofText (text : String) :
    (Line.ofText text).content.IsPlaced (Line.ofText text).raw := by
  simp only [Line.ofText]
  split
  · next content hread => exact isPlaced_of_readContent hread
  · next error hread => exact isPlaced_unrecognized hread

/-- The facts that are read from a position on stand in the line after it. -/
theorem Fact.arePlaced_readFrom (line : String) (position : Nat) :
    Fact.ArePlaced line (min position (octets line.toList)) (Fact.readFrom line position) := by
  have hplaced := Fact.arePlaced_read (reaches_seek position 0 line.toList)
  rw [offset_seek] at hplaced
  exact ⟨hplaced.inOrder.mono (le_nextBoundary _ _), hplaced.standsIn⟩

example : (Fact.readFrom "é R1=1" 1).map Fact.span = [⟨3, 4⟩] := by
  decide +kernel

/-- No cut is refused, and all places in what is read are places of the line. -/
theorem Line.reads_places :
    (∀ text, Line.readAt (Line.ofText text).raw = some (Line.ofText text).content ∧
      (Line.ofText text).content.IsPlaced (Line.ofText text).raw) ∧
    (∀ line position, Fact.readAt line position = some (Fact.readFrom line position) ∧
      Fact.ArePlaced line (min position (octets line.toList)) (Fact.readFrom line position)) ∧
    (∀ name, Slot.readAt name = some (Slot.ofText name)) ∧
    ∀ target, pcOffsetAt target = some (pcOffset? target) := by
  refine ⟨fun text ↦ ⟨?_, LineContent.isPlaced_ofText text⟩, fun line position ↦
    ⟨Fact.readAt_eq_readFrom line position, Fact.arePlaced_readFrom line position⟩,
    Slot.readAt_eq, pcOffsetAt_eq⟩
  rw [Line.raw_ofText]
  exact Line.readAt_eq_content text

end VerifierTrace
