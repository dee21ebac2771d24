import VerifierTrace.Line.Reader
import VerifierTrace.Proofs.Grammar.Target

/-!
# The forms of instruction lines

An instruction line is a head, the text of the instruction, and an ending. A `HeadForm` is the
program counter, a colon and the opcode in parentheses, with the blanks around them, and an
`EndingForm` is blanks and perhaps a semicolon with a comment, which may hold anything. Both are
the same for all instructions. A line is an instruction line exactly when it begins with a head, an
instruction of its opcode is read after it, and an ending follows (`readContent_eq_ok_iff`).
-/

set_option autoImplicit false
set_option relaxedAutoImplicit false

namespace VerifierTrace

open Scan

/-! ### Opcodes -/

/-- Two hexadecimal digits. -/
structure OpcodeForm where
  high : Char
  low : Char
  isHigh : high.isHexDigit
  isLow : low.isHexDigit

namespace OpcodeForm

def digits (form : OpcodeForm) : List Char :=
  [form.high, form.low]

def text (form : OpcodeForm) : List Char :=
  ['('] ++ (form.digits ++ [')'])

def opcode (form : OpcodeForm) : Opcode :=
  ⟨UInt8.ofNat (Numeral.ofDigits 16 form.digits)⟩

/-- The digits of an octet, in lower case. -/
def ofOctet (octet : Nat) : OpcodeForm where
  high := Nat.digitChar (octet / 16 % 16)
  low := Nat.digitChar (octet % 16)
  isHigh := (Opcode.digitValue_digitChar _ (Nat.mod_lt _ (by decide))).1
  isLow := (Opcode.digitValue_digitChar _ (Nat.mod_lt _ (by decide))).1

theorem isNumeral (form : OpcodeForm) : Numeral.isNumeral Char.isHexDigit form.digits := by
  simp [Numeral.isNumeral, digits, form.isHigh, form.isLow]

theorem lt_limit (form : OpcodeForm) : Numeral.ofDigits 16 form.digits < Numeral.limit 8 := by
  have hhigh := Numeral.digitValue_lt_of_isHexDigit form.isHigh
  have hlow := Numeral.digitValue_lt_of_isHexDigit form.isLow
  show 16 * (16 * 0 + Numeral.digitValue form.high) + Numeral.digitValue form.low < 256
  omega

theorem ofText_eq_ok_iff {text : List Char} {opcode : Opcode} :
    Opcode.ofText (String.ofList text) = .ok opcode ↔
      ∃ form : OpcodeForm, text = form.digits ∧ opcode = form.opcode := by
  constructor
  · intro h
    unfold Opcode.ofText at h
    split at h
    · rename_i high low htext
      split at h
      · rename_i value hvalue
        obtain ⟨hnumeral, -, rfl⟩ := Numeral.hexadecimal?_eq_some_iff.mp hvalue
        have hall := List.all_eq_true.mp (Numeral.all_of_isNumeral hnumeral)
        exact ⟨⟨high, low, hall high (by simp), hall low (by simp)⟩,
          String.toList_ofList.symm.trans htext, (Except.ok.inj h).symm⟩
      · simp at h
    · simp at h
  · rintro ⟨form, rfl, rfl⟩
    have hvalue := Numeral.hexadecimal?_eq_some_iff.mpr ⟨form.isNumeral, form.lt_limit, rfl⟩
    simp only [Opcode.ofText, String.toList_ofList, digits] at hvalue ⊢
    rw [hvalue]
    rfl

theorem isOpcodeChar_of_isHexDigit {c : Char} (hdigit : c.isHexDigit) : isOpcodeChar c := by
  by_cases hclose : c = ')'
  · rw [hclose] at hdigit
    exact absurd hdigit (by decide)
  · by_cases hspace : c = ' '
    · rw [hspace] at hdigit
      exact absurd hdigit (by decide)
    · simp [isOpcodeChar, hclose, hspace]

end OpcodeForm

namespace Scan

theorem character_eq_ok_iff {start stop : Scan} {expected : Char} :
    start.character expected = .ok stop ↔ Passes [expected] start stop := by
  rw [character, require_eq_ok_iff, literal?_eq_some_iff, String.toList_singleton]
  rfl

theorem opcode_eq_ok_iff {start stop : Scan} {opcode : Opcode} :
    start.opcode = .ok (opcode, stop) ↔
      ∃ form : OpcodeForm, Passes form.text start stop ∧ opcode = form.opcode := by
  constructor
  · intro h
    simp only [Scan.opcode, bind_eq_ok_iff] at h
    obtain ⟨opened, hopened, h⟩ := h
    obtain ⟨digits, after, hrun⟩ : ∃ digits after,
        opened.run isOpcodeChar = (digits, after) := ⟨_, _, rfl⟩
    simp only [hrun] at h
    split at h
    · exact absurd h (by simp [Scan.fault])
    · rename_i found hfound
      obtain ⟨closed, hclosed, hsame⟩ := bind_eq_ok_iff.mp h
      obtain ⟨rfl, rfl⟩ := Prod.mk.inj (Except.ok.inj hsame)
      obtain ⟨form, rfl, rfl⟩ := OpcodeForm.ofText_eq_ok_iff.mp hfound
      obtain ⟨-, hdigits, -⟩ := run_eq_iff.mp hrun
      refine ⟨form, ?_, rfl⟩
      simp only [OpcodeForm.text, passes_append]
      exact ⟨opened, character_eq_ok_iff.mp hopened, after, hdigits,
        character_eq_ok_iff.mp hclosed⟩
  · rintro ⟨form, hpasses, rfl⟩
    simp only [OpcodeForm.text, passes_append] at hpasses
    obtain ⟨opened, hopened, after, hdigits, hclosed⟩ := hpasses
    have hall : form.digits.all isOpcodeChar := by
      simp [OpcodeForm.digits, OpcodeForm.isOpcodeChar_of_isHexDigit, form.isHigh, form.isLow]
    have hrun := run_eq_iff.mpr ⟨hall, hdigits, hclosed.avoids rfl rfl⟩
    have hfound := OpcodeForm.ofText_eq_ok_iff.mpr ⟨form, rfl, rfl⟩
    simp only [Scan.opcode, bind_eq_ok_iff]
    refine ⟨opened, character_eq_ok_iff.mpr hopened, ?_⟩
    simp only [hrun, hfound, bind_eq_ok_iff]
    exact ⟨stop, character_eq_ok_iff.mpr hclosed, rfl⟩

/-- The digits of a number below `2 ^ 64` are read up to the character after them. -/
theorem programCounter_eq_ok_iff {start stop : Scan} {pc : Nat} :
    start.programCounter = .ok (pc, stop) ↔
      ∃ digits, Passes digits start stop ∧ stop.Avoids Char.isDigit ∧
        Numeral.decimal? 64 digits = some pc := by
  refine require_eq_ok_iff.trans (map_run_eq_some_iff fun digits value hvalue ↦ ?_)
  exact Numeral.all_of_isNumeral (Numeral.decimal?_eq_some_iff.mp hvalue).1

end Scan

/-! ### Heads -/

/-- The program counter, a colon and the opcode, with the blanks around them. -/
structure HeadForm where
  indent : Blanks
  counter : List Char
  isNumeral : Numeral.isNumeral Char.isDigit counter
  small : Numeral.ofDigits 10 counter < Nat.pow 2 64
  beforeOpcode : Blanks
  opcodeForm : OpcodeForm
  afterOpcode : Blanks

namespace HeadForm

def text (form : HeadForm) : List Char :=
  form.indent.text ++ (form.counter ++ ([':'] ++ (form.beforeOpcode.text ++
    (form.opcodeForm.text ++ form.afterOpcode.text))))

def pc (form : HeadForm) : Nat :=
  Numeral.ofDigits 10 form.counter

def opcode (form : HeadForm) : Opcode :=
  form.opcodeForm.opcode

theorem exists_head_counter (form : HeadForm) :
    ∃ c, form.counter.head? = some c ∧ c.isDigit := by
  cases hcounter : form.counter with
  | nil =>
    have hnumeral := form.isNumeral
    rw [hcounter] at hnumeral
    exact absurd hnumeral (by decide)
  | cons c digits =>
    have hall := List.all_eq_true.mp (Numeral.all_of_isNumeral form.isNumeral)
    exact ⟨c, rfl, hall c (by rw [hcounter]; exact List.mem_cons_self)⟩

theorem exists_of_read {start afterCounter afterColon afterOpcode : Scan} {pc : Nat}
    {opcode : Opcode} (hcounter : start.skipBlanks.programCounter = .ok (pc, afterCounter))
    (hcolon : afterCounter.character ':' = .ok afterColon)
    (hopcode : afterColon.skipBlanks.opcode = .ok (opcode, afterOpcode)) :
    ∃ head : HeadForm, head.pc = pc ∧ head.opcode = opcode ∧
      Passes head.text start afterOpcode.skipBlanks := by
  obtain ⟨indent, hindent⟩ := passes_skipBlanks start
  obtain ⟨digits, hdigits, -, hvalue⟩ := programCounter_eq_ok_iff.mp hcounter
  obtain ⟨hnumeral, hsmall, rfl⟩ := Numeral.decimal?_eq_some_iff.mp hvalue
  obtain ⟨opcodeForm, hopcodeText, rfl⟩ := opcode_eq_ok_iff.mp hopcode
  obtain ⟨beforeOpcode, hbeforeOpcode⟩ := passes_skipBlanks afterColon
  obtain ⟨afterBlanks, hafterOpcode⟩ := passes_skipBlanks afterOpcode
  refine ⟨⟨indent, digits, hnumeral, hsmall, beforeOpcode, opcodeForm, afterBlanks⟩, rfl, rfl, ?_⟩
  simp only [text, passes_append]
  exact ⟨_, hindent, _, hdigits, _, character_eq_ok_iff.mp hcolon, _, hbeforeOpcode, _,
    hopcodeText, hafterOpcode⟩

end HeadForm

/-! ### Endings -/

/-- Nothing, or a semicolon and a comment. -/
def commentText : Option (List Char) → List Char
  | none => []
  | some comment => [';'] ++ comment

/-- Nothing but a semicolon can come next where a comment may stand and the line may end. -/
theorem avoids_of_comment {comment : Option (List Char)} {start stop : Scan}
    {inClass : Char → Bool} (hpasses : Passes (commentText comment) start stop)
    (hstop : stop.rest = []) (hclass : inClass ';' = false) : start.Avoids inClass := by
  cases comment with
  | none =>
    rw [← passes_nil.mp hpasses, Avoids, hstop]
    rfl
  | some comment => exact hpasses.avoids rfl hclass

/-- What may follow an instruction: blanks, and perhaps a semicolon and a comment. -/
structure EndingForm where
  blanks : Blanks
  comment : Option (List Char)

namespace EndingForm

def text (form : EndingForm) : List Char :=
  form.blanks.text ++ commentText form.comment

/-- The facts stated in the comment of an ending that stands at a position of a line. -/
def facts (form : EndingForm) (offset : Nat) : List Fact :=
  match form.comment with
  | none => []
  | some comment => Fact.read ⟨offset + octets (form.blanks.text ++ [';']), comment⟩

theorem exists_of_readFacts {start : Scan} {facts : List Fact}
    (h : Line.readFacts start = .ok facts) :
    ∃ (form : EndingForm) (stop : Scan), Passes form.text start stop ∧ stop.rest = [] ∧
      facts = form.facts start.offset := by
  obtain ⟨blanks, hblanks⟩ := passes_skipBlanks start
  by_cases hend : start.skipBlanks.atEnd
  · simp only [Line.readFacts, hend, if_true] at h
    refine ⟨⟨blanks, none⟩, start.skipBlanks, ?_, List.isEmpty_iff.mp hend, (Except.ok.inj h).symm⟩
    exact passes_append.mpr ⟨_, hblanks, passes_nil.mpr rfl⟩
  · cases hcomment : start.skipBlanks.literal? ";" with
    | none => simp [Line.readFacts, hend, hcomment, Scan.fault] at h
    | some comment =>
      simp only [Line.readFacts, hend, hcomment, if_false, Bool.false_eq_true] at h
      have hsemicolon : Passes [';'] start.skipBlanks comment := literal?_eq_some_iff.mp hcomment
      have hbefore : Passes (blanks.text ++ [';']) start comment :=
        passes_append.mpr ⟨_, hblanks, hsemicolon⟩
      refine ⟨⟨blanks, some comment.rest⟩, ⟨comment.offset + octets comment.rest, []⟩, ?_, rfl, ?_⟩
      · exact passes_append.mpr ⟨_, hblanks, passes_append.mpr ⟨_, hsemicolon, comment.passes_rest⟩⟩
      · rw [EndingForm.facts, ← hbefore.2]
        exact (Except.ok.inj h).symm

theorem readFacts_of_passes (form : EndingForm) {start stop : Scan}
    (hpasses : Passes form.text start stop) (hstop : stop.rest = []) :
    Line.readFacts start = .ok (form.facts start.offset) := by
  obtain ⟨blanks, comment⟩ := form
  obtain ⟨place, hblanks, hcomment⟩ := passes_append.mp hpasses
  have hskip : start.skipBlanks = place :=
    hblanks.skipBlanks_eq (avoids_of_comment hcomment hstop rfl)
  cases comment with
  | none =>
    have hend : place.atEnd = true := by
      rw [← passes_nil.mp hcomment, atEnd, hstop]
      rfl
    simp only [Line.readFacts, hskip, hend, if_true]
    rfl
  | some comment =>
    obtain ⟨after, hsemicolon, htext⟩ := passes_append.mp hcomment
    have hend : place.atEnd = false := hsemicolon.atEnd_eq_false rfl
    have hliteral : place.literal? ";" = some after := literal?_eq_some_iff.mpr hsemicolon
    have hbefore : Passes (blanks.text ++ [';']) start after :=
      passes_append.mpr ⟨_, hblanks, hsemicolon⟩
    have hrest : after.rest = comment := by rw [htext.1, hstop, List.append_nil]
    simp only [Line.readFacts, hskip, hend, hliteral, if_false, Bool.false_eq_true, facts]
    rw [← hbefore.2, ← hrest]

theorem readFacts_eq_ok_iff {start : Scan} {facts : List Fact} :
    Line.readFacts start = .ok facts ↔
      ∃ (form : EndingForm) (stop : Scan), Passes form.text start stop ∧ stop.rest = [] ∧
        facts = form.facts start.offset := by
  constructor
  · exact exists_of_readFacts
  · rintro ⟨form, stop, hpasses, hstop, rfl⟩
    exact form.readFacts_of_passes hpasses hstop

end EndingForm

/-! ### Lines -/

theorem Instruction.opcode_of_read {pc : Nat} {opcode : Opcode} {start stop : Scan}
    {instruction : Instruction} (h : Instruction.read pc opcode start = .ok (instruction, stop)) :
    instruction.opcode = opcode := by
  rw [Instruction.read, bind_eq_ok_iff] at h
  obtain ⟨⟨operation, after⟩, -, hsame⟩ := h
  obtain ⟨rfl, -⟩ := Prod.mk.inj (Except.ok.inj hsame)
  rfl

namespace Line

/-- What is recognized is a source comment or an instruction. -/
theorem readContent_cases {start : Scan} {content : LineContent}
    (hread : readContent start = .ok content) :
    (∃ comment, start.Reaches comment ∧ content = readSourceComment comment) ∨
      ∃ instruction facts, content = .instruction instruction facts := by
  simp only [readContent] at hread
  split at hread
  · cases hread
  · split at hread
    · next comment hcomment =>
      obtain rfl := Except.ok.inj hread
      exact .inl ⟨comment, start.reaches_skipBlanks.trans (reaches_of_literal? hcomment), rfl⟩
    · simp only [readInstruction, bind_eq_ok_iff] at hread
      obtain ⟨_, -, _, -, _, -, ⟨instruction, _⟩, -, facts, -, hsame⟩ := hread
      exact .inr ⟨instruction, facts, (Except.ok.inj hsame).symm⟩

/-- A line read as an instruction begins with a head, and an ending follows the instruction. -/
theorem exists_of_readContent {start : Scan} {instruction : Instruction} {facts : List Fact}
    (h : readContent start = .ok (.instruction instruction facts)) :
    ∃ (head : HeadForm) (ending : EndingForm) (place after stop : Scan),
      Passes head.text start place ∧ place.Avoids isBlank ∧
        Instruction.read head.pc head.opcode place = .ok (instruction, after) ∧
          Passes ending.text after stop ∧ stop.rest = [] ∧ facts = ending.facts after.offset := by
  by_cases hend : start.skipBlanks.atEnd
  · simp only [readContent, hend, if_true] at h
    simp at h
  · cases hcomment : start.skipBlanks.literal? ";" with
    | some comment => simp [readContent, hend, hcomment, readSourceComment] at h
    | none =>
      simp only [readContent, hend, hcomment, if_false, Bool.false_eq_true, readInstruction,
        bind_eq_ok_iff] at h
      obtain ⟨⟨pc, afterCounter⟩, hcounter, afterColon, hcolon, ⟨opcode, afterOpcode⟩, hopcode,
        ⟨read, after⟩, hread, found, hfound, hsame⟩ := h
      obtain ⟨rfl, rfl⟩ := LineContent.instruction.inj (Except.ok.inj hsame)
      obtain ⟨head, rfl, rfl, hhead⟩ := HeadForm.exists_of_read hcounter hcolon hopcode
      obtain ⟨ending, stop, hending, hstop, hfacts⟩ :=
        EndingForm.readFacts_eq_ok_iff.mp hfound
      exact ⟨head, ending, afterOpcode.skipBlanks, after, stop, hhead,
        afterOpcode.avoids_skipWhile isBlank, hread, hending, hstop, hfacts⟩

theorem readContent_of_passes (head : HeadForm) (ending : EndingForm)
    {start place after stop : Scan} {instruction : Instruction}
    (hhead : Passes head.text start place) (hplace : place.Avoids isBlank)
    (hread : Instruction.read head.pc head.opcode place = .ok (instruction, after))
    (hending : Passes ending.text after stop) (hstop : stop.rest = []) :
    readContent start = .ok (.instruction instruction (ending.facts after.offset)) := by
  simp only [HeadForm.text, passes_append] at hhead
  obtain ⟨counterAt, hindent, afterCounter, hcounter, afterColon, hcolon, opcodeAt, hbeforeOpcode,
    afterOpcode, hopcode, hafterOpcode⟩ := hhead
  obtain ⟨c, hfirst, hdigit⟩ := head.exists_head_counter
  have hcounterAt : start.skipBlanks = counterAt :=
    hindent.skipBlanks_eq (hcounter.avoids hfirst (isBlank_eq_false_of_isDigit hdigit))
  have hend : counterAt.atEnd = false := hcounter.atEnd_eq_false hfirst
  have hsemicolon : counterAt.literal? ";" = none := by
    refine literal?_eq_none_of_avoids rfl (hcounter.avoids hfirst (beq_eq_false_iff_ne.mpr ?_))
    intro hc
    rw [hc] at hdigit
    exact absurd hdigit (by decide)
  have hpc : counterAt.programCounter = .ok (head.pc, afterCounter) := by
    refine programCounter_eq_ok_iff.mpr ⟨head.counter, hcounter, hcolon.avoids rfl rfl, ?_⟩
    exact Numeral.decimal?_eq_some_iff.mpr ⟨head.isNumeral, head.small, rfl⟩
  have hopcodeAt : afterColon.skipBlanks = opcodeAt :=
    hbeforeOpcode.skipBlanks_eq (hopcode.avoids rfl rfl)
  have hplaceAt : afterOpcode.skipBlanks = place := hafterOpcode.skipBlanks_eq hplace
  simp only [readContent, hcounterAt, hend, hsemicolon, if_false, Bool.false_eq_true,
    readInstruction, bind_eq_ok_iff]
  refine ⟨(head.pc, afterCounter), hpc, afterColon, character_eq_ok_iff.mpr hcolon,
    (head.opcode, afterOpcode), ?_, (instruction, after), ?_, ending.facts after.offset, ?_, rfl⟩
  · rw [hopcodeAt]
    exact opcode_eq_ok_iff.mpr ⟨head.opcodeForm, hopcode, rfl⟩
  · rw [hplaceAt]
    exact hread
  · exact ending.readFacts_of_passes hending hstop

theorem readContent_eq_ok_iff {start : Scan} {instruction : Instruction} {facts : List Fact} :
    readContent start = .ok (.instruction instruction facts) ↔
      ∃ (head : HeadForm) (ending : EndingForm) (place after stop : Scan),
        Passes head.text start place ∧ place.Avoids isBlank ∧
          Instruction.read head.pc head.opcode place = .ok (instruction, after) ∧
            Passes ending.text after stop ∧ stop.rest = [] ∧
              facts = ending.facts after.offset := by
  constructor
  · exact exists_of_readContent
  · rintro ⟨head, ending, place, after, stop, hhead, hplace, hread, hending, hstop, rfl⟩
    exact readContent_of_passes head ending hhead hplace hread hending hstop

/-! ### Whole lines -/

/-- Nothing is trimmed from a text that does not end in a character of the class. -/
theorem trimEndWhile_eq_self {inClass : Char → Bool} {text : List Char}
    (htext : ∀ c ∈ text.getLast?, inClass c = false) : trimEndWhile inClass text = text := by
  rw [trimEndWhile]
  cases hreverse : text.reverse with
  | nil => rw [List.dropWhile_nil, ← hreverse, List.reverse_reverse]
  | cons last others =>
    have hlast : inClass last = false := by
      apply htext last
      rw [Option.mem_def, ← List.head?_reverse, hreverse]
      rfl
    rw [List.dropWhile_cons_of_neg (by rw [hlast]; exact Bool.false_ne_true), ← hreverse,
      List.reverse_reverse]

/-- Trimming stops at the latest before a character that is not of the class. -/
theorem trimEndWhile_append_of_getLast? {inClass : Char → Bool} {before after : List Char}
    (hbefore : ∀ c ∈ before.getLast?, inClass c = false) :
    trimEndWhile inClass (before ++ after) = before ++ trimEndWhile inClass after := by
  have hself := trimEndWhile_eq_self hbefore
  rw [trimEndWhile, List.reverse_append, List.dropWhile_append]
  cases hrest : after.reverse.dropWhile inClass with
  | nil =>
    rw [List.isEmpty_nil, if_pos rfl, trimEndWhile, hrest, List.reverse_nil, List.append_nil]
    exact hself
  | cons last others =>
    rw [List.isEmpty_cons, if_neg Bool.false_ne_true, List.reverse_append, List.reverse_reverse,
      trimEndWhile, hrest]

theorem withoutLineEnd_eq_self {raw : String}
    (hraw : ∀ c ∈ raw.toList.getLast?, isLineEnd c = false) : withoutLineEnd raw = raw := by
  rw [withoutLineEnd, trimEndWhile_eq_self hraw, String.ofList_toList]

theorem content_ofText_eq_instruction_iff {raw : String} {instruction : Instruction}
    {facts : List Fact} : (ofText raw).content = .instruction instruction facts ↔
      readContent (Scan.ofText (withoutLineEnd raw)) = .ok (.instruction instruction facts) := by
  cases hread : readContent (Scan.ofText (withoutLineEnd raw)) with
  | ok content => simp [Line.ofText, hread]
  | error error => simp [Line.ofText, hread]

section WholeLine

variable {raw : String} {text : List Char} {stop : Scan}

/-- What has been passed from the beginning of a line is all that stands before a place. -/
theorem offset_of_passes (hpasses : Passes text (Scan.ofText raw) stop) :
    stop.offset = octets text :=
  hpasses.2.trans (Nat.zero_add _)

theorem toList_eq_of_passes (hpasses : Passes text (Scan.ofText raw) stop)
    (hstop : stop.rest = []) : raw.toList = text := by
  have hrest : raw.toList = text ++ stop.rest := hpasses.1
  rw [hrest, hstop, List.append_nil]

theorem passes_of_toList_eq (htext : raw.toList = text) :
    Passes text (Scan.ofText raw) ⟨octets text, []⟩ := by
  rw [← htext]
  refine ⟨(List.append_nil _).symm, ?_⟩
  exact (Nat.zero_add _).symm

end WholeLine

end Line

end VerifierTrace
