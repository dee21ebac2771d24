import VerifierTrace.Proofs.Grammar.Comment
import VerifierTrace.Proofs.Grammar.FactKey

/-!
# Rows of facts

A row is what a line states after its semicolon: tokens with a space and blanks between them. A
token is a fact, an entry whose key names no slot, or a word without an equals sign. A value holds
no space outside its parentheses, and where another token comes after it, its parentheses are
closed; both are told by the depth of the parentheses, `nestingAfter`, in which one that closes
nothing does not count. The reader counts in the same way (`foldl_nesting_eq`), with a subtraction
that stops at zero.

Reading a row gives the facts of its tokens and nothing else, each at its own place
(`Fact.readFrom_text`). A token ends before the space after it (`TokenForm.Ends`), so reading goes
on with the next token wherever the row is cut, and the statement for a whole row is an induction
over its tokens.
-/

set_option autoImplicit false
set_option relaxedAutoImplicit false

namespace VerifierTrace

open Scan
open FactToken (isKeyChar nesting valueLength)

/-! ### Values -/

/-- What a character adds to the depth of parentheses. -/
def parenthesis (c : Char) : Int :=
  if c = '(' then 1 else if c = ')' then -1 else 0

/-- The depth of parentheses at the end of a text, counted from the left and never below zero. -/
def nestingAfter (text : List Char) : Int :=
  text.foldl (fun depth c ↦ max 0 (depth + parenthesis c)) 0

theorem nesting_eq_max (depth : Nat) (c : Char) :
    (nesting depth c : Int) = max 0 (depth + parenthesis c) := by
  unfold nesting
  split
  · have hopens : parenthesis '(' = 1 := rfl
    omega
  · have hcloses : parenthesis ')' = -1 := rfl
    omega
  · next hopens hcloses =>
    have hother : parenthesis c = 0 := by rw [parenthesis, if_neg hopens, if_neg hcloses]
    omega

theorem foldl_nesting_eq (text : List Char) (depth : Nat) :
    ((text.foldl nesting depth : Nat) : Int) =
      text.foldl (fun depth c ↦ max 0 (depth + parenthesis c)) (depth : Int) := by
  induction text generalizing depth with
  | nil => rfl
  | cons c text ih => rw [List.foldl_cons, List.foldl_cons, ih, nesting_eq_max]

theorem nestingAfter_eq_foldl_nesting (text : List Char) :
    nestingAfter text = (text.foldl nesting 0 : Nat) :=
  (foldl_nesting_eq text 0).symm

/-- The text of a value: every space of it stands inside parentheses. -/
structure ValueForm where
  text : List Char
  nested : ∀ before after, text = before ++ ' ' :: after → 0 < nestingAfter before

namespace ValueForm

/-- All parentheses that are opened in a value are closed in it. -/
def IsClosed (value : ValueForm) : Prop :=
  nestingAfter value.text = 0

end ValueForm

/-- A text without a space outside parentheses is read up to the end, or up to a space that comes
when its parentheses are closed. -/
theorem valueLength_append {depth : Nat} {text rest : List Char}
    (hnested : ∀ before after, text = before ++ ' ' :: after → 0 < before.foldl nesting depth)
    (hrest : rest = [] ∨ rest.head? = some ' ' ∧ text.foldl nesting depth = 0) :
    valueLength depth (text ++ rest) = text.length := by
  induction text generalizing depth with
  | nil =>
    rcases hrest with rfl | ⟨hspace, hclosed⟩
    · rfl
    · obtain ⟨others, rfl⟩ := List.head?_eq_some_iff.mp hspace
      exact if_pos ⟨rfl, hclosed⟩
  | cons c text ih =>
    have hinside : ¬ (c = ' ' ∧ depth = 0) := by
      rintro ⟨rfl, rfl⟩
      exact Nat.lt_irrefl 0 (hnested [] text rfl)
    have hothers : ∀ before after, text = before ++ ' ' :: after →
        0 < before.foldl nesting (nesting depth c) :=
      fun before after htext ↦ hnested (c :: before) after (by rw [htext, List.cons_append])
    rw [List.cons_append, valueLength, if_neg hinside, ih hothers hrest, List.length_cons]

theorem ValueForm.readValue_eq {value : ValueForm} {start stop : Scan}
    (hpasses : Passes value.text start stop)
    (hstop : stop.rest = [] ∨ stop.rest.head? = some ' ' ∧ value.IsClosed) :
    FactToken.readValue start = (value.text, stop) := by
  have hnested : ∀ before after, value.text = before ++ ' ' :: after →
      0 < before.foldl nesting 0 := by
    intro before after htext
    have hinside := value.nested before after htext
    rwa [nestingAfter_eq_foldl_nesting, Int.natCast_pos] at hinside
  have hlength : valueLength 0 start.rest = value.text.length := by
    rw [ValueForm.IsClosed, nestingAfter_eq_foldl_nesting, Int.natCast_eq_zero] at hstop
    rw [hpasses.1]
    exact valueLength_append hnested hstop
  have htake : start.rest.take value.text.length = value.text := by
    rw [hpasses.1, List.take_left']
    rfl
  have hdrop : start.rest.drop value.text.length = stop.rest := by
    rw [hpasses.1, List.drop_left']
    rfl
  rw [FactToken.readValue, hlength, htake, hdrop, ← hpasses.2]

/-! ### Tokens -/

/-- A text without an equals sign and without a space. -/
structure WordForm where
  text : List Char
  nonempty : text ≠ []
  isKey : text.all fun c ↦ c != '=' && c != ' '
  noTab : text.head? ≠ some '\t'

inductive TokenForm
  | fact (key : SlotKey) (value : ValueForm)
  | other (key : OtherKey) (value : ValueForm)
  | word (form : WordForm)

namespace TokenForm

def key : TokenForm → List Char
  | fact key _ => key.text
  | other key _ => key.text
  | word form => form.text

def value? : TokenForm → Option ValueForm
  | fact _ value => some value
  | other _ value => some value
  | word _ => none

def text (form : TokenForm) : List Char :=
  form.key ++ match form.value? with
    | none => []
    | some value => '=' :: value.text

/-- The value of the token, if it has one, is closed. -/
def IsClosed (form : TokenForm) : Prop :=
  ∀ value, form.value? = some value → value.IsClosed

instance (form : TokenForm) : Decidable form.IsClosed :=
  decidable_of_iff (∀ value ∈ form.value?, nestingAfter value.text = 0) Iff.rfl

/-- What a token at a span states about a frame. -/
def fact? (depth : Nat) (span : Span) : TokenForm → Option Fact
  | fact key value =>
    some ⟨key.slot, String.ofList value.text, key.ending.isMark, depth, span⟩
  | other _ _ => none
  | word _ => none

/-- A token ends at the end of the line, or before a space when its parentheses are closed. -/
def Ends (form : TokenForm) (stop : Scan) : Prop :=
  stop.rest = [] ∨ stop.rest.head? = some ' ' ∧ form.IsClosed

variable {form : TokenForm} {start stop : Scan}

theorem all_isKeyChar (form : TokenForm) : form.key.all isKeyChar := by
  cases form with
  | fact key value => exact key.all_isKeyChar
  | other key value => exact key.isKey
  | word form => exact form.isKey

theorem isBlank_eq_false_of_isKeyChar {c : Char} (hkey : isKeyChar c) (htab : c ≠ '\t') :
    isBlank c = false := by
  rw [← Bool.not_eq_true, isBlank_iff]
  rintro (rfl | rfl)
  · exact absurd hkey (by decide)
  · exact htab rfl

/-- A token begins with a character that is no blank. -/
theorem exists_head (form : TokenForm) :
    ∃ c, form.text.head? = some c ∧ isBlank c = false := by
  have hkey : ∀ c, form.key.head? = some c → form.text.head? = some c := by
    intro c hc
    rw [text, List.head?_append, hc]
    rfl
  have hblank : ∀ c, form.key.head? = some c → c ≠ '\t' → isBlank c = false := fun c hc ↦
    isBlank_eq_false_of_isKeyChar (List.all_eq_true.mp form.all_isKeyChar c (List.mem_of_head? hc))
  cases hhead : form.key.head? with
  | some c =>
    refine ⟨c, hkey c hhead, hblank c hhead ?_⟩
    rintro rfl
    cases form with
    | fact key value =>
      have hname : key.name.head? = some '\t' := by
        rw [TokenForm.key, SlotKey.text, List.head?_append] at hhead
        cases hname : key.name.head? with
        | none => exact absurd (List.head?_eq_none_iff.mp hname) key.name_ne_nil
        | some c => rwa [hname] at hhead
      exact absurd (key.all_isNameChar_name _ (List.mem_of_head? hname)) (by decide)
    | other key value => exact key.noTab hhead
    | word form => exact form.noTab hhead
  | none =>
    have hnil := List.head?_eq_none_iff.mp hhead
    refine ⟨'=', ?_, rfl⟩
    cases form with
    | fact key value =>
      exact absurd (List.append_eq_nil_iff.mp hnil).1 key.name_ne_nil
    | other key value =>
      rw [text, hnil]
      rfl
    | word form => exact absurd hnil form.nonempty

/-- The reader of tokens reads the key and the value of the token, and nothing beyond them. -/
theorem read_eq (hpasses : Passes form.text start stop) (hends : form.Ends stop) :
    FactToken.read start =
      (⟨form.key, form.value?.map ValueForm.text, start.spanTo stop⟩, stop) := by
  have havoids : ∀ {inClass : Char → Bool}, inClass ' ' = false → stop.Avoids inClass := by
    intro inClass hspace
    rcases hends with hnil | ⟨hhead, -⟩
    · rw [Avoids, hnil]
      rfl
    · rw [Avoids, hhead]
      exact hspace
  rw [text] at hpasses
  cases hvalue : form.value? with
  | none =>
    rw [hvalue, List.append_nil] at hpasses
    have hrun := run_eq_iff.mpr ⟨form.all_isKeyChar, hpasses, havoids rfl⟩
    have hsign : stop.literal? "=" = none := literal?_eq_none_of_avoids (c := '=') rfl (havoids rfl)
    simp only [FactToken.read, hrun, hsign, Option.map_none]
  | some value =>
    rw [hvalue] at hpasses
    obtain ⟨afterKey, hkey, hrest⟩ := passes_append.mp hpasses
    have hrun := run_eq_iff.mpr ⟨form.all_isKeyChar, hkey, hrest.avoids rfl rfl⟩
    obtain ⟨afterSign, hsign, hread⟩ : ∃ afterSign, Passes ['='] afterKey afterSign ∧
        Passes value.text afterSign stop := passes_append.mp hrest
    have hfound : afterKey.literal? "=" = some afterSign := literal?_eq_some_iff.mpr hsign
    have hclosed : stop.rest = [] ∨ stop.rest.head? = some ' ' ∧ value.IsClosed :=
      hends.imp_right fun hspace ↦ ⟨hspace.1, hspace.2 value hvalue⟩
    simp only [FactToken.read, hrun, hfound, value.readValue_eq hread hclosed, Option.map_some]

/-- Of the tokens that are read, the facts alone state something. -/
theorem ofToken?_eq_fact? (depth : Nat) (span : Span) :
    Fact.ofToken? depth ⟨form.key, form.value?.map ValueForm.text, span⟩ =
      form.fact? depth span := by
  cases form with
  | word form => rfl
  | fact key value =>
    have hslot := Slot.ofText_toLower_eq_ok_iff.mpr key.names
    simp only [Fact.ofToken?, TokenForm.key, value?, Option.map_some, key.slotName_text, hslot,
      fact?]
  | other key value =>
    have hnone := key.ofText_slotName_ne_ok
    simp only [Fact.ofToken?, TokenForm.key, value?, Option.map_some, fact?]
    split
    · rfl
    · next slot hslot => exact absurd hslot (hnone slot)

end TokenForm

/-! ### Rows -/

/-- Tokens, each but the last one closed and with a space and blanks after it. -/
inductive RowForm
  | empty
  | last (token : TokenForm)
  | next (token : TokenForm) (isClosed : token.IsClosed) (blanks : Blanks) (row : RowForm)

namespace RowForm

def text : RowForm → List Char
  | empty => []
  | last token => token.text
  | next token _ blanks row => token.text ++ (' ' :: blanks.text ++ row.text)

/-- The facts of a row that begins at a position of a line, about a frame. -/
def facts (depth : Nat) : RowForm → Nat → List Fact
  | empty, _ => []
  | last token, offset => (token.fact? depth ⟨offset, octets token.text⟩).toList
  | next token _ blanks row, offset =>
    (token.fact? depth ⟨offset, octets token.text⟩).toList ++
      row.facts depth (offset + octets token.text + octets (' ' :: blanks.text))

end RowForm

namespace FactToken

variable {start place stop : Scan}

theorem all_eq_nil (hskip : start.skipBlanks = place) (hend : place.rest = []) :
    all start = [] := by
  have hnone : next? start = none := by
    rw [next?, hskip, if_pos (by rw [atEnd, hend]; rfl)]
  rw [all]
  split
  · rfl
  · next token htoken => exact absurd (hnone.symm.trans htoken) nofun

theorem all_eq_cons {token : FactToken} (hskip : start.skipBlanks = place)
    (hbegins : place.atEnd = false) (hread : read place = (token, stop)) :
    all start = token :: all stop := by
  have hsome : next? start = some (token, stop) := by
    rw [next?, hskip, hbegins, hread]
    rfl
  rw [all]
  split
  · next hnone => exact absurd (hsome.symm.trans hnone) (Option.some_ne_none _)
  · next token' htoken =>
    obtain rfl := Option.some.inj (hsome.symm.trans htoken)
    rfl

end FactToken

namespace Fact

variable {depth : Nat} {start place stop : Scan} {blanks : Blanks}

/-- What the tokens state is what the first one states and what those after it state. -/
theorem filterMap_all_eq_append {token : TokenForm} (hblanks : Passes blanks.text start place)
    (hpasses : Passes token.text place stop) (hends : token.Ends stop) :
    (FactToken.all start).filterMap (ofToken? depth) =
      (token.fact? depth ⟨place.offset, octets token.text⟩).toList ++
        (FactToken.all stop).filterMap (ofToken? depth) := by
  obtain ⟨c, hhead, hblank⟩ := token.exists_head
  have hskip := hblanks.skipBlanks_eq (hpasses.avoids hhead hblank)
  rw [FactToken.all_eq_cons hskip (hpasses.atEnd_eq_false hhead) (token.read_eq hpasses hends),
    List.filterMap_cons, token.ofToken?_eq_fact?, hpasses.spanTo]
  cases token.fact? depth ⟨place.offset, octets token.text⟩ with
  | none => rfl
  | some fact => rfl

/-- The facts that are read from a row up to the end of the line. -/
theorem filterMap_all_eq_facts (row : RowForm) (hblanks : Passes blanks.text start place)
    (hpasses : Passes row.text place stop) (hend : stop.rest = []) :
    (FactToken.all start).filterMap (ofToken? depth) = row.facts depth place.offset := by
  -- The blanks before a token are those of the row's indent or of the token before it.
  induction row generalizing start place blanks with
  | empty =>
    rw [RowForm.text, passes_nil] at hpasses
    rw [hpasses] at hend
    have havoids : place.Avoids isBlank := by rw [Avoids, hend]; rfl
    rw [FactToken.all_eq_nil (hblanks.skipBlanks_eq havoids) hend]
    rfl
  | last token =>
    have hnil : FactToken.all stop = [] := by
      have havoids : stop.Avoids isBlank := by rw [Avoids, hend]; rfl
      have hnone : Passes (Blanks.spaces 0).text stop stop := passes_nil.mpr rfl
      exact FactToken.all_eq_nil (hnone.skipBlanks_eq havoids) hend
    rw [filterMap_all_eq_append hblanks hpasses (.inl hend), hnil]
    exact List.append_nil _
  | next token hclosed between row ih =>
    obtain ⟨after, htoken, hrest⟩ := passes_append.mp hpasses
    obtain ⟨place', hbetween, hrow⟩ := passes_append.mp hrest
    have hspace : after.rest.head? = some ' ' := hbetween.head? rfl
    let separator : Blanks :=
      ⟨' ' :: between.text, by rw [List.all_cons, between.areBlank]; rfl⟩
    have hseparator : Passes separator.text after place' := hbetween
    rw [filterMap_all_eq_append hblanks htoken (.inr ⟨hspace, hclosed⟩),
      ih hseparator hrow, RowForm.facts, hbetween.2, htoken.2]

end Fact

/-! ### Rows with a mark -/

/-- The mark of the call frame that a row is about, and the blanks after it. -/
structure FrameMark where
  digits : List Char
  isNumeral : Numeral.isNumeral Char.isDigit digits
  small : Numeral.ofDigits 10 digits < Nat.pow 2 64
  blanks : Blanks

namespace FrameMark

def sign (mark : FrameMark) : List Char :=
  "frame".toList ++ (mark.digits ++ ":".toList)

def text (mark : FrameMark) : List Char :=
  mark.sign ++ mark.blanks.text

def depth (mark : FrameMark) : Nat :=
  Numeral.ofDigits 10 mark.digits

/-- A mark is read up to the blanks after it. -/
theorem frameMark?_eq_some_iff {start stop : Scan} {depth : Nat} :
    Fact.frameMark? start = some (depth, stop) ↔
      ∃ mark : FrameMark, Passes mark.sign start stop ∧ depth = mark.depth := by
  simp only [Fact.frameMark?, Option.bind_eq_bind, Option.bind_eq_some_iff, Option.some.injEq,
    Prod.mk.injEq]
  constructor
  · rintro ⟨word, hword, place, hcolon, value, hvalue, rfl, rfl⟩
    obtain ⟨hnumeral, hsmall, rfl⟩ := Numeral.decimal?_eq_some_iff.mp hvalue
    obtain ⟨-, hdigits, -⟩ := run_eq_iff.mp (rfl : word.run Char.isDigit = (_, _))
    refine ⟨⟨_, hnumeral, hsmall, .spaces 0⟩, ?_, rfl⟩
    exact passes_append.mpr ⟨word, literal?_eq_some_iff.mp hword,
      passes_append.mpr ⟨_, hdigits, literal?_eq_some_iff.mp hcolon⟩⟩
  · rintro ⟨mark, hpasses, rfl⟩
    obtain ⟨word, hword, hrest⟩ := passes_append.mp hpasses
    obtain ⟨afterDigits, hdigits, hcolon⟩ := passes_append.mp hrest
    have hrun := run_eq_iff.mpr ⟨Numeral.all_of_isNumeral mark.isNumeral, hdigits,
      hcolon.avoids rfl rfl⟩
    refine ⟨word, literal?_eq_some_iff.mpr hword, ?_⟩
    rw [hrun]
    exact ⟨stop, literal?_eq_some_iff.mpr hcolon, mark.depth,
      Numeral.decimal?_eq_some_iff.mpr ⟨mark.isNumeral, mark.small, rfl⟩, rfl, rfl⟩

end FrameMark

/-- Blanks, a mark or none, and a row. A row without a mark does not look like one with a mark. -/
structure MarkedRow where
  indent : Blanks
  mark? : Option FrameMark
  row : RowForm
  unmarked : mark? = none → ∀ mark : FrameMark, ¬ mark.sign <+: row.text

namespace MarkedRow

/-- What stands before the first token. -/
def head (form : MarkedRow) : List Char :=
  form.indent.text ++ (form.mark?.map FrameMark.text).getD []

def text (form : MarkedRow) : List Char :=
  form.head ++ form.row.text

/-- The depth of the frame that the row is about; without a mark that is the outermost one. -/
def depth (form : MarkedRow) : Nat :=
  (form.mark?.map FrameMark.depth).getD 0

/-- The facts of a row that begins at a position of a line. -/
def facts (form : MarkedRow) (offset : Nat) : List Fact :=
  form.row.facts form.depth (offset + octets form.head)

end MarkedRow

/-- No row begins with a blank. -/
theorem RowForm.avoids_isBlank {row : RowForm} {place stop : Scan}
    (hpasses : Passes row.text place stop) (hend : stop.rest = []) : place.Avoids isBlank := by
  have htoken : ∀ (token : TokenForm) (after : Scan), Passes token.text place after →
      place.Avoids isBlank := by
    intro token after htoken
    obtain ⟨c, hhead, hblank⟩ := token.exists_head
    exact htoken.avoids hhead hblank
  cases row with
  | empty =>
    rw [RowForm.text, passes_nil] at hpasses
    rw [Avoids, ← hpasses, hend]
    rfl
  | last token => exact htoken token stop hpasses
  | next token hclosed between row =>
    obtain ⟨after, hfirst, -⟩ := passes_append.mp hpasses
    exact htoken token after hfirst

namespace Fact

variable {start stop : Scan}

/-- The facts of a row, wherever on a line it stands. -/
theorem read_eq_facts (form : MarkedRow) (hpasses : Passes form.text start stop)
    (hend : stop.rest = []) : read start = form.facts start.offset := by
  obtain ⟨place, hhead, hrow⟩ := passes_append.mp hpasses
  obtain ⟨marked, hindent, hmark⟩ := passes_append.mp hhead
  have hoffset : place.offset = start.offset + octets form.head := hhead.2
  rw [MarkedRow.facts, ← hoffset]
  cases hform : form.mark? with
  | some mark =>
    rw [hform] at hmark
    obtain ⟨afterSign, hsign, hblanks⟩ := passes_append.mp hmark
    have hskip : start.skipBlanks = marked := hindent.skipBlanks_eq (hsign.avoids rfl rfl)
    have hfound : frameMark? marked = some (mark.depth, afterSign) :=
      FrameMark.frameMark?_eq_some_iff.mpr ⟨mark, hsign, rfl⟩
    have hdepth : form.depth = mark.depth := by rw [MarkedRow.depth, hform]; rfl
    simp only [read, hskip, hfound, Option.getD_some, hdepth]
    exact filterMap_all_eq_facts form.row hblanks hrow hend
  | none =>
    rw [hform] at hmark
    obtain rfl := passes_nil.mp hmark
    have hskip : start.skipBlanks = place :=
      hindent.skipBlanks_eq (RowForm.avoids_isBlank hrow hend)
    have hnone : frameMark? place = none := by
      rw [Option.eq_none_iff_forall_ne_some]
      rintro ⟨depth, afterSign⟩ hfound
      obtain ⟨mark, hsign, -⟩ := FrameMark.frameMark?_eq_some_iff.mp hfound
      refine form.unmarked hform mark ⟨afterSign.rest, ?_⟩
      rw [← hsign.1, hrow.1, hend, List.append_nil]
    have hdepth : form.depth = 0 := by rw [MarkedRow.depth, hform]; rfl
    have hblanks : Passes (Blanks.spaces 0).text place place := passes_nil.mpr rfl
    simp only [read, hskip, hnone, Option.getD_none, hdepth]
    exact filterMap_all_eq_facts form.row hblanks hrow hend

end Fact

namespace ValueForm

/-- The spaces of a value, found by their positions. -/
theorem nested_of_forall_take {text : List Char}
    (htake : ∀ i < text.length, text[i]? = some ' ' → 0 < nestingAfter (text.take i)) :
    ∀ before after, text = before ++ ' ' :: after → 0 < nestingAfter before := by
  rintro before after rfl
  have hspace := htake before.length (by simp) (by simp)
  rwa [List.take_left'] at hspace
  rfl

/-- The value `scalar(id=1, x)`. -/
def scalar : ValueForm where
  text := "scalar(id=1, x)".toList
  nested := nested_of_forall_take (by decide)

/-- A value without a space, one character long. -/
def ofChar (c : Char) (hc : c ≠ ' ') : ValueForm where
  text := [c]
  nested := by
    intro before after htext
    have hmem : ' ' ∈ [c] := htext ▸ List.mem_append_right before List.mem_cons_self
    exact absurd (List.mem_singleton.mp hmem).symm hc

end ValueForm

/-- The key `refs` names no slot and ends in no mark. -/
def OtherKey.references : OtherKey where
  text := ['r', 'e', 'f', 's']
  isKey := by decide
  noTab := by decide
  namesNone := by
    intro name ending slot htext
    cases ending with
    | plain =>
      obtain rfl : ['r', 'e', 'f', 's'] = name := htext.trans (List.append_nil name)
      have herror : Slot.ofText (String.ofList ['r', 'e', 'f', 's']) =
          .error (.invalidSlot "refs") := rfl
      intro hread
      rw [herror] at hread
      cases hread
    | written => simpa [KeyEnding.text] using congrArg List.getLast? htext
    | writtenUpper => simpa [KeyEnding.text] using congrArg List.getLast? htext

namespace MarkedRow

/-- The tree of `frame1: R2_w=scalar(id=1, x) junk  refs=) fp-8=m`. -/
def passedScalar : MarkedRow where
  indent := .spaces 0
  mark? := some ⟨['1'], rfl, by decide, .spaces 1⟩
  row :=
    .next (.fact ⟨['R', '2'], .register 2, rfl, .written⟩ .scalar) (by decide) (.spaces 0) <|
    .next (.word ⟨['j', 'u', 'n', 'k'], by decide, by decide, by decide⟩) (by decide) (.spaces 1) <|
    .next (.other .references (.ofChar ')' (by decide))) (by decide) (.spaces 0) <|
    .last (.fact ⟨['f', 'p', '-', '8'], .stack (-8), rfl, .plain⟩ (.ofChar 'm' (by decide)))
  unmarked := fun hnone ↦ absurd hnone (Option.some_ne_none _)

end MarkedRow

namespace Fact

/-- The facts that are read from the row at the end of a line are those of its tokens, in their
order, each with the slot of its key, its value, its mark, the frame of the row and its place. -/
theorem readFrom_text (before : List Char) (form : MarkedRow) :
    readFrom (String.ofList (before ++ form.text)) (octets before) =
      form.facts (octets before) := by
  rw [readFrom, String.toList_ofList, seek_octets_append]
  exact read_eq_facts form (passes_rest _) rfl

/-- A value with a space inside parentheses, a word, and a key that names no slot. -/
theorem readFrom_text_passedScalar :
    readFrom "0: (95) exit ; frame1: R2_w=scalar(id=1, x) junk  refs=) fp-8=m" 15 =
      [⟨.register 2, "scalar(id=1, x)", true, 1, ⟨23, 20⟩⟩,
        ⟨.stack (-8), "m", false, 1, ⟨57, 6⟩⟩] := by
  have hline : "0: (95) exit ; frame1: R2_w=scalar(id=1, x) junk  refs=) fp-8=m" =
      String.ofList ("0: (95) exit ; ".toList ++ MarkedRow.passedScalar.text) := by decide
  have hfacts : MarkedRow.passedScalar.facts 15 =
      [⟨.register 2, "scalar(id=1, x)", true, 1, ⟨23, 20⟩⟩,
        ⟨.stack (-8), "m", false, 1, ⟨57, 6⟩⟩] := rfl
  rw [hline, ← hfacts]
  exact readFrom_text "0: (95) exit ; ".toList MarkedRow.passedScalar

end Fact

end VerifierTrace
