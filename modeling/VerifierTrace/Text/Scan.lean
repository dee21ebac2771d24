import VerifierTrace.Text.Span

/-!
# Reading a line from left to right

A `Scan` is a place inside a line: the number of octets before it and the characters after it. The
matchers of this module either answer with the place after what they matched or with nothing, so a
failed match leaves no trace. `skipWhile` passes the longest run of a class of characters,
`literal?` one fixed text, and `keyword?` a fixed text that no word character follows. Blanks are
spaces and tabs only.

`Scan.Reaches` says that a later place lies on the same line: what was passed followed by what is
left is what was there before, and the position moved by the octets of what was passed. Every
matcher reaches the place that it answers with (`reaches_skipWhile`, `reaches_of_literal?`,
`reaches_of_keyword?`, `reaches_of_blanks?`).
-/

set_option autoImplicit false
set_option relaxedAutoImplicit false

namespace VerifierTrace

/-- Blanks separate the tokens of a line. -/
def isBlank (c : Char) : Bool :=
  c == ' ' || c == '\t'

/-- Word characters make up the names and numbers of a line; only ASCII letters are among them. -/
def isWordChar (c : Char) : Bool :=
  c.isAlphanum || c == '_'

/-- A place inside a line: the number of octets before it and the characters after it. -/
structure Scan where
  offset : Nat
  rest : List Char
  deriving DecidableEq, Repr

namespace Scan

/-- The beginning of a line. -/
def ofText (text : String) : Scan :=
  ⟨0, text.toList⟩

/-- The first place at or after a position that lies between two characters, or the end, on a line
of which `offset` octets have been passed. -/
def seek (position : Nat) : (offset : Nat) → List Char → Scan
  | offset, [] => ⟨offset, []⟩
  | offset, c :: rest =>
    if position ≤ offset then ⟨offset, c :: rest⟩ else seek position (offset + c.utf8Size) rest

def atEnd (scan : Scan) : Bool :=
  scan.rest.isEmpty

/-- The stretch from one place to a later one. -/
def spanTo (start stop : Scan) : Span :=
  .between start.offset stop.offset

/-- Whether the next character would continue a word. -/
def continuesWord (scan : Scan) : Bool :=
  scan.rest.head?.any isWordChar

/-- Passes the longest run of a class of characters. -/
def skipWhile (inClass : Char → Bool) (scan : Scan) : Scan :=
  ⟨scan.offset + octets (scan.rest.takeWhile inClass), scan.rest.dropWhile inClass⟩

/-- The longest run of a class of characters, and the place after it. -/
def run (inClass : Char → Bool) (scan : Scan) : List Char × Scan :=
  (scan.rest.takeWhile inClass, scan.skipWhile inClass)

def skipBlanks (scan : Scan) : Scan :=
  scan.skipWhile isBlank

/-- Passes a run of blanks that must not be empty. -/
def blanks? (scan : Scan) : Option Scan :=
  if scan.rest.head?.any isBlank then some scan.skipBlanks else none

/-- What follows one text at the beginning of another. -/
def stripStart? : List Char → List Char → Option (List Char)
  | [], text => some text
  | _ :: _, [] => none
  | expected :: literal, c :: text =>
    if expected = c then stripStart? literal text else none

/-- Passes a fixed text. -/
def literal? (literal : String) (scan : Scan) : Option Scan :=
  (stripStart? literal.toList scan.rest).map (Scan.mk (scan.offset + octets literal.toList))

/-- Passes a fixed text that no word character follows. -/
def keyword? (keyword : String) (scan : Scan) : Option Scan :=
  (scan.literal? keyword).filter (!·.continuesWord)

/-- Passes the symbol of the first entry of a table whose symbol comes next. -/
def firstOf? {Entry : Type} (symbol : Entry → String) (table : List Entry) (scan : Scan) :
    Option (Entry × Scan) :=
  table.findSome? fun entry ↦ (scan.literal? (symbol entry)).map (entry, ·)

/-! ### Places on one line -/

/-- A later place on the same line: what lies between the two places, followed by what is left, is
what was left before, and the position moved by its octets. -/
def Reaches (start stop : Scan) : Prop :=
  ∃ passed, start.rest = passed ++ stop.rest ∧ stop.offset = start.offset + octets passed

theorem Reaches.refl (scan : Scan) : scan.Reaches scan :=
  ⟨[], rfl, rfl⟩

theorem Reaches.trans {start middle stop : Scan} (hfirst : start.Reaches middle)
    (hsecond : middle.Reaches stop) : start.Reaches stop := by
  obtain ⟨passed, hrest, hoffset⟩ := hfirst
  obtain ⟨passed', hrest', hoffset'⟩ := hsecond
  exact ⟨passed ++ passed', by simp [hrest, hrest'], by simp [hoffset, hoffset', Nat.add_assoc]⟩

theorem Reaches.length_le {start stop : Scan} (hreaches : start.Reaches stop) :
    stop.rest.length ≤ start.rest.length := by
  obtain ⟨passed, hrest, -⟩ := hreaches
  simp [hrest]

theorem reaches_skipWhile (inClass : Char → Bool) (scan : Scan) :
    scan.Reaches (scan.skipWhile inClass) :=
  ⟨scan.rest.takeWhile inClass, (List.takeWhile_append_dropWhile).symm, rfl⟩

theorem reaches_skipBlanks (scan : Scan) : scan.Reaches scan.skipBlanks :=
  scan.reaches_skipWhile isBlank

theorem stripStart?_eq_some_iff {literal text rest : List Char} :
    stripStart? literal text = some rest ↔ text = literal ++ rest := by
  induction literal generalizing text with
  | nil => simp [stripStart?]
  | cons expected literal ih =>
    cases text with
    | nil => simp [stripStart?]
    | cons c text =>
      by_cases hsame : expected = c
      · simp [stripStart?, hsame, ih]
      · simp [stripStart?, hsame, Ne.symm hsame]

theorem literal?_eq_some_iff {literal : String} {start stop : Scan} :
    start.literal? literal = some stop ↔
      start.rest = literal.toList ++ stop.rest ∧
        stop.offset = start.offset + octets literal.toList := by
  cases stop
  simp only [literal?, Option.map_eq_some_iff, stripStart?_eq_some_iff, Scan.mk.injEq]
  constructor
  · rintro ⟨rest, hrest, hoffset, rfl⟩
    exact ⟨hrest, hoffset.symm⟩
  · rintro ⟨hrest, hoffset⟩
    exact ⟨_, hrest, hoffset.symm, rfl⟩

theorem reaches_of_literal? {literal : String} {start stop : Scan}
    (hfound : start.literal? literal = some stop) : start.Reaches stop :=
  ⟨literal.toList, (literal?_eq_some_iff.1 hfound).1, (literal?_eq_some_iff.1 hfound).2⟩

theorem reaches_of_keyword? {keyword : String} {start stop : Scan}
    (hfound : start.keyword? keyword = some stop) : start.Reaches stop :=
  reaches_of_literal? (Option.filter_eq_some_iff.1 hfound).1

theorem reaches_of_blanks? {start stop : Scan} (hfound : start.blanks? = some stop) :
    start.Reaches stop := by
  unfold blanks? at hfound
  split at hfound
  · exact Option.some.inj hfound ▸ start.reaches_skipBlanks
  · cases hfound

end Scan

end VerifierTrace
