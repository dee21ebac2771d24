import VerifierTrace.Log.Basic

/-!
# Text that arrives in pieces

A text may be fed to a log in pieces that are cut anywhere. `Log.feed?` joins a piece to the text
that waits, in one buffer, and takes the lines out of it. Two positions move along the buffer:
everything before `start` has been read as lines, and everything before `scan` has been searched for
a line feed. The text that waits has been searched when it arrived, so the search begins after it.
Each line goes from `start` to the line feed that ends it, and what stands after the last of them
waits for the next piece.

The positions count octets, and a cut of the buffer inside a character is refused. The positions
always lie between two characters, so no piece of text is refused and `Log.feed` always has a log to
answer with.
-/

set_option autoImplicit false
set_option relaxedAutoImplicit false

namespace VerifierTrace

/-- The number of octets of a text before its first line feed. -/
def lineFeed? : List Char → Option Nat
  | [] => none
  | c :: text => if c = '\n' then some 0 else (lineFeed? text).map (c.utf8Size + ·)

/-- A line feed lies inside the text. -/
theorem lt_octets_of_lineFeed? {text : List Char} {count : Nat}
    (hfound : lineFeed? text = some count) : count < octets text := by
  induction text generalizing count with
  | nil => cases hfound
  | cons c text ih =>
    have hpositive : 0 < c.utf8Size := c.utf8Size_pos
    rw [octets_cons]
    unfold lineFeed? at hfound
    split at hfound
    · cases hfound
      omega
    · obtain ⟨later, hlater, rfl⟩ := Option.map_eq_some_iff.1 hfound
      have hlt := ih hlater
      omega

/-- A log that takes lines out of a buffer: what stands before `start` has been read as lines, and
what stands before `scan` has been searched for a line feed. -/
structure Feeding where
  log : Log
  buffer : List Char
  start : Nat
  scan : Nat

namespace Feeding

/-- The text that waits and a text after it. -/
def ofText (log : Log) (text : String) : Feeding where
  log := { log with pending := "" }
  buffer := log.pending.toList ++ text.toList
  start := 0
  scan := octets log.pending.toList

/-- The part of the buffer that has not been searched. -/
def unseen? (feeding : Feeding) : Option (List Char) :=
  dropOctets? feeding.scan feeding.buffer

/-- Reads the line that ends with the line feed a number of octets after `scan`. -/
def takeLine? (feeding : Feeding) (count : Nat) : Option Feeding :=
  let stop := feeding.scan + count + 1
  ((Span.between feeding.start stop).cut? feeding.buffer).map fun line ↦
    { feeding with
      log := feeding.log.push (String.ofList line)
      start := stop
      scan := stop }

theorem octets_buffer_sub_scan_lt {feeding later : Feeding} {unseen : List Char} {count : Nat}
    (hunseen : feeding.unseen? = some unseen) (hcount : lineFeed? unseen = some count)
    (hlater : feeding.takeLine? count = some later) :
    octets later.buffer - later.scan < octets feeding.buffer - feeding.scan := by
  have hlt := lt_octets_of_lineFeed? hcount
  have htotal := octets_of_dropOctets? hunseen
  obtain ⟨line, -, rfl⟩ := Option.map_eq_some_iff.1 hlater
  show octets feeding.buffer - (feeding.scan + count + 1) < _
  omega

/-- Reads the lines of the buffer, up to the last line feed. -/
def run? (feeding : Feeding) : Option Feeding :=
  match _ : feeding.unseen? with
  | none => none
  | some unseen =>
    match _ : lineFeed? unseen with
    | none => some feeding
    | some count =>
      match _ : feeding.takeLine? count with
      | none => none
      | some later => later.run?
termination_by octets feeding.buffer - feeding.scan
decreasing_by
  exact octets_buffer_sub_scan_lt ‹_ = some unseen› ‹_ = some count› ‹_ = some later›

/-- One turn of the loop: it ends where no line feed is left. -/
theorem run?_eq (feeding : Feeding) :
    feeding.run? = feeding.unseen?.bind fun unseen ↦
      match lineFeed? unseen with
      | none => some feeding
      | some count => (feeding.takeLine? count).bind run? := by
  rw [run?]
  split
  · rename_i hunseen
    rw [hunseen, Option.bind_none]
  · rename_i unseen hunseen
    rw [hunseen, Option.bind_some]
    split
    · rename_i hcount
      rw [hcount]
    · rename_i count hcount
      rw [hcount]
      dsimp only
      split
      · rename_i hlater
        rw [hlater, Option.bind_none]
      · rename_i later hlater
        rw [hlater, Option.bind_some]

/-- Drains what has been read out of the buffer; the rest waits. -/
def drain? (feeding : Feeding) : Option Log :=
  (dropOctets? feeding.start feeding.buffer).map fun rest ↦
    { feeding.log with pending := String.ofList rest }

end Feeding

namespace Log

/-- Reads a piece of text, unless the buffer is cut inside a character. -/
def feed? (log : Log) (text : String) : Option Log :=
  (Feeding.ofText log text).run?.bind Feeding.drain?

/-- Reads a piece of text. -/
def feed (log : Log) (text : String) : Log :=
  (log.feed? text).getD log

end Log

end VerifierTrace
