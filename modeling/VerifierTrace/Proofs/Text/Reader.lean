import VerifierTrace.LineError
import VerifierTrace.Proofs.Text.Octets

/-!
# Readers as trees

A `Reader` is a reading of a line as a tree: what is done with a cursor at an octet of the line, and
how it goes on with what was found. A cursor tells its position, looks at one octet, compares what
is left of the line with a fixed text, passes octets by a rule, and takes the text that it passed or
that is left. An attempt that fails puts the cursor back to where the attempt began.

A reader runs in two ways. `Reader.exec` moves over the characters of a `Scan`. `Reader.execAt`
moves over the octets of a line by positions alone, and whenever text is taken the line is cut
there: a cut inside a character, or beyond the line, is refused, and the run with it (`none`). By
`execAt_offset` no cut is ever refused, whatever the reader and the line are, and both runs find the
same. It is an induction over the tree; what carries it is that the cursor stays between two
characters of the line, because a rule that stops inside a character would tell apart characters
outside ASCII.
-/

set_option autoImplicit false
set_option relaxedAutoImplicit false

namespace VerifierTrace

inductive Reader : Type → Type 1
  | done {Result : Type} (result : Result) : Reader Result
  | fail {Result : Type} (error : LineError) : Reader Result
  /-- The position of the cursor. -/
  | place {Result : Type} (next : Nat → Reader Result) : Reader Result
  /-- The number of octets that are left. -/
  | left {Result : Type} (next : Nat → Reader Result) : Reader Result
  /-- Whether the next octet would be passed by a rule. -/
  | peek {Result : Type} (rule : PassRule) (next : Bool → Reader Result) : Reader Result
  /-- Passes a fixed text if it comes next, and tells whether it did. -/
  | eat {Result : Type} (literal : String) (next : Bool → Reader Result) : Reader Result
  /-- Passes octets by a rule and takes their text. -/
  | take {Result : Type} (rule : PassRule) (next : List Char → Reader Result) : Reader Result
  /-- The text that is left, which is not passed. -/
  | rest {Result : Type} (next : List Char → Reader Result) : Reader Result
  /-- Runs a reader, from whose failure the cursor comes back. -/
  | attempt {Part Result : Type} (first : Reader Part) (next : Option Part → Reader Result) :
    Reader Result

namespace Reader

variable {Part Result : Type}

protected def bind : {Part : Type} → Reader Part → (Part → Reader Result) → Reader Result
  | _, .done result, next => next result
  | _, .fail error, _ => .fail error
  | _, .place follow, next => .place fun offset ↦ (follow offset).bind next
  | _, .left follow, next => .left fun count ↦ (follow count).bind next
  | _, .peek rule follow, next => .peek rule fun found ↦ (follow found).bind next
  | _, .eat literal follow, next => .eat literal fun found ↦ (follow found).bind next
  | _, .take rule follow, next => .take rule fun text ↦ (follow text).bind next
  | _, .rest follow, next => .rest fun text ↦ (follow text).bind next
  | _, .attempt first follow, next => .attempt first fun found ↦ (follow found).bind next

instance : Monad Reader where
  pure := .done
  bind := .bind

/-! ### Two ways to run a reader -/

/-- Runs a reader over the characters of a scan. -/
def exec : {Result : Type} → Reader Result → Scan → Except LineError (Result × Scan)
  | _, .done result, scan => .ok (result, scan)
  | _, .fail error, _ => .error error
  | _, .place next, scan => (next scan.offset).exec scan
  | _, .left next, scan => (next (octets scan.rest)).exec scan
  | _, .peek rule next, scan => (next (rule.passesHead scan.rest)).exec scan
  | _, .eat literal next, scan =>
    match scan.literal? literal with
    | some stop => (next true).exec stop
    | none => (next false).exec scan
  | _, .take rule next, scan =>
    let text := scan.rest.take (rule.count 0 scan.rest)
    (next text).exec ⟨scan.offset + octets text, scan.rest.drop (rule.count 0 scan.rest)⟩
  | _, .rest next, scan => (next scan.rest).exec scan
  | _, .attempt first next, scan =>
    match first.exec scan with
    | .ok (found, stop) => (next (some found)).exec stop
    | .error _ => (next none).exec scan

/-- Runs a reader over the octets of a line from a position on. There is no answer when the line is
cut where it must not be cut. -/
def execAt (line : List Char) :
    {Result : Type} → Reader Result → Nat → Option (Except LineError (Result × Nat))
  | _, .done result, position => some (.ok (result, position))
  | _, .fail error, _ => some (.error error)
  | _, .place next, position => (next position).execAt line position
  | _, .left next, position => (next (octets line - position)).execAt line position
  | _, .peek rule next, position =>
    (next (rule.passesHead ((octetCodes line).drop position))).execAt line position
  | _, .eat literal next, position =>
    (dropOctets? position line).bind fun rest ↦
      if literal.toList.isPrefixOf rest then
        (next true).execAt line (position + octets literal.toList)
      else (next false).execAt line position
  | _, .take rule next, position =>
    let stop := position + rule.count 0 ((octetCodes line).drop position)
    ((Span.between position stop).cut? line).bind fun text ↦ (next text).execAt line stop
  | _, .rest next, position =>
    (dropOctets? position line).bind fun rest ↦ (next rest).execAt line position
  | _, .attempt first next, position =>
    (first.execAt line position).bind fun
      | .ok (found, stop) => (next (some found)).execAt line stop
      | .error _ => (next none).execAt line position

/-! ### Both ways agree -/

/-- The place of a scan after characters of its text. -/
theorem reaches_take (scan : Scan) (count : Nat) :
    scan.Reaches ⟨scan.offset + octets (scan.rest.take count), scan.rest.drop count⟩ :=
  ⟨scan.rest.take count, (List.take_append_drop _ _).symm, rfl⟩

theorem reaches_of_exec (reader : Reader Result) {scan stop : Scan} {result : Result}
    (hexec : reader.exec scan = .ok (result, stop)) : scan.Reaches stop := by
  induction reader generalizing scan stop with
  | done found =>
    obtain ⟨-, rfl⟩ := Prod.mk.inj (Except.ok.inj hexec)
    exact .refl scan
  | fail error => cases hexec
  | place next ih => exact ih _ hexec
  | left next ih => exact ih _ hexec
  | peek rule next ih => exact ih _ hexec
  | rest next ih => exact ih _ hexec
  | eat literal next ih =>
    rw [exec] at hexec
    split at hexec
    · next after hafter => exact (Scan.reaches_of_literal? hafter).trans (ih _ hexec)
    · exact ih _ hexec
  | take rule next ih => exact (reaches_take scan _).trans (ih _ hexec)
  | attempt first next ihFirst ihNext =>
    rw [exec] at hexec
    split at hexec
    · next found after hfirst => exact (ihFirst hfirst).trans (ihNext _ hexec)
    · exact ihNext _ hexec

section OnLine

variable {line : List Char} {scan : Scan}

/-- What is left of a line at a place is what follows its position. -/
theorem dropOctets?_offset (hscan : (Scan.mk 0 line).Reaches scan) :
    dropOctets? scan.offset line = some scan.rest := by
  obtain ⟨passed, hline, hoffset⟩ := hscan
  rw [hoffset, Nat.zero_add, show line = passed ++ scan.rest from hline,
    dropOctets?_octets_append]

theorem drop_octetCodes_offset (hscan : (Scan.mk 0 line).Reaches scan) :
    (octetCodes line).drop scan.offset = octetCodes scan.rest := by
  obtain ⟨passed, hline, hoffset⟩ := hscan
  rw [hoffset, Nat.zero_add, show line = passed ++ scan.rest from hline, drop_octetCodes_append]

theorem octets_sub_offset (hscan : (Scan.mk 0 line).Reaches scan) :
    octets line - scan.offset = octets scan.rest := by
  obtain ⟨passed, hline, hoffset⟩ := hscan
  rw [hoffset, Nat.zero_add, show line = passed ++ scan.rest from hline, octets_append,
    Nat.add_sub_cancel_left]

/-- The stretch from a place over some characters is cut out of the line. -/
theorem cut?_take (hscan : (Scan.mk 0 line).Reaches scan) (count : Nat) :
    (Span.between scan.offset (scan.offset + octets (scan.rest.take count))).cut? line =
      some (scan.rest.take count) := by
  obtain ⟨passed, hline, hoffset⟩ := hscan
  have hparts : line = passed ++ (scan.rest.take count ++ scan.rest.drop count) := by
    rw [List.take_append_drop]
    exact hline
  rw [Span.between, Nat.add_sub_cancel_left, hoffset, Nat.zero_add, hparts]
  exact Span.cut?_append passed _ _

theorem isPrefixOf_rest_iff {literal : String} :
    literal.toList.isPrefixOf scan.rest = true ↔ (scan.literal? literal).isSome = true := by
  rw [List.isPrefixOf_iff_prefix, Option.isSome_iff_exists]
  constructor
  · rintro ⟨rest, hrest⟩
    exact ⟨⟨_, rest⟩, Scan.literal?_eq_some_iff.mpr ⟨hrest.symm, rfl⟩⟩
  · rintro ⟨stop, hstop⟩
    exact ⟨stop.rest, (Scan.literal?_eq_some_iff.mp hstop).1.symm⟩

/-- No cut is refused: over the octets of a line a reader finds what it finds over the characters,
and ends at the same position. -/
theorem execAt_offset (reader : Reader Result) (hscan : (Scan.mk 0 line).Reaches scan) :
    reader.execAt line scan.offset =
      some ((reader.exec scan).map fun (result, stop) ↦ (result, stop.offset)) := by
  induction reader generalizing scan with
  | done result => rfl
  | fail error => rfl
  | place next ih => exact ih _ hscan
  | left next ih =>
    rw [execAt, octets_sub_offset hscan]
    exact ih _ hscan
  | peek rule next ih =>
    rw [execAt, drop_octetCodes_offset hscan, rule.passesHead_octetCodes]
    exact ih _ hscan
  | rest next ih =>
    rw [execAt, dropOctets?_offset hscan]
    exact ih _ hscan
  | eat literal next ih =>
    rw [execAt, dropOctets?_offset hscan, Option.bind_some, exec]
    cases hliteral : scan.literal? literal with
    | none =>
      have hmissing : ¬ literal.toList.isPrefixOf scan.rest = true := by
        rw [isPrefixOf_rest_iff, hliteral]
        exact Bool.false_ne_true
      rw [if_neg hmissing]
      exact ih _ hscan
    | some stop =>
      have hfound : literal.toList.isPrefixOf scan.rest = true := by
        rw [isPrefixOf_rest_iff, hliteral]
        rfl
      rw [if_pos hfound, ← (Scan.literal?_eq_some_iff.mp hliteral).2]
      exact ih _ (hscan.trans (Scan.reaches_of_literal? hliteral))
  | take rule next ih =>
    rw [execAt, drop_octetCodes_offset hscan, rule.count_octetCodes, cut?_take hscan]
    exact ih _ (hscan.trans (reaches_take scan _))
  | attempt first next ihFirst ihNext =>
    rw [execAt, ihFirst hscan, Option.bind_some, exec]
    cases hfirst : first.exec scan with
    | error error => exact ihNext _ hscan
    | ok found => exact ihNext _ (hscan.trans (first.reaches_of_exec hfirst))

end OnLine

end Reader

end VerifierTrace
