/-!
# Octet positions in a line

A position in a line is the number of UTF-8 octets before it, so a line read as a list of characters
is measured by `octets` (`octets_toList`). A `Span` is a stretch of a line given by its first
position and its length in octets. `dropOctets?` and `takeOctets?` cut a text after a number of
octets and refuse a cut inside a character, so `Span.slice?` answers exactly when both ends of the
span lie between two characters of the line. `dropOctets?_octets_append` and
`takeOctets?_octets_append` are the law of the cuts: a text is cut after any of its beginnings.
-/

set_option autoImplicit false
set_option relaxedAutoImplicit false

namespace VerifierTrace

/-- The number of octets of a text in UTF-8. -/
def octets (text : List Char) : Nat :=
  text.foldr (fun c count ↦ c.utf8Size + count) 0

@[simp]
theorem octets_nil : octets [] = 0 := rfl

@[simp]
theorem octets_cons (c : Char) (text : List Char) :
    octets (c :: text) = c.utf8Size + octets text := rfl

@[simp]
theorem octets_append (first second : List Char) :
    octets (first ++ second) = octets first + octets second := by
  induction first with
  | nil => simp
  | cons c first ih => simp [ih, Nat.add_assoc]

/-- The octets counted are those of the encoded text. -/
theorem octets_toList (text : String) : octets text.toList = text.utf8ByteSize := by
  suffices ∀ characters : List Char, octets characters = (String.ofList characters).utf8ByteSize by
    rw [this, String.ofList_toList]
  intro characters
  induction characters with
  | nil => rfl
  | cons c characters ih =>
    have hsplit : String.ofList (c :: characters) =
        String.singleton c ++ String.ofList characters := by
      rw [String.singleton_eq_ofList, ← String.ofList_append, List.singleton_append]
    rw [octets_cons, ih, hsplit, String.utf8ByteSize_append, String.utf8ByteSize_singleton]

/-- What follows the first `count` octets of a text, if the cut falls between two characters. -/
def dropOctets? : Nat → List Char → Option (List Char)
  | 0, text => some text
  | _ + 1, [] => none
  | count + 1, c :: text =>
    if c.utf8Size ≤ count + 1 then dropOctets? (count + 1 - c.utf8Size) text else none

/-- The first `count` octets of a text, if the cut falls between two characters. -/
def takeOctets? : Nat → List Char → Option (List Char)
  | 0, _ => some []
  | _ + 1, [] => none
  | count + 1, c :: text =>
    if c.utf8Size ≤ count + 1 then
      (takeOctets? (count + 1 - c.utf8Size) text).map (c :: ·)
    else none

@[simp]
theorem dropOctets?_zero (text : List Char) : dropOctets? 0 text = some text := by
  cases text <;> rfl

@[simp]
theorem takeOctets?_zero (text : List Char) : takeOctets? 0 text = some [] := by
  cases text <;> rfl

theorem dropOctets?_octets_append (first second : List Char) :
    dropOctets? (octets first) (first ++ second) = some second := by
  induction first with
  | nil => simp
  | cons c first ih =>
    have hpositive : 0 < c.utf8Size := c.utf8Size_pos
    obtain ⟨count, hcount⟩ : ∃ count, c.utf8Size + octets first = count + 1 :=
      ⟨c.utf8Size + octets first - 1, by omega⟩
    rw [octets_cons, List.cons_append, hcount, dropOctets?, if_pos (by omega), ← hcount,
      Nat.add_sub_cancel_left, ih]

theorem takeOctets?_octets_append (first second : List Char) :
    takeOctets? (octets first) (first ++ second) = some first := by
  induction first with
  | nil => simp
  | cons c first ih =>
    have hpositive : 0 < c.utf8Size := c.utf8Size_pos
    obtain ⟨count, hcount⟩ : ∃ count, c.utf8Size + octets first = count + 1 :=
      ⟨c.utf8Size + octets first - 1, by omega⟩
    rw [octets_cons, List.cons_append, hcount, takeOctets?, if_pos (by omega), ← hcount,
      Nat.add_sub_cancel_left, ih]
    rfl

/-- What is cut off and what is left are the text. -/
theorem octets_of_dropOctets? {count : Nat} {text rest : List Char}
    (hdrop : dropOctets? count text = some rest) : count + octets rest = octets text := by
  induction text generalizing count with
  | nil =>
    cases count with
    | zero =>
      cases hdrop
      rfl
    | succ count => cases hdrop
  | cons c text ih =>
    cases count with
    | zero =>
      cases hdrop
      exact Nat.zero_add _
    | succ count =>
      unfold dropOctets? at hdrop
      split at hdrop
      · have hrest := ih hdrop
        rw [octets_cons]
        omega
      · cases hdrop

/-- A stretch of a line, by its first position and its length in octets. -/
structure Span where
  offset : Nat
  length : Nat
  deriving DecidableEq, Repr, Inhabited

namespace Span

/-- The stretch from one position to another, empty when the second comes first. -/
def between (start stop : Nat) : Span :=
  ⟨start, stop - start⟩

/-- The position after the last octet. -/
def stop (span : Span) : Nat :=
  span.offset + span.length

/-- The characters of a line inside the span, if both ends lie between two characters. -/
def cut? (span : Span) (line : List Char) : Option (List Char) :=
  (dropOctets? span.offset line).bind (takeOctets? span.length)

/-- The text of a line inside the span, if both ends lie between two characters. -/
def slice? (span : Span) (line : String) : Option String :=
  (span.cut? line.toList).map String.ofList

theorem cut?_append (before inside after : List Char) :
    (Span.mk (octets before) (octets inside)).cut? (before ++ (inside ++ after)) = some inside := by
  simp [cut?, dropOctets?_octets_append, takeOctets?_octets_append]

end Span

end VerifierTrace
