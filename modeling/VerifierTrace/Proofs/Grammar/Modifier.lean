import VerifierTrace.Instruction.Operator
import VerifierTrace.Proofs.Grammar.Source

/-!
# The forms of modifiers

In front of a source a minus sign, the word of a byte swap and blanks, or a cast may stand. Only a
minus sign can be taken for the beginning of a source, and there the next character decides: before
a register it is a modifier, before a digit the sign of a number. So a source with or without a
modifier is read in one way (`read?_eq_some_iff`, `read?_eq_none_of_source`).

The words of the byte swaps and the casts are spelled out, and the tables of the reader hold these
words and no others (`exists_mem_byteSwaps_iff`, `exists_mem_casts_iff`).
-/

set_option autoImplicit false
set_option relaxedAutoImplicit false

namespace VerifierTrace

open Scan

/-- How many bits a byte swap reorders. -/
inductive SwapWidth
  | bits16
  | bits32
  | bits64
  deriving DecidableEq, Repr

def SwapWidth.bits : SwapWidth → Nat
  | bits16 => 16
  | bits32 => 32
  | bits64 => 64

/-- How many bits a sign extension starts from. -/
inductive CastWidth
  | bits8
  | bits16
  | bits32
  deriving DecidableEq, Repr

def CastWidth.bits : CastWidth → Nat
  | bits8 => 8
  | bits16 => 16
  | bits32 => 32

/-- What may stand in front of a source. -/
inductive ModifierForm
  | negate
  | byteSwap (order : ByteOrder) (width : SwapWidth) (after : Gap)
  | signExtend (width : CastWidth) (after : Blanks)

namespace ModifierForm

/-- The word of a byte swap. -/
def swapWord : ByteOrder → SwapWidth → List Char
  | .swapped, .bits16 => "bswap16".toList
  | .swapped, .bits32 => "bswap32".toList
  | .swapped, .bits64 => "bswap64".toList
  | .big, .bits16 => "be16".toList
  | .big, .bits32 => "be32".toList
  | .big, .bits64 => "be64".toList
  | .little, .bits16 => "le16".toList
  | .little, .bits32 => "le32".toList
  | .little, .bits64 => "le64".toList

/-- The cast of a sign extension. -/
def castWord : CastWidth → List Char
  | .bits8 => "(s8)".toList
  | .bits16 => "(s16)".toList
  | .bits32 => "(s32)".toList

def text : ModifierForm → List Char
  | negate => ['-']
  | byteSwap order width after => swapWord order width ++ after.text
  | signExtend width after => castWord width ++ after.text

def modifier : ModifierForm → Modifier
  | negate => .negate
  | byteSwap order width _ => .byteSwap order width.bits
  | signExtend width _ => .signExtend width.bits

/-- A letter of a register must follow a minus sign, and no more blanks the other modifiers. -/
def Ends (stop : Scan) : ModifierForm → Prop
  | negate => stop.rest.head?.any (fun letter ↦ letter == 'r' || letter == 'w') = true
  | byteSwap _ _ _ | signExtend _ _ => stop.Avoids isBlank

theorem exists_mem_byteSwaps_iff (property : List Char → Modifier → Prop) :
    (∃ swap ∈ Modifier.byteSwaps, property swap.1.toList swap.2) ↔
      ∃ order width, property (swapWord order width) (.byteSwap order width.bits) := by
  constructor
  · rintro ⟨swap, hswap, hproperty⟩
    simp only [Modifier.byteSwaps, List.mem_cons, List.not_mem_nil, or_false] at hswap
    rcases hswap with rfl | rfl | rfl | rfl | rfl | rfl | rfl | rfl | rfl
    · exact ⟨.swapped, .bits16, hproperty⟩
    · exact ⟨.swapped, .bits32, hproperty⟩
    · exact ⟨.swapped, .bits64, hproperty⟩
    · exact ⟨.big, .bits16, hproperty⟩
    · exact ⟨.big, .bits32, hproperty⟩
    · exact ⟨.big, .bits64, hproperty⟩
    · exact ⟨.little, .bits16, hproperty⟩
    · exact ⟨.little, .bits32, hproperty⟩
    · exact ⟨.little, .bits64, hproperty⟩
  · rintro ⟨order, width, hproperty⟩
    refine ⟨(String.ofList (swapWord order width), .byteSwap order width.bits), ?_, ?_⟩
    · cases order <;> cases width <;> decide
    · rw [String.toList_ofList]
      exact hproperty

theorem exists_mem_casts_iff (property : List Char → Modifier → Prop) :
    (∃ cast ∈ Modifier.casts, property cast.1.toList cast.2) ↔
      ∃ width, property (castWord width) (.signExtend width.bits) := by
  constructor
  · rintro ⟨cast, hcast, hproperty⟩
    simp only [Modifier.casts, List.mem_cons, List.not_mem_nil, or_false] at hcast
    rcases hcast with rfl | rfl | rfl
    · exact ⟨.bits8, hproperty⟩
    · exact ⟨.bits16, hproperty⟩
    · exact ⟨.bits32, hproperty⟩
  · rintro ⟨width, hproperty⟩
    refine ⟨(String.ofList (castWord width), .signExtend width.bits), ?_, ?_⟩
    · cases width <;> decide
    · rw [String.toList_ofList]
      exact hproperty

theorem prefixFree_byteSwaps : PrefixFree Prod.fst Modifier.byteSwaps := by
  decide

theorem prefixFree_casts : PrefixFree Prod.fst Modifier.casts := by
  decide

/-- A minus sign is a modifier where the letter of a register follows it. -/
theorem negation?_eq_filter (start : Scan) : Modifier.negation? start =
    ((start.literal? "-").filter fun stop ↦
      stop.rest.head?.any fun letter ↦ letter == 'r' || letter == 'w').map (Modifier.negate, ·) := by
  rw [Modifier.negation?]
  cases start.literal? "-" with
  | none => rfl
  | some stop =>
    rw [Option.filter_some]
    dsimp only
    split
    · rfl
    · rfl

theorem negation?_eq_some_iff {start stop : Scan} {modifier : Modifier} :
    Modifier.negation? start = some (modifier, stop) ↔
      Passes negate.text start stop ∧ negate.Ends stop ∧ modifier = .negate := by
  rw [negation?_eq_filter, Option.map_eq_some_iff]
  constructor
  · rintro ⟨place, hplace, hsame⟩
    obtain ⟨hminus, hletter⟩ := Option.filter_eq_some_iff.mp hplace
    obtain ⟨rfl, rfl⟩ := Prod.mk.inj hsame
    exact ⟨literal?_eq_some_iff.mp hminus, hletter, rfl⟩
  · rintro ⟨hpasses, hends, rfl⟩
    exact ⟨stop, Option.filter_eq_some_iff.mpr ⟨literal?_eq_some_iff.mpr hpasses, hends⟩, rfl⟩

theorem swap?_eq_some_iff {start stop : Scan} {modifier : Modifier} :
    Modifier.swap? start = some (modifier, stop) ↔
      ∃ order width after, Passes (byteSwap order width after).text start stop ∧
        stop.Avoids isBlank ∧ modifier = .byteSwap order width.bits := by
  have hmatcher : ∀ word after, (start.keyword? word).bind Scan.blanks? = some after →
      ∃ place, Passes word.toList start place := by
    intro word after hafter
    obtain ⟨place, hplace, -⟩ := Option.bind_eq_some_iff.mp hafter
    exact ⟨place, (keyword?_eq_some_iff.mp hplace).1⟩
  refine (findSome?_eq_some_iff_of_prefixFree prefixFree_byteSwaps hmatcher).trans ?_
  simp only [keyword?_bind_blanks?_eq_some_iff]
  refine (exists_mem_byteSwaps_iff fun word found ↦ (∃ gap : Gap,
    Passes (word ++ gap.text) start stop ∧ stop.Avoids isBlank) ∧ found = modifier).trans ?_
  constructor
  · rintro ⟨order, width, ⟨gap, hpasses, havoids⟩, rfl⟩
    exact ⟨order, width, gap, hpasses, havoids, rfl⟩
  · rintro ⟨order, width, gap, hpasses, havoids, rfl⟩
    exact ⟨order, width, ⟨gap, hpasses, havoids⟩, rfl⟩

theorem cast?_eq_some_iff {start stop : Scan} {modifier : Modifier} :
    Modifier.cast? start = some (modifier, stop) ↔
      ∃ width after, Passes (signExtend width after).text start stop ∧
        stop.Avoids isBlank ∧ modifier = .signExtend width.bits := by
  have hmatcher : ∀ word after, (start.literal? word).map Scan.skipBlanks = some after →
      ∃ place, Passes word.toList start place := by
    intro word after hafter
    obtain ⟨place, hplace, -⟩ := Option.map_eq_some_iff.mp hafter
    exact ⟨place, literal?_eq_some_iff.mp hplace⟩
  have hcast : Modifier.cast? start = Modifier.casts.findSome? fun cast ↦
      ((start.literal? cast.1).map Scan.skipBlanks).map (cast.2, ·) := by
    simp only [Modifier.cast?, Option.map_map]
    rfl
  rw [hcast]
  refine (findSome?_eq_some_iff_of_prefixFree prefixFree_casts hmatcher).trans ?_
  simp only [Option.map_eq_some_iff, literal?_eq_some_iff]
  refine (exists_mem_casts_iff fun word found ↦ (∃ middle,
    Passes word start middle ∧ middle.skipBlanks = stop) ∧ found = modifier).trans ?_
  constructor
  · rintro ⟨width, ⟨middle, hmiddle, hstop⟩, rfl⟩
    obtain ⟨blanks, hblanks, havoids⟩ := skipBlanks_eq_iff.mp hstop
    exact ⟨width, blanks, passes_append.mpr ⟨middle, hmiddle, hblanks⟩, havoids, rfl⟩
  · rintro ⟨width, blanks, hpasses, havoids, rfl⟩
    obtain ⟨middle, hmiddle, hblanks⟩ := passes_append.mp hpasses
    exact ⟨width, ⟨middle, hmiddle, hblanks.skipBlanks_eq havoids⟩, rfl⟩

/-- The characters that a modifier can begin with. -/
def heads : ModifierForm → List Char
  | negate => ['-']
  | byteSwap _ _ _ => ['b', 'l']
  | signExtend _ _ => ['(']

theorem head?_swapWord (order : ByteOrder) (width : SwapWidth) :
    (swapWord order width).head? = some 'b' ∨ (swapWord order width).head? = some 'l' := by
  cases order <;> cases width <;> decide

theorem head?_castWord (width : CastWidth) : (castWord width).head? = some '(' := by
  cases width <;> rfl

theorem exists_head (form : ModifierForm) : ∃ c, form.text.head? = some c ∧ c ∈ form.heads := by
  cases form with
  | negate => exact ⟨'-', rfl, by simp [heads]⟩
  | byteSwap order width after =>
    rcases head?_swapWord order width with hhead | hhead
    · exact ⟨'b', by rw [text, List.head?_append, hhead]; rfl, by simp [heads]⟩
    · exact ⟨'l', by rw [text, List.head?_append, hhead]; rfl, by simp [heads]⟩
  | signExtend width after =>
    exact ⟨'(', by rw [text, List.head?_append, head?_castWord width]; rfl, by simp [heads]⟩

theorem avoids_isBlank (form : ModifierForm) {start stop : Scan}
    (hpasses : Passes form.text start stop) : start.Avoids isBlank := by
  obtain ⟨c, hhead, hc⟩ := form.exists_head
  have hblank : ∀ c ∈ form.heads, isBlank c = false := by cases form <;> simp [heads, isBlank]
  exact hpasses.avoids hhead (hblank c hc)

/-- Modifiers of different kinds begin with different characters. -/
theorem not_passes_of_disjoint (first second : ModifierForm) {start stop stop' : Scan}
    (hdisjoint : ∀ c ∈ first.heads, c ∉ second.heads) (hfirst : Passes first.text start stop) :
    ¬ Passes second.text start stop' := by
  intro hsecond
  obtain ⟨c, hhead, hc⟩ := first.exists_head
  obtain ⟨c', hhead', hc'⟩ := second.exists_head
  rw [hfirst.head_unique hhead hsecond hhead'] at hc
  exact hdisjoint c' hc hc'

theorem negation?_or_swap?_eq_some_iff {start : Scan} {found : Modifier × Scan} :
    (Modifier.negation? start).or (Modifier.swap? start) = some found ↔
      Modifier.negation? start = some found ∨ Modifier.swap? start = some found := by
  apply or_eq_some_iff_of_exclusive
  rintro ⟨_, _⟩ ⟨_, _⟩ hnegation hswap
  obtain ⟨hpasses, -⟩ := negation?_eq_some_iff.mp hnegation
  obtain ⟨order, width, after, hpasses', -⟩ := swap?_eq_some_iff.mp hswap
  exact not_passes_of_disjoint negate (byteSwap order width after) (by simp [heads])
    hpasses hpasses'

theorem read?_eq_some_iff_or {start : Scan} {found : Modifier × Scan} :
    Modifier.read? start = some found ↔ (Modifier.negation? start = some found ∨
      Modifier.swap? start = some found) ∨ Modifier.cast? start = some found := by
  rw [Modifier.read?, or_eq_some_iff_of_exclusive, negation?_or_swap?_eq_some_iff]
  rintro ⟨_, _⟩ ⟨_, _⟩ hother hcast
  obtain ⟨width, after, hpasses', -⟩ := cast?_eq_some_iff.mp hcast
  rcases negation?_or_swap?_eq_some_iff.mp hother with hfound | hfound
  · obtain ⟨hpasses, -⟩ := negation?_eq_some_iff.mp hfound
    exact not_passes_of_disjoint negate (signExtend width after) (by simp [heads])
      hpasses hpasses'
  · obtain ⟨order, swapWidth, gap, hpasses, -⟩ := swap?_eq_some_iff.mp hfound
    exact not_passes_of_disjoint (byteSwap order swapWidth gap) (signExtend width after)
      (by simp [heads]) hpasses hpasses'

theorem read?_eq_some_iff {start stop : Scan} {modifier : Modifier} :
    Modifier.read? start = some (modifier, stop) ↔
      ∃ form : ModifierForm, Passes form.text start stop ∧ form.Ends stop ∧
        modifier = form.modifier := by
  rw [read?_eq_some_iff_or, negation?_eq_some_iff, swap?_eq_some_iff, cast?_eq_some_iff]
  constructor
  · rintro ((h | ⟨order, width, after, h⟩) | ⟨width, after, h⟩)
    · exact ⟨negate, h⟩
    · exact ⟨byteSwap order width after, h⟩
    · exact ⟨signExtend width after, h⟩
  · rintro ⟨form, h⟩
    cases form with
    | negate => exact Or.inl (Or.inl h)
    | byteSwap order width after => exact Or.inl (Or.inr ⟨order, width, after, h⟩)
    | signExtend width after => exact Or.inr ⟨width, after, h⟩

/-- A source that begins with a minus sign is a number, so a digit comes next. -/
theorem exists_digit_of_minus {source : SourceForm} {start stop place : Scan}
    (hsource : Passes source.text start stop) (hminus : Passes ['-'] start place) :
    ∃ c, place.rest.head? = some c ∧ c.isDigit := by
  cases source with
  | target form =>
    have hmem := form.head_mem
    rw [hsource.head_unique form.head?_text hminus rfl] at hmem
    simp at hmem
  | number form longMark =>
    obtain ⟨after, htext, -⟩ := passes_append.mp hsource
    obtain ⟨unsigned, hsign, hmagnitude⟩ := passes_append.mp htext
    obtain ⟨c, hhead, hdigit⟩ := form.magnitude.exists_head
    cases hnegative : form.negative with
    | true =>
      rw [hnegative] at hsign
      rw [← hsign.unique hminus]
      exact ⟨c, hmagnitude.head? hhead, hdigit⟩
    | false =>
      rw [hnegative] at hsign
      rw [passes_nil.mp hsign] at hmagnitude
      rw [hmagnitude.head_unique hhead hminus rfl] at hdigit
      simp at hdigit

/-- A source has no modifier in front of it: a minus sign before a digit is the sign of a number. -/
theorem read?_eq_none_of_source {source : SourceForm} {start stop : Scan}
    (hsource : Passes source.text start stop) : Modifier.read? start = none := by
  rw [Option.eq_none_iff_forall_ne_some]
  rintro ⟨modifier, place⟩ hread
  obtain ⟨form, hpasses, hends, -⟩ := read?_eq_some_iff.mp hread
  cases form with
  | negate =>
    obtain ⟨c, hhead, hdigit⟩ := exists_digit_of_minus hsource hpasses
    rw [Ends, hhead] at hends
    obtain hletter | hletter : c = 'r' ∨ c = 'w' := by simpa using hends
    · rw [hletter] at hdigit
      simp at hdigit
    · rw [hletter] at hdigit
      simp at hdigit
  | byteSwap order width after =>
    obtain ⟨c, hhead, hc⟩ := (byteSwap order width after).exists_head
    have hbegins := SourceForm.canBegin_of_passes hsource hpasses hhead
    exact (by simp [SourceForm.canBegin] : ∀ c ∈ ['b', 'l'], ¬ SourceForm.canBegin c) c hc hbegins
  | signExtend width after =>
    obtain ⟨c, hhead, hc⟩ := (signExtend width after).exists_head
    have hbegins := SourceForm.canBegin_of_passes hsource hpasses hhead
    exact (by simp [SourceForm.canBegin] : ∀ c ∈ ['('], ¬ SourceForm.canBegin c) c hc hbegins

end ModifierForm

end VerifierTrace
