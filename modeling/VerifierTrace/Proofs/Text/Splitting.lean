import VerifierTrace.Fact.Reader
import VerifierTrace.Slot.Basic

/-!
# Texts that can be told from what follows them

Two parts of a longer text are told apart when their border is determined by the whole: whenever
`first ++ rest = second ++ rest'`, then `first = second` and `rest = rest'`. So it is for texts of a
class of characters before a character outside the class (`append_injective_of_class`), and for
texts whose parentheses are closed and enclose all marks, before a mark
(`append_injective_of_encloses`). A mark is a space or a less-than sign. What holds of each of some
texts holds of a row of them (`flatMap_append_injective`).

The name of a slot is told from a text before it as well (`Slot.append_text_injective`), for no name
of a slot is the end of another: it ends in digits, and what stands before these tells the kind of
the slot.
-/

set_option autoImplicit false
set_option relaxedAutoImplicit false

namespace VerifierTrace

/-! ### Classes of characters -/

section OfClass

variable {inClass : Char → Bool} {first second rest rest' : List Char}

theorem takeWhile_append_of_avoids (hfirst : first.all inClass)
    (hrest : rest.head?.any inClass = false) : (first ++ rest).takeWhile inClass = first := by
  have hnil : rest.takeWhile inClass = [] := by
    cases rest with
    | nil => rfl
    | cons c rest => exact List.takeWhile_cons_of_neg (Bool.eq_false_iff.mp hrest)
  rw [List.takeWhile_append_of_pos (List.all_eq_true.mp hfirst), hnil, List.append_nil]

theorem append_injective_of_class (hfirst : first.all inClass) (hsecond : second.all inClass)
    (hrest : rest.head?.any inClass = false) (hrest' : rest'.head?.any inClass = false)
    (hsame : first ++ rest = second ++ rest') : first = second ∧ rest = rest' := by
  have hbegin : first = second := by
    rw [← takeWhile_append_of_avoids hfirst hrest, hsame, takeWhile_append_of_avoids hsecond hrest']
  rw [hbegin] at hsame
  exact ⟨hbegin, List.append_cancel_left hsame⟩

end OfClass

/-! ### Texts in a row -/

/-- Texts in a row are told from what ends the row, when each of them is told from what may follow
it there and no end begins as one of them does. -/
theorem flatMap_append_injective {Item Shown : Type} {text : Item → List Char}
    {shown : Item → Shown} {valid : Item → Prop} {ends follows : List Char → Prop}
    (hitem : ∀ {item item' rest rest'}, valid item → valid item' → follows rest → follows rest' →
      text item ++ rest = text item' ++ rest' → shown item = shown item' ∧ rest = rest')
    (hends : ∀ {rest}, ends rest → ∀ item more, rest ≠ text item ++ more)
    (hfollows : ∀ {rest}, ends rest → ∀ items : List Item, follows (items.flatMap text ++ rest))
    {items items' : List Item} {rest rest' : List Char} (hitems : ∀ item ∈ items, valid item)
    (hitems' : ∀ item ∈ items', valid item) (hrest : ends rest) (hrest' : ends rest')
    (hsame : items.flatMap text ++ rest = items'.flatMap text ++ rest') :
    items.map shown = items'.map shown ∧ rest = rest' := by
  induction items generalizing items' with
  | nil =>
    cases items' with
    | nil => exact ⟨rfl, hsame⟩
    | cons item' items' =>
      rw [List.flatMap_cons, List.append_assoc] at hsame
      exact absurd hsame (hends hrest item' _)
  | cons item items ih =>
    cases items' with
    | nil =>
      rw [List.flatMap_cons, List.append_assoc] at hsame
      exact absurd hsame.symm (hends hrest' item _)
    | cons item' items' =>
      obtain ⟨hfirst, hitems⟩ := List.forall_mem_cons.mp hitems
      obtain ⟨hfirst', hitems'⟩ := List.forall_mem_cons.mp hitems'
      rw [List.flatMap_cons, List.flatMap_cons, List.append_assoc, List.append_assoc] at hsame
      obtain ⟨hshown, hothers⟩ :=
        hitem hfirst hfirst' (hfollows hrest items) (hfollows hrest' items') hsame
      obtain ⟨hsameItems, hsameRest⟩ := ih hitems hitems' hothers
      exact ⟨by rw [List.map_cons, List.map_cons, hshown, hsameItems], hsameRest⟩

/-! ### Enclosed marks -/

/-- The characters that end a value unless they stand in parentheses. -/
def isMark (c : Char) : Bool :=
  c == ' ' || c == '<'

/-- From a depth of parentheses on, all characters of a class stand in parentheses, and all
parentheses are closed. -/
def encloses (inClass : Char → Bool) : Nat → List Char → Bool
  | depth, [] => depth == 0
  | depth, c :: text =>
    (depth != 0 || !inClass c) && encloses inClass (FactToken.nesting depth c) text

/-- What cannot be taken for a continuation: nothing, or a mark. -/
def BeginsMarked (text : List Char) : Prop :=
  text.head?.all isMark = true

/-- A mark does not continue a text whose parentheses are closed. -/
theorem encloses_eq_false_of_beginsMarked {c : Char} {text : List Char}
    (hmarked : BeginsMarked (c :: text)) (others : List Char) :
    encloses isMark 0 (c :: others) = false := by
  have hmark : isMark c = true := hmarked
  rw [encloses, hmark]
  rfl

theorem append_injective_of_encloses {depth : Nat} {first second rest rest' : List Char}
    (hfirst : encloses isMark depth first) (hsecond : encloses isMark depth second)
    (hrest : BeginsMarked rest) (hrest' : BeginsMarked rest')
    (hsame : first ++ rest = second ++ rest') : first = second ∧ rest = rest' := by
  induction first generalizing depth second with
  | nil =>
    cases second with
    | nil => exact ⟨rfl, hsame⟩
    | cons c second =>
      obtain rfl : depth = 0 := beq_iff_eq.mp hfirst
      rw [List.nil_append] at hsame
      rw [hsame] at hrest
      exact absurd hsecond (Bool.eq_false_iff.mp (encloses_eq_false_of_beginsMarked hrest second))
  | cons c first ih =>
    cases second with
    | nil =>
      obtain rfl : depth = 0 := beq_iff_eq.mp hsecond
      rw [List.nil_append] at hsame
      rw [← hsame] at hrest'
      exact absurd hfirst (Bool.eq_false_iff.mp (encloses_eq_false_of_beginsMarked hrest' first))
    | cons c' second =>
      obtain ⟨rfl, hothers⟩ := List.cons.inj hsame
      obtain ⟨rfl, hends⟩ := ih (Bool.and_eq_true_iff.mp hfirst).2
        (Bool.and_eq_true_iff.mp hsecond).2 hothers
      exact ⟨rfl, hends⟩

theorem nesting_eq_self {c : Char} (hopen : c ≠ '(') (hclose : c ≠ ')') (depth : Nat) :
    FactToken.nesting depth c = depth := by
  unfold FactToken.nesting
  split
  · exact absurd rfl hopen
  · exact absurd rfl hclose
  · rfl

/-- A character that is neither a mark nor a parenthesis. -/
def isPlain (c : Char) : Bool :=
  !isMark c && c != '(' && c != ')'

/-- A text with neither marks nor parentheses may follow. -/
theorem encloses_append {depth : Nat} {first second : List Char}
    (hfirst : encloses isMark depth first) (hsecond : second.all isPlain) :
    encloses isMark depth (first ++ second) := by
  induction first generalizing depth with
  | nil =>
    obtain rfl : depth = 0 := beq_iff_eq.mp hfirst
    rw [List.nil_append]
    induction second with
    | nil => rfl
    | cons c second ih =>
      obtain ⟨hc, hothers⟩ := Bool.and_eq_true_iff.mp (List.all_cons.symm.trans hsecond)
      simp only [isPlain, Bool.and_eq_true, bne_iff_ne] at hc
      rw [encloses, nesting_eq_self hc.1.2 hc.2, hc.1.1, ih hothers]
      rfl
  | cons c first ih =>
    obtain ⟨hc, hothers⟩ := Bool.and_eq_true_iff.mp hfirst
    rw [List.cons_append, encloses, hc, ih hothers]
    rfl

/-! ### Numbers -/

theorem Numeral.text_injective {number number' : Nat}
    (hsame : (Numeral.text number).toList = (Numeral.text number').toList) : number = number' := by
  rw [← Numeral.ofDigits_text number, hsame, Numeral.ofDigits_text]

theorem Numeral.all_isDigit_text (number : Nat) : (Numeral.text number).toList.all Char.isDigit :=
  (Bool.and_eq_true_iff.mp (Numeral.isNumeral_text number)).2

theorem Numeral.exists_cons_text (number : Nat) :
    ∃ c digits, (Numeral.text number).toList = c :: digits ∧ c.isDigit := by
  have hdigits := Numeral.all_isDigit_text number
  have hnonempty := (Bool.and_eq_true_iff.mp (Numeral.isNumeral_text number)).1
  cases htext : (Numeral.text number).toList with
  | nil =>
    rw [htext] at hnonempty
    cases hnonempty
  | cons c digits =>
    rw [htext, List.all_cons] at hdigits
    exact ⟨c, digits, rfl, (Bool.and_eq_true_iff.mp hdigits).1⟩

/-! ### Names of slots -/

namespace Slot

/-- What stands before the digits in the name of a slot. -/
def lead : Slot → List Char
  | .register _ => ['r']
  | .stack offset => ['f', 'p', if offset.toInt < 0 then '-' else '+']
  | .memory => ['M', 'E', 'M']

/-- The digits at the end of the name of a slot. -/
def digits : Slot → List Char
  | .register number => (Numeral.text number.toNat).toList
  | .stack offset => (Numeral.text offset.toInt.natAbs).toList
  | .memory => []

theorem toList_text (slot : Slot) : slot.text.toList = slot.lead ++ slot.digits := by
  cases slot with
  | register number => exact String.toList_append
  | stack offset =>
    rw [text, lead, digits, String.toList_append]
    split
    · rfl
    · rfl
  | memory => rfl

def leads : List (List Char) :=
  [['r'], ['f', 'p', '-'], ['f', 'p', '+'], ['M', 'E', 'M']]

theorem lead_mem (slot : Slot) : slot.lead ∈ leads := by
  cases slot with
  | register number => exact List.mem_cons_self
  | stack offset =>
    rw [lead]
    split
    · decide
    · decide
  | memory => decide

theorem all_isDigit_digits (slot : Slot) : slot.digits.all Char.isDigit := by
  cases slot with
  | register number => exact Numeral.all_isDigit_text _
  | stack offset => exact Numeral.all_isDigit_text _
  | memory => rfl

/-- No lead ends in a digit. -/
theorem exists_getLast?_lead (slot : Slot) :
    ∃ c, slot.lead.getLast? = some c ∧ c.isDigit = false := by
  have hleads : ∀ lead ∈ leads, lead.getLast?.any fun c ↦ !c.isDigit := by decide
  obtain ⟨c, hc, hdigit⟩ := (Option.any_eq_true _ _).mp (hleads slot.lead slot.lead_mem)
  exact ⟨c, hc, by simpa using hdigit⟩

/-- The leads differ in their last characters. -/
theorem lead_eq_of_getLast?_eq {slot slot' : Slot}
    (hlast : slot.lead.getLast? = slot'.lead.getLast?) : slot.lead = slot'.lead := by
  have hleads : ∀ lead ∈ leads, ∀ lead' ∈ leads, lead.getLast? = lead'.getLast? → lead = lead' := by
    decide
  exact hleads _ slot.lead_mem _ slot'.lead_mem hlast

/-- A slot is determined by what stands before its digits and by these. -/
theorem eq_of_lead_eq {slot slot' : Slot} (hlead : slot.lead = slot'.lead)
    (hdigits : slot.digits = slot'.digits) : slot = slot' := by
  cases slot with
  | register number =>
    cases slot' with
    | register number' => rw [UInt8.toNat_inj.mp (Numeral.text_injective hdigits)]
    | stack offset => cases hlead
    | memory => cases hlead
  | stack offset =>
    cases slot' with
    | register number => cases hlead
    | stack offset' =>
      have habs := Numeral.text_injective hdigits
      have hsign : offset.toInt < 0 ↔ offset'.toInt < 0 := by
        have hcharacter := (List.cons.inj (List.cons.inj (List.cons.inj hlead).2).2).1
        by_cases hneg : offset.toInt < 0
        · by_cases hneg' : offset'.toInt < 0
          · exact iff_of_true hneg hneg'
          · rw [if_pos hneg, if_neg hneg'] at hcharacter
            exact absurd hcharacter (by decide)
        · by_cases hneg' : offset'.toInt < 0
          · rw [if_neg hneg, if_pos hneg'] at hcharacter
            exact absurd hcharacter (by decide)
          · exact iff_of_false hneg hneg'
      have hoffset : offset.toInt = offset'.toInt := by omega
      rw [Int32.toInt_inj.mp hoffset]
    | memory => cases hlead
  | memory =>
    cases slot' with
    | register number => cases hlead
    | stack offset => cases hlead
    | memory => rfl

theorem append_text_injective {before before' : List Char} {slot slot' : Slot}
    (hsame : before ++ slot.text.toList = before' ++ slot'.text.toList) :
    before = before' ∧ slot = slot' := by
  have hreversed : slot.digits.reverse ++ (before ++ slot.lead).reverse =
      slot'.digits.reverse ++ (before' ++ slot'.lead).reverse := by
    simp only [toList_text, ← List.append_assoc] at hsame
    rw [← List.reverse_append, hsame, List.reverse_append]
  have hlast : ∀ (before : List Char) (slot : Slot),
      (before ++ slot.lead).getLast? = slot.lead.getLast? := by
    intro before slot
    obtain ⟨c, hc, -⟩ := slot.exists_getLast?_lead
    rw [List.getLast?_append, hc]
    rfl
  have hborder : ∀ (before : List Char) (slot : Slot),
      (before ++ slot.lead).reverse.head?.any Char.isDigit = false := by
    intro before slot
    obtain ⟨c, hc, hdigit⟩ := slot.exists_getLast?_lead
    rw [List.head?_reverse, hlast, hc]
    exact hdigit
  have hall : ∀ slot : Slot, slot.digits.reverse.all Char.isDigit := by
    intro slot
    rw [List.all_reverse]
    exact slot.all_isDigit_digits
  obtain ⟨hdigits, hrest⟩ := append_injective_of_class (hall slot) (hall slot')
    (hborder before slot) (hborder before' slot') hreversed
  rw [List.reverse_inj] at hdigits hrest
  have hlead : slot.lead = slot'.lead := by
    apply lead_eq_of_getLast?_eq
    rw [← hlast before slot, hrest, hlast before' slot']
  rw [hlead] at hrest
  exact ⟨List.append_cancel_right hrest, eq_of_lead_eq hlead hdigits⟩

end Slot

end VerifierTrace
