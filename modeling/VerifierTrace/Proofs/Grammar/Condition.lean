import VerifierTrace.Instruction.Reader
import VerifierTrace.Proofs.Grammar.Source

/-!
# The forms of conditions

A `ConditionForm` is the comparison of a conditional jump as it is written: a register, a
comparator and a source, with the blanks between them. A register name must be parted by blanks
from a comparator that begins with a letter.

Comparators begin one another: `>` begins `>=`. They are told apart by what follows, for the longer
one goes on with an equals sign (`eq_or_head?_drop`), and neither a blank nor a source begins with
it. So the reader of conditions reads exactly the texts of the forms, with the comparison that the
form stands for (`readCondition_eq_ok_iff`).
-/

set_option autoImplicit false
set_option relaxedAutoImplicit false

namespace VerifierTrace

open Scan

/-! ### Comparators -/

namespace Comparator

/-- How a comparator is written. -/
def spelling : Comparator → List Char
  | equal => ['=', '=']
  | notEqual => ['!', '=']
  | greater => ['>']
  | greaterEqual => ['>', '=']
  | less => ['<']
  | lessEqual => ['<', '=']
  | signedGreater => ['s', '>']
  | signedGreaterEqual => ['s', '>', '=']
  | signedLess => ['s', '<']
  | signedLessEqual => ['s', '<', '=']
  | bitTest => ['&']

theorem toList_symbol (comparator : Comparator) :
    comparator.symbol.toList = comparator.spelling := by
  cases comparator <;> rfl

theorem mem_all (comparator : Comparator) : comparator ∈ all := by
  cases comparator <;> decide

/-- No comparator begins with a blank, nor with a word character other than the letter of the signed
ones. -/
theorem exists_head_spelling (comparator : Comparator) :
    ∃ c, comparator.spelling.head? = some c ∧ isBlank c = false ∧
      (c = 's' ∨ isWordChar c = false) := by
  cases comparator <;> exact ⟨_, rfl, by decide, by decide⟩

/-- A comparator that another one begins goes on with an equals sign. -/
theorem eq_or_head?_drop : ∀ shorter ∈ all, ∀ longer ∈ all,
    shorter.spelling <+: longer.spelling → longer = shorter ∨
      (longer.spelling.drop shorter.spelling.length).head? = some '=' := by
  decide

/-- The comparator that is read comes next. -/
theorem passes_of_firstOf? {comparator : Comparator} {start stop : Scan}
    (hfound : start.firstOf? symbol all = some (comparator, stop)) :
    Passes comparator.spelling start stop := by
  rw [← toList_symbol]
  exact Scan.passes_of_firstOf? hfound

/-- A comparator that no equals sign follows is the longest that fits. -/
theorem firstOf?_of_passes {comparator : Comparator} {start stop : Scan}
    (hpasses : Passes comparator.spelling start stop) (hstop : stop.Avoids (· == '=')) :
    start.firstOf? symbol all = some (comparator, stop) := by
  have hsymbol : Passes comparator.symbol.toList start stop := by
    rw [toList_symbol]
    exact hpasses
  refine firstOf?_eq_some_of_longest pairwise_symbol (mem_all comparator) hsymbol ?_
  intro other hother place hplace
  rw [toList_symbol] at hplace
  rw [toList_symbol, toList_symbol]
  rcases hplace.prefix_or_prefix hpasses with hprefix | hprefix
  · exact hprefix
  · rcases eq_or_head?_drop comparator (mem_all comparator) other hother hprefix with rfl | hnext
    · exact List.prefix_rfl
    · obtain ⟨rest, hrest⟩ := hprefix
      rw [← hrest, passes_append] at hplace
      obtain ⟨middle, hmiddle, hplace⟩ := hplace
      rw [← hrest, List.drop_left] at hnext
      rw [hmiddle.unique hpasses] at hplace
      rw [Avoids, hplace.head? hnext] at hstop
      exact absurd hstop (by decide)

end Comparator

/-! ### Conditions -/

/-- A comparison with the blanks between its parts: `register comparator source`. -/
structure ConditionForm where
  left : RegisterForm
  beforeComparator : Blanks
  comparator : Comparator
  beforeRight : Blanks
  right : SourceForm
  /-- The letter that a comparator begins with would continue the name of the register. -/
  separated : comparator.spelling.head? = some 's' → beforeComparator.text ≠ []

namespace ConditionForm

/-- What stands before the right side. -/
def beforeSource (form : ConditionForm) : List Char :=
  form.left.text ++ (form.beforeComparator.text ++
    (form.comparator.spelling ++ form.beforeRight.text))

def text (form : ConditionForm) : List Char :=
  form.beforeSource ++ form.right.text

/-- The comparison that is meant, when its text stands at a position of a line. -/
def condition (form : ConditionForm) (offset : Nat) : Condition where
  left := form.left.operand offset
  comparator := form.comparator
  right := form.right.operand (offset + octets form.beforeSource)

/-- No condition begins with a blank. -/
theorem avoids_isBlank (form : ConditionForm) {start stop : Scan}
    (hpasses : Passes form.text start stop) : start.Avoids isBlank := by
  obtain ⟨_, hbeforeSource, -⟩ := passes_append.mp hpasses
  obtain ⟨_, hleft, -⟩ := passes_append.mp hbeforeSource
  exact hleft.avoids rfl form.left.view.isBlank_letter

theorem exists_of_readCondition {start stop : Scan} {condition : Condition}
    (h : Jump.readCondition start = .ok (condition, stop)) :
    ∃ form : ConditionForm, Passes form.text start stop ∧ form.right.Ends stop ∧
      condition = form.condition start.offset := by
  simp only [Jump.readCondition, bind_eq_ok_iff, require_eq_ok_iff] at h
  obtain ⟨⟨left, afterLeft⟩, hleft, ⟨comparator, afterComparator⟩, hcomparator,
    ⟨right, after⟩, hright, hsame⟩ := h
  obtain ⟨leftForm, hleftText, hleftEnds, rfl⟩ := RegisterForm.register?_eq_some_iff.mp hleft
  obtain ⟨beforeComparator, hbeforeComparator⟩ := passes_skipBlanks afterLeft
  have hsymbol := Comparator.passes_of_firstOf? hcomparator
  obtain ⟨beforeRight, hbeforeRight⟩ := passes_skipBlanks afterComparator
  obtain ⟨rightForm, hrightText, hrightEnds, rfl⟩ := SourceForm.source?_eq_some_iff.mp hright
  obtain ⟨c, hhead, -, hword⟩ := comparator.exists_head_spelling
  let form : ConditionForm :=
    { left := leftForm, beforeComparator, comparator, beforeRight, right := rightForm
      separated :=
        (avoids_isWordChar_iff_separated hbeforeComparator hsymbol hhead hword).mp hleftEnds }
  have hbeforeSource : Passes form.beforeSource start afterComparator.skipBlanks := by
    simp only [beforeSource, passes_append]
    exact ⟨_, hleftText, _, hbeforeComparator, _, hsymbol, hbeforeRight⟩
  obtain ⟨rfl, rfl⟩ := Prod.mk.inj (Except.ok.inj hsame)
  refine ⟨form, passes_append.mpr ⟨_, hbeforeSource, hrightText⟩, hrightEnds, ?_⟩
  rw [condition, ← hbeforeSource.2]

/-- After all that stands before the right side, a condition is read as its right side is. An equals
sign right after a comparator would belong to it. -/
theorem readCondition_eq_of_stands (form : ConditionForm) {start place : Scan}
    (hbeforeSource : Passes form.beforeSource start place) (hblank : place.Avoids isBlank)
    (hequals : form.beforeRight.text = [] → place.Avoids (· == '=')) :
    Jump.readCondition start =
      (place.require (Operand.source? place) .expectedOperand).map fun (right, stop) ↦
        ({ form.condition start.offset with right }, stop) := by
  have hparts := hbeforeSource
  simp only [beforeSource, passes_append] at hparts
  obtain ⟨afterLeft, hleft, comparatorAt, hbeforeComparator, afterComparator, hsymbol,
    hbeforeRight⟩ := hparts
  obtain ⟨c, hhead, hblankHead, hword⟩ := form.comparator.exists_head_spelling
  have hcomparatorAt : afterLeft.skipBlanks = comparatorAt :=
    hbeforeComparator.skipBlanks_eq (hsymbol.avoids hhead hblankHead)
  have hrightAt : afterComparator.skipBlanks = place := hbeforeRight.skipBlanks_eq hblank
  have hnoEquals : afterComparator.Avoids (· == '=') := by
    cases hfirst : form.beforeRight.text.head? with
    | none =>
      have hnone := List.head?_eq_none_iff.mp hfirst
      rw [hnone] at hbeforeRight
      rw [← passes_nil.mp hbeforeRight]
      exact hequals hnone
    | some blank =>
      refine hbeforeRight.avoids hfirst (beq_eq_false_iff_ne.mpr ?_)
      rintro rfl
      have hblank := List.all_eq_true.mp form.beforeRight.all_isBlank '=' (List.mem_of_head? hfirst)
      exact absurd hblank (by decide)
  have hregister : Operand.register? start = some (form.left.operand start.offset, afterLeft) := by
    refine RegisterForm.register?_eq_some_iff.mpr ⟨form.left, hleft, ?_, rfl⟩
    exact (avoids_isWordChar_iff_separated hbeforeComparator hsymbol hhead hword).mpr
      form.separated
  have hcomparator := Comparator.firstOf?_of_passes hsymbol hnoEquals
  simp only [Jump.readCondition, hregister, require_some_bind, hcomparatorAt, hcomparator, hrightAt]
  cases Operand.source? place with
  | none => rfl
  | some found => rfl

theorem readCondition_of_passes (form : ConditionForm) {start stop : Scan}
    (hpasses : Passes form.text start stop) (hends : form.right.Ends stop) :
    Jump.readCondition start = .ok (form.condition start.offset, stop) := by
  obtain ⟨rightAt, hbeforeSource, hright⟩ := passes_append.mp hpasses
  have hread : Operand.source? rightAt = some (form.right.operand rightAt.offset, stop) :=
    SourceForm.source?_eq_some_iff.mpr ⟨form.right, hright, hends, rfl⟩
  have hnoEquals : rightAt.Avoids (· == '=') := by
    obtain ⟨first, hfirst, hbegins⟩ := form.right.exists_head
    refine hright.avoids hfirst (beq_eq_false_iff_ne.mpr ?_)
    rintro rfl
    exact absurd hbegins (by decide)
  rw [form.readCondition_eq_of_stands hbeforeSource (SourceForm.avoids_isBlank hright)
    (fun _ ↦ hnoEquals), hread, hbeforeSource.2]
  rfl

theorem readCondition_eq_ok_iff {start stop : Scan} {condition : Condition} :
    Jump.readCondition start = .ok (condition, stop) ↔
      ∃ form : ConditionForm, Passes form.text start stop ∧ form.right.Ends stop ∧
        condition = form.condition start.offset := by
  constructor
  · exact exists_of_readCondition
  · rintro ⟨form, hpasses, hends, rfl⟩
    exact form.readCondition_of_passes hpasses hends

end ConditionForm

end VerifierTrace
