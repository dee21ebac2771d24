import VerifierTrace.Slot.Basic

/-!
# Sets of slots as sorted lists

The slots that an instruction reads or writes are listed in order and each once. `Slot.sorted` turns
any list into that form: `mem_sorted` says that it keeps the members, and `pairwise_sorted` that the
result is strictly increasing, so two lists with the same members have the same sorted form.
-/

set_option autoImplicit false
set_option relaxedAutoImplicit false

namespace VerifierTrace.Slot

/-- Puts a slot into a sorted list, unless it is there. -/
def insertSorted (slot : Slot) : List Slot → List Slot
  | [] => [slot]
  | first :: rest =>
    if slot < first then slot :: first :: rest
    else if slot = first then first :: rest
    else first :: insertSorted slot rest

/-- The distinct members of a list in order. -/
def sorted (slots : List Slot) : List Slot :=
  slots.foldr insertSorted []

theorem mem_insertSorted {slot member : Slot} {slots : List Slot} :
    member ∈ insertSorted slot slots ↔ member = slot ∨ member ∈ slots := by
  induction slots with
  | nil => simp [insertSorted]
  | cons first rest ih =>
    unfold insertSorted
    split
    · simp
    · split
      · next hsame => simp [hsame]
      · simp [ih, or_left_comm]

theorem pairwise_insertSorted (slot : Slot) {slots : List Slot}
    (hincreasing : slots.Pairwise (· < ·)) :
    (insertSorted slot slots).Pairwise (· < ·) := by
  induction slots with
  | nil => simp [insertSorted]
  | cons first rest ih =>
    have ⟨hhead, htail⟩ := List.pairwise_cons.1 hincreasing
    unfold insertSorted
    split
    · next hless =>
      refine List.pairwise_cons.2 ⟨fun member hmem ↦ ?_, hincreasing⟩
      rcases List.mem_cons.1 hmem with rfl | hmem
      · exact hless
      · exact lt_trans hless (hhead member hmem)
    · next hle =>
      split
      · exact hincreasing
      · next hne =>
        refine List.pairwise_cons.2 ⟨fun member hmem ↦ ?_, ih htail⟩
        rcases mem_insertSorted.1 hmem with rfl | hmem
        · exact lt_of_not_lt_of_ne hle hne
        · exact hhead member hmem

@[simp]
theorem mem_sorted {member : Slot} {slots : List Slot} :
    member ∈ sorted slots ↔ member ∈ slots := by
  induction slots with
  | nil => simp [sorted]
  | cons slot slots ih => simpa [sorted, mem_insertSorted] using or_congr_right ih

theorem pairwise_sorted (slots : List Slot) : (sorted slots).Pairwise (· < ·) := by
  induction slots with
  | nil => simp [sorted]
  | cons slot slots ih => exact pairwise_insertSorted slot ih

end VerifierTrace.Slot
