import VerifierTrace.Slot.Basic

/-!
# Tables indexed by slots

A `SlotMap` assigns a value to some slots and lists them in the order of the slots. `get?` is the
view through which it is described: `get?_update` says what an update does to every slot,
`get?_insertAll` and `get?_map` what a change of several or all values does, and by `ext_get?` a
table is determined by its view.
-/

set_option autoImplicit false
set_option relaxedAutoImplicit false

namespace VerifierTrace

/-- Values at some of the slots, in the order of the slots. -/
structure SlotMap (Value : Type) where
  entries : List (Slot × Value)
  increasing : (entries.map Prod.fst).Pairwise (· < ·)
  deriving DecidableEq, Repr

namespace SlotMap

variable {Value : Type}

def empty : SlotMap Value :=
  ⟨[], List.Pairwise.nil⟩

/-- The value of the first entry of a slot in a list. -/
def valueAt? (slot : Slot) : List (Slot × Value) → Option Value
  | [] => none
  | entry :: rest => if slot = entry.1 then some entry.2 else valueAt? slot rest

/-- The value at a slot, if the slot is in the table. -/
def get? (table : SlotMap Value) (slot : Slot) : Option Value :=
  valueAt? slot table.entries

/-- Changes the entry of one slot in a sorted list, or puts it in its place. -/
def updateEntries (slot : Slot) (change : Option Value → Value) :
    List (Slot × Value) → List (Slot × Value)
  | [] => [(slot, change none)]
  | entry :: rest =>
    if slot < entry.1 then (slot, change none) :: entry :: rest
    else if slot = entry.1 then (slot, change (some entry.2)) :: rest
    else entry :: updateEntries slot change rest

theorem mem_updateEntries {slot member : Slot} {change : Option Value → Value}
    {entries : List (Slot × Value)}
    (hmem : member ∈ (updateEntries slot change entries).map Prod.fst) :
    member = slot ∨ member ∈ entries.map Prod.fst := by
  induction entries with
  | nil => simpa [updateEntries] using hmem
  | cons entry rest ih =>
    unfold updateEntries at hmem
    split at hmem
    · simpa using hmem
    · split at hmem
      · next hsame => simpa [hsame] using hmem
      · rcases List.mem_cons.1 hmem with rfl | hmem
        · simp
        · rcases ih hmem with rfl | hmem
          · simp
          · exact .inr (List.mem_cons_of_mem _ hmem)

theorem increasing_updateEntries (slot : Slot) (change : Option Value → Value)
    {entries : List (Slot × Value)} (hincreasing : (entries.map Prod.fst).Pairwise (· < ·)) :
    ((updateEntries slot change entries).map Prod.fst).Pairwise (· < ·) := by
  induction entries with
  | nil => simp [updateEntries]
  | cons entry rest ih =>
    have ⟨hhead, htail⟩ := List.pairwise_cons.1 hincreasing
    unfold updateEntries
    split
    · next hless =>
      refine List.pairwise_cons.2 ⟨fun member hmem ↦ ?_, hincreasing⟩
      rcases List.mem_cons.1 hmem with rfl | hmem
      · exact hless
      · exact Slot.lt_trans hless (hhead member hmem)
    · next hle =>
      split
      · next hsame => simpa [hsame] using hincreasing
      · next hne =>
        refine List.pairwise_cons.2 ⟨fun member hmem ↦ ?_, ih htail⟩
        rcases mem_updateEntries hmem with rfl | hmem
        · exact Slot.lt_of_not_lt_of_ne hle hne
        · exact hhead member hmem

/-- Gives a slot a new value computed from its old one, if it had any. -/
def update (table : SlotMap Value) (slot : Slot) (change : Option Value → Value) : SlotMap Value :=
  ⟨updateEntries slot change table.entries, increasing_updateEntries slot change table.increasing⟩

/-- Gives a slot a value, whatever it had before. -/
def insert (table : SlotMap Value) (slot : Slot) (value : Value) : SlotMap Value :=
  table.update slot fun _ ↦ value

/-- Gives some slots values, whatever they had before. -/
def insertAll (table : SlotMap Value) (slots : List Slot) (value : Slot → Value) : SlotMap Value :=
  slots.foldl (fun table slot ↦ table.insert slot (value slot)) table

/-- Changes every value. -/
def map (table : SlotMap Value) (change : Value → Value) : SlotMap Value :=
  ⟨table.entries.map fun entry ↦ (entry.1, change entry.2), by
    simpa [List.map_map, Function.comp_def] using table.increasing⟩

/-! ### The view -/

theorem valueAt?_eq_none {slot : Slot} {entries : List (Slot × Value)}
    (habsent : slot ∉ entries.map Prod.fst) : valueAt? slot entries = none := by
  induction entries with
  | nil => rfl
  | cons entry rest ih =>
    rw [List.map_cons, List.mem_cons, not_or] at habsent
    rw [valueAt?, if_neg habsent.1, ih habsent.2]

theorem valueAt?_updateEntries (slot query : Slot) (change : Option Value → Value)
    {entries : List (Slot × Value)} (hincreasing : (entries.map Prod.fst).Pairwise (· < ·)) :
    valueAt? query (updateEntries slot change entries) =
      if query = slot then some (change (valueAt? slot entries))
      else valueAt? query entries := by
  induction entries with
  | nil => simp [updateEntries, valueAt?]
  | cons entry rest ih =>
    have ⟨hhead, htail⟩ := List.pairwise_cons.1 hincreasing
    unfold updateEntries
    split
    · next hless =>
      have habsent : slot ∉ (entry :: rest).map Prod.fst := fun hmem ↦ by
        rcases List.mem_cons.1 hmem with hsame | hmem
        · exact Slot.ne_of_lt hless hsame
        · exact Slot.lt_irrefl _ (Slot.lt_trans hless (hhead slot hmem))
      rw [valueAt?_eq_none habsent, valueAt?]
    · next hle =>
      split
      · next hsame =>
        by_cases hquery : query = entry.1 <;> simp [valueAt?, hsame, hquery]
      · next hne =>
        rw [valueAt?, ih htail]
        by_cases hquery : query = entry.1
        · simp [valueAt?, hquery, Ne.symm hne]
        · simp [valueAt?, hquery, hne]

@[simp]
theorem get?_empty (query : Slot) : (empty : SlotMap Value).get? query = none := rfl

theorem get?_update (table : SlotMap Value) (slot query : Slot) (change : Option Value → Value) :
    (table.update slot change).get? query =
      if query = slot then some (change (table.get? slot)) else table.get? query :=
  valueAt?_updateEntries slot query change table.increasing

theorem get?_insert (table : SlotMap Value) (slot query : Slot) (value : Value) :
    (table.insert slot value).get? query =
      if query = slot then some value else table.get? query :=
  table.get?_update slot query _

theorem get?_insertAll (table : SlotMap Value) (slots : List Slot) (value : Slot → Value)
    (query : Slot) :
    (table.insertAll slots value).get? query =
      if query ∈ slots then some (value query) else table.get? query := by
  induction slots generalizing table with
  | nil => simp [insertAll]
  | cons slot slots ih =>
    rw [insertAll, List.foldl_cons, ← insertAll, ih, get?_insert]
    by_cases hlater : query ∈ slots
    · simp [hlater]
    · by_cases hsame : query = slot <;> simp [hlater, hsame]

theorem get?_map (table : SlotMap Value) (change : Value → Value) (query : Slot) :
    (table.map change).get? query = (table.get? query).map change := by
  obtain ⟨entries, -⟩ := table
  simp only [map, get?]
  induction entries with
  | nil => rfl
  | cons entry rest ih =>
    have htail := (List.pairwise_cons.1 ‹((entry :: rest).map Prod.fst).Pairwise (· < ·)›).2
    by_cases hquery : query = entry.1 <;> simp [valueAt?, hquery, ih htail]

theorem mem_entries_iff (table : SlotMap Value) (slot : Slot) (value : Value) :
    (slot, value) ∈ table.entries ↔ table.get? slot = some value := by
  obtain ⟨entries, hincreasing⟩ := table
  simp only [get?]
  induction entries with
  | nil => simp [valueAt?]
  | cons entry rest ih =>
    have ⟨hhead, htail⟩ := List.pairwise_cons.1 hincreasing
    obtain ⟨first, held⟩ := entry
    by_cases hsame : slot = first
    · subst hsame
      have houtside : (slot, value) ∉ rest := fun hmem ↦
        Slot.lt_irrefl slot (hhead slot (List.mem_map.2 ⟨_, hmem, rfl⟩))
      simp [valueAt?, houtside, eq_comm]
    · simp [valueAt?, hsame, ih htail]

/-- The slot of the first entry comes before those of the others. -/
theorem lt_of_mem_rest {entry other : Slot × Value} {rest : List (Slot × Value)}
    (hincreasing : ((entry :: rest).map Prod.fst).Pairwise (· < ·)) (hmem : other ∈ rest) :
    entry.1 < other.1 :=
  (List.pairwise_cons.1 hincreasing).1 other.1 (List.mem_map_of_mem hmem)

/-- Two lists with the same entries begin with the same one. -/
theorem first_eq_of_mem {entry entry' : Slot × Value} {rest rest' : List (Slot × Value)}
    (hincreasing : ((entry :: rest).map Prod.fst).Pairwise (· < ·))
    (hincreasing' : ((entry' :: rest').map Prod.fst).Pairwise (· < ·))
    (hmem : entry ∈ entry' :: rest') (hmem' : entry' ∈ entry :: rest) : entry = entry' := by
  rcases List.mem_cons.1 hmem with hsame | hlater
  · exact hsame
  · rcases List.mem_cons.1 hmem' with hsame | hlater'
    · exact hsame.symm
    · have hless := lt_of_mem_rest hincreasing hlater'
      have hgreater := lt_of_mem_rest hincreasing' hlater
      exact absurd (Slot.lt_trans hless hgreater) (Slot.lt_irrefl _)

/-- An entry after the first one of a list is after the first one of any list that begins alike. -/
theorem mem_rest_of_mem {entry other : Slot × Value} {rest rest' : List (Slot × Value)}
    (hincreasing : ((entry :: rest).map Prod.fst).Pairwise (· < ·)) (hmem : other ∈ rest)
    (hmem' : other ∈ entry :: rest') : other ∈ rest' := by
  rcases List.mem_cons.1 hmem' with rfl | hlater
  · exact absurd (lt_of_mem_rest hincreasing hmem) (Slot.lt_irrefl _)
  · exact hlater

/-- Two tables with the same entries are the same. -/
theorem entries_eq_of_mem_iff {entries entries' : List (Slot × Value)}
    (hincreasing : (entries.map Prod.fst).Pairwise (· < ·))
    (hincreasing' : (entries'.map Prod.fst).Pairwise (· < ·))
    (hmembers : ∀ entry, entry ∈ entries ↔ entry ∈ entries') : entries = entries' := by
  induction entries generalizing entries' with
  | nil =>
    cases entries' with
    | nil => rfl
    | cons entry' rest' => exact absurd ((hmembers entry').2 List.mem_cons_self) List.not_mem_nil
  | cons entry rest ih =>
    cases entries' with
    | nil => exact absurd ((hmembers entry).1 List.mem_cons_self) List.not_mem_nil
    | cons entry' rest' =>
      obtain rfl : entry = entry' := first_eq_of_mem hincreasing hincreasing'
        ((hmembers entry).1 List.mem_cons_self) ((hmembers entry').2 List.mem_cons_self)
      have hrest : rest = rest' := by
        refine ih (List.pairwise_cons.1 hincreasing).2 (List.pairwise_cons.1 hincreasing').2 ?_
        refine fun other ↦ ⟨fun hmem ↦ ?_, fun hmem ↦ ?_⟩
        · exact mem_rest_of_mem hincreasing hmem
            ((hmembers other).1 (List.mem_cons_of_mem _ hmem))
        · exact mem_rest_of_mem hincreasing' hmem
            ((hmembers other).2 (List.mem_cons_of_mem _ hmem))
      rw [hrest]

/-- A table is determined by its view. -/
theorem ext_get? {first second : SlotMap Value}
    (hsame : ∀ slot, first.get? slot = second.get? slot) : first = second := by
  have hentries : first.entries = second.entries := by
    refine entries_eq_of_mem_iff first.increasing second.increasing fun entry ↦ ?_
    have hleft := first.mem_entries_iff entry.1 entry.2
    have hright := second.mem_entries_iff entry.1 entry.2
    rw [hsame] at hleft
    exact hleft.trans hright.symm
  cases first
  cases second
  cases hentries
  rfl

end SlotMap

end VerifierTrace
