import VerifierTrace.Instruction.Reader
import VerifierTrace.Proofs.Grammar.Modifier

/-!
# The forms of assignments

An `AssignmentForm` is an assignment as it is written: the word `lock` if it is there, a target, an
operator, a modifier if there is one, and a source, with the blanks between them. Two rules of the
grammar tie its parts together. A register name must be parted by blanks from an operator that
begins with a letter, and a minus sign is a modifier only before a register.

The reader of assignments reads exactly the texts of the forms, with the assignment that the form
stands for (`AssignmentForm.read_eq_ok_iff`).
-/

set_option autoImplicit false
set_option relaxedAutoImplicit false

namespace VerifierTrace

open Scan

/-! ### The word `lock` -/

/-- The text before a target: nothing, or the word `lock` and blanks. -/
def lockText : Option Gap → List Char
  | none => []
  | some gap => "lock".toList ++ gap.text

theorem exists_lock (start : Scan) : ∃ lock : Option Gap,
    Passes (lockText lock) start (((start.keyword? "lock").bind Scan.blanks?).getD start) ∧
      ((start.keyword? "lock").bind Scan.blanks?).isSome = lock.isSome := by
  cases hlock : (start.keyword? "lock").bind Scan.blanks? with
  | none => exact ⟨none, passes_nil.mpr rfl, rfl⟩
  | some place =>
    obtain ⟨gap, hpasses, -⟩ := keyword?_bind_blanks?_eq_some_iff.mp hlock
    exact ⟨some gap, hpasses, rfl⟩

/-- No target begins like the word `lock`, so the word is read exactly when it is there. -/
theorem lock_eq_of_target {lock : Option Gap} {target : TargetForm} {start place stop : Scan}
    (hlock : Passes (lockText lock) start place) (htarget : Passes target.text place stop) :
    (start.keyword? "lock").bind Scan.blanks? = lock.map fun _ ↦ place := by
  cases lock with
  | none =>
    rw [Option.map_none, Option.eq_none_iff_forall_ne_some]
    intro other hother
    obtain ⟨gap, hpasses, -⟩ := keyword?_bind_blanks?_eq_some_iff.mp hother
    obtain ⟨_, hword, -⟩ := passes_append.mp hpasses
    rw [passes_nil.mp hlock] at htarget
    have hmem := target.head_mem
    rw [htarget.head_unique target.head?_text hword rfl] at hmem
    exact absurd hmem (by decide)
  | some gap =>
    exact keyword?_bind_blanks?_eq_some_iff.mpr ⟨gap, hlock, target.avoids_isBlank htarget⟩

theorem getD_lock {lock : Option Gap} {start place : Scan}
    (hlock : Passes (lockText lock) start place) :
    (lock.map fun _ ↦ place).getD start = place := by
  cases lock with
  | none => exact (passes_nil.mp hlock).symm
  | some gap => rfl

/-! ### Modifier and source -/

/-- The text between the blanks after an operator and the source. -/
def modifierText : Option ModifierForm → List Char
  | none => []
  | some form => form.text

theorem exists_modifier (start : Scan) : ∃ modifier : Option ModifierForm,
    Passes (modifierText modifier) start ((Modifier.read? start).elim start Prod.snd) ∧
      (Modifier.read? start).map Prod.fst = modifier.map ModifierForm.modifier ∧
        ∀ form ∈ modifier, form.Ends ((Modifier.read? start).elim start Prod.snd) := by
  cases hread : Modifier.read? start with
  | none => exact ⟨none, passes_nil.mpr rfl, rfl, fun form hform ↦ absurd hform (by simp)⟩
  | some found =>
    obtain ⟨form, hpasses, hends, hmodifier⟩ := ModifierForm.read?_eq_some_iff.mp hread
    refine ⟨some form, hpasses, congrArg some hmodifier, fun other hother ↦ ?_⟩
    rw [← Option.some.inj (Option.mem_def.mp hother)]
    exact hends

/-- A minus sign is a modifier exactly before a register. -/
theorem ends_negate_iff {source : SourceForm} {start stop : Scan}
    (hsource : Passes source.text start stop) :
    ModifierForm.negate.Ends start ↔ source.isRegister := by
  obtain ⟨c, hhead, hregister⟩ := source.exists_head_isRegister
  rw [← hregister, ModifierForm.Ends, hsource.head? hhead]
  rfl

/-- A source can be read at a place when no more blanks come next, nor a modifier where there is
none. -/
def SourceStands (place : Scan) : Option ModifierForm → Prop
  | none => place.Avoids isBlank ∧ Modifier.read? place = none
  | some form => form.Ends place

theorem sourceStands_of_source {modifier : Option ModifierForm} {source : SourceForm}
    {place stop : Scan} (hnegated : modifier = some .negate → source.isRegister)
    (hsource : Passes source.text place stop) : SourceStands place modifier := by
  have hblank := SourceForm.avoids_isBlank hsource
  cases modifier with
  | none => exact ⟨hblank, ModifierForm.read?_eq_none_of_source hsource⟩
  | some form =>
    cases form with
    | negate => exact (ends_negate_iff hsource).mpr (hnegated rfl)
    | byteSwap order width after => exact hblank
    | signExtend width after => exact hblank

theorem modifier_eq_of_stands {modifier : Option ModifierForm} {start place : Scan}
    (hmodifier : Passes (modifierText modifier) start place)
    (hstands : SourceStands place modifier) :
    Modifier.read? start = modifier.map fun form ↦ (form.modifier, place) := by
  cases modifier with
  | none =>
    rw [passes_nil.mp hmodifier] at hstands
    exact hstands.2
  | some form => exact ModifierForm.read?_eq_some_iff.mpr ⟨form, hmodifier, hstands, rfl⟩

theorem elim_modifier {modifier : Option ModifierForm} {start place : Scan}
    (hmodifier : Passes (modifierText modifier) start place) :
    (modifier.map fun form ↦ (form.modifier, place)).elim start Prod.snd = place := by
  cases modifier with
  | none => exact (passes_nil.mp hmodifier).symm
  | some form => rfl

theorem avoids_isBlank_of_stands {modifier : Option ModifierForm} {start place : Scan}
    (hmodifier : Passes (modifierText modifier) start place)
    (hstands : SourceStands place modifier) :
    start.Avoids isBlank := by
  cases modifier with
  | none =>
    rw [passes_nil.mp hmodifier] at hstands
    exact hstands.1
  | some form => exact form.avoids_isBlank hmodifier

/-! ### Operators -/

namespace AssignOperator

/-- How an operator is written. -/
def spelling : AssignOperator → List Char
  | assign => ['=']
  | add => ['+', '=']
  | subtract => ['-', '=']
  | multiply => ['*', '=']
  | divide => ['/', '=']
  | remainder => ['%', '=']
  | bitAnd => ['&', '=']
  | bitOr => ['|', '=']
  | bitXor => ['^', '=']
  | shiftLeft => ['<', '<', '=']
  | shiftRight => ['>', '>', '=']
  | signedShiftRight => ['s', '>', '>', '=']
  | signedShiftLeft => ['s', '<', '<', '=']

theorem toList_symbol (operator : AssignOperator) :
    operator.symbol.toList = operator.spelling := by
  cases operator <;> rfl

theorem mem_all (operator : AssignOperator) : operator ∈ all := by
  cases operator <;> decide

theorem prefixFree_symbol : PrefixFree symbol all := by
  decide

/-- The operator that is read is the one that is written. -/
theorem firstOf?_eq_some_iff {operator : AssignOperator} {start stop : Scan} :
    start.firstOf? symbol all = some (operator, stop) ↔ Passes operator.spelling start stop := by
  rw [Scan.firstOf?_eq_some_iff prefixFree_symbol, toList_symbol]
  exact and_iff_right operator.mem_all

/-- No operator begins with a blank, nor with a word character other than the letter of the signed
shifts. -/
theorem exists_head_spelling (operator : AssignOperator) :
    ∃ c, operator.spelling.head? = some c ∧ isBlank c = false ∧
      (c = 's' ∨ isWordChar c = false) := by
  cases operator <;> exact ⟨_, rfl, by decide, by decide⟩

end AssignOperator

/-! ### Assignments -/

/-- An assignment with the blanks between its parts: `[lock] target operator [modifier] source`. -/
structure AssignmentForm where
  lock : Option Gap
  target : TargetForm
  beforeOperator : Blanks
  operator : AssignOperator
  beforeModifier : Blanks
  modifier : Option ModifierForm
  source : SourceForm
  /-- The letter that an operator begins with would continue the name of a register. -/
  separated : target.isRegister → operator.spelling.head? = some 's' → beforeOperator.text ≠ []
  /-- A minus sign that does not stand before a register is no modifier. -/
  negated : modifier = some .negate → source.isRegister

namespace AssignmentForm

/-- What stands before the source. -/
def beforeSource (form : AssignmentForm) : List Char :=
  lockText form.lock ++ (form.target.text ++ (form.beforeOperator.text ++
    (form.operator.spelling ++ (form.beforeModifier.text ++ modifierText form.modifier))))

def text (form : AssignmentForm) : List Char :=
  form.beforeSource ++ form.source.text

/-- The assignment that is meant, when its text stands at a position of a line. -/
def assignment (form : AssignmentForm) (offset : Nat) : Assignment where
  operator := form.operator
  target := form.target.operand (offset + octets (lockText form.lock))
  source := form.source.operand (offset + octets form.beforeSource)
  modifier := form.modifier.map ModifierForm.modifier
  atomic := form.lock.isSome

/-- No assignment begins with a blank. -/
theorem avoids_isBlank (form : AssignmentForm) {start stop : Scan}
    (hpasses : Passes form.text start stop) : start.Avoids isBlank := by
  obtain ⟨sourceAt, hbeforeSource, -⟩ := passes_append.mp hpasses
  obtain ⟨targetAt, hlock, hrest⟩ := passes_append.mp hbeforeSource
  obtain ⟨afterTarget, htarget, -⟩ := passes_append.mp hrest
  cases hform : form.lock with
  | none =>
    rw [hform] at hlock
    rw [passes_nil.mp hlock] at htarget
    exact form.target.avoids_isBlank htarget
  | some gap =>
    rw [hform] at hlock
    exact hlock.avoids rfl rfl

/-- What follows a target lets it end exactly when the blanks before the operator part the two. -/
theorem ends_iff_separated {target : TargetForm} {blanks : Blanks} {operator : AssignOperator}
    {start middle stop : Scan} (hblanks : Passes blanks.text start middle)
    (hsymbol : Passes operator.spelling middle stop) :
    target.Ends start ↔
      (target.isRegister → operator.spelling.head? = some 's' → blanks.text ≠ []) := by
  cases target with
  | reference form => exact ⟨fun _ h ↦ absurd h Bool.false_ne_true, fun _ ↦ trivial⟩
  | register form =>
    obtain ⟨c, hhead, -, hword⟩ := operator.exists_head_spelling
    exact (avoids_isWordChar_iff_separated hblanks hsymbol hhead hword).trans
      ⟨fun hseparated _ ↦ hseparated, fun hseparated ↦ hseparated rfl⟩

theorem exists_of_read {start stop : Scan} {assignment : Assignment}
    (h : Assignment.read start = .ok (assignment, stop)) :
    ∃ form : AssignmentForm, Passes form.text start stop ∧ form.source.Ends stop ∧
      assignment = form.assignment start.offset := by
  simp only [Assignment.read, bind_eq_ok_iff, require_eq_ok_iff] at h
  obtain ⟨⟨target, afterTarget⟩, htarget, ⟨operator, afterOperator⟩, hoperator,
    ⟨source, after⟩, hsource, hsame⟩ := h
  obtain ⟨lock, hlock, hatomic⟩ := exists_lock start
  obtain ⟨targetForm, htargetText, htargetEnds, rfl⟩ := TargetForm.target?_eq_some_iff.mp htarget
  obtain ⟨beforeOperator, hbeforeOperator⟩ := passes_skipBlanks afterTarget
  have hsymbol := AssignOperator.firstOf?_eq_some_iff.mp hoperator
  obtain ⟨beforeModifier, hbeforeModifier⟩ := passes_skipBlanks afterOperator
  obtain ⟨modifier, hmodifier, hmodified, hmodifierEnds⟩ := exists_modifier afterOperator.skipBlanks
  obtain ⟨sourceForm, hsourceText, hsourceEnds, rfl⟩ := SourceForm.source?_eq_some_iff.mp hsource
  let form : AssignmentForm :=
    { lock, target := targetForm, beforeOperator, operator, beforeModifier, modifier,
      source := sourceForm,
      separated := (ends_iff_separated hbeforeOperator hsymbol).mp htargetEnds
      negated := fun h ↦ (ends_negate_iff hsourceText).mp (hmodifierEnds .negate h) }
  have hbeforeSource : Passes form.beforeSource start
      ((Modifier.read? afterOperator.skipBlanks).elim afterOperator.skipBlanks Prod.snd) := by
    simp only [beforeSource, passes_append]
    exact ⟨_, hlock, _, htargetText, _, hbeforeOperator, _, hsymbol, _, hbeforeModifier, hmodifier⟩
  obtain ⟨rfl, rfl⟩ := Prod.mk.inj (Except.ok.inj hsame)
  refine ⟨form, passes_append.mpr ⟨_, hbeforeSource, hsourceText⟩, hsourceEnds, ?_⟩
  rw [assignment, ← hbeforeSource.2, ← hmodified, ← hatomic, ← hlock.2]

/-- After all that stands before a source, an assignment is read as its source is. -/
theorem read_eq_of_stands (form : AssignmentForm) {start place : Scan}
    (hbeforeSource : Passes form.beforeSource start place)
    (hstands : SourceStands place form.modifier) :
    Assignment.read start =
      (place.require (Operand.source? place) .expectedOperand).map fun (source, stop) ↦
        ({ form.assignment start.offset with source }, stop) := by
  have hparts := hbeforeSource
  simp only [beforeSource, passes_append] at hparts
  obtain ⟨targetAt, hlock, afterTarget, htarget, operatorAt, hbeforeOperator, afterOperator,
    hsymbol, modifierAt, hbeforeModifier, hmodifier⟩ := hparts
  have hlocked := lock_eq_of_target hlock htarget
  have hoperatorAt : afterTarget.skipBlanks = operatorAt := by
    obtain ⟨c, hhead, hblank, -⟩ := form.operator.exists_head_spelling
    exact hbeforeOperator.skipBlanks_eq (hsymbol.avoids hhead hblank)
  have hmodifierAt : afterOperator.skipBlanks = modifierAt :=
    hbeforeModifier.skipBlanks_eq (avoids_isBlank_of_stands hmodifier hstands)
  have hmodified := modifier_eq_of_stands hmodifier hstands
  have hoperand : Operand.target? targetAt =
      some (form.target.operand targetAt.offset, afterTarget) := by
    refine TargetForm.target?_eq_some_iff.mpr ⟨form.target, htarget, ?_, rfl⟩
    exact (ends_iff_separated hbeforeOperator hsymbol).mpr form.separated
  have hoperator : operatorAt.firstOf? AssignOperator.symbol AssignOperator.all =
      some (form.operator, afterOperator) :=
    AssignOperator.firstOf?_eq_some_iff.mpr hsymbol
  simp only [Assignment.read, hlocked, getD_lock hlock, hoperand, require_some_bind, hoperatorAt,
    hoperator, hmodifierAt, hmodified, elim_modifier hmodifier, Option.map_map, Option.isSome_map]
  rw [assignment, ← hlock.2]
  cases Operand.source? place with
  | none => rfl
  | some found => rfl

theorem read_of_passes (form : AssignmentForm) {start stop : Scan}
    (hpasses : Passes form.text start stop) (hends : form.source.Ends stop) :
    Assignment.read start = .ok (form.assignment start.offset, stop) := by
  obtain ⟨sourceAt, hbeforeSource, hsource⟩ := passes_append.mp hpasses
  have hread : Operand.source? sourceAt = some (form.source.operand sourceAt.offset, stop) :=
    SourceForm.source?_eq_some_iff.mpr ⟨form.source, hsource, hends, rfl⟩
  rw [form.read_eq_of_stands hbeforeSource (sourceStands_of_source form.negated hsource), hread,
    hbeforeSource.2]
  rfl

theorem read_eq_ok_iff {start stop : Scan} {assignment : Assignment} :
    Assignment.read start = .ok (assignment, stop) ↔
      ∃ form : AssignmentForm, Passes form.text start stop ∧ form.source.Ends stop ∧
        assignment = form.assignment start.offset := by
  constructor
  · exact exists_of_read
  · rintro ⟨form, hpasses, hends, rfl⟩
    exact form.read_of_passes hpasses hends

end AssignmentForm

/-! ### Instructions outside the jump classes -/

theorem Instruction.readOperation_eq_ok_iff {opcode : Opcode} {start stop : Scan}
    {operation : Operation} (hclass : opcode.instructionClass.isJump = false) :
    Instruction.readOperation opcode start = .ok (operation, stop) ↔
      ∃ assignment, Assignment.read start = .ok (assignment, stop) ∧
        operation = .assignment assignment := by
  rw [Instruction.readOperation, if_neg (by rw [hclass]; exact Bool.false_ne_true), bind_eq_ok_iff]
  constructor
  · rintro ⟨⟨assignment, after⟩, hread, hsame⟩
    obtain ⟨rfl, rfl⟩ := Prod.mk.inj (Except.ok.inj hsame)
    exact ⟨assignment, hread, rfl⟩
  · rintro ⟨assignment, hread, rfl⟩
    exact ⟨(assignment, stop), hread, rfl⟩

/-- Outside the jump classes an assignment is read, whatever else the opcode says. -/
theorem Instruction.read_eq_ok_iff {pc : Nat} {opcode : Opcode} {start stop : Scan}
    {instruction : Instruction} (hclass : opcode.instructionClass.isJump = false) :
    Instruction.read pc opcode start = .ok (instruction, stop) ↔
      ∃ form : AssignmentForm, Passes form.text start stop ∧ form.source.Ends stop ∧
        instruction = ⟨some pc, opcode, .assignment (form.assignment start.offset),
          ⟨start.offset, octets form.text⟩⟩ := by
  rw [Instruction.read, bind_eq_ok_iff]
  constructor
  · rintro ⟨⟨operation, after⟩, hoperation, hsame⟩
    obtain ⟨rfl, rfl⟩ := Prod.mk.inj (Except.ok.inj hsame)
    obtain ⟨assignment, hread, rfl⟩ := (readOperation_eq_ok_iff hclass).mp hoperation
    obtain ⟨form, hpasses, hends, rfl⟩ := AssignmentForm.read_eq_ok_iff.mp hread
    exact ⟨form, hpasses, hends, by rw [hpasses.spanTo]⟩
  · rintro ⟨form, hpasses, hends, rfl⟩
    refine ⟨(.assignment (form.assignment start.offset), stop), ?_, ?_⟩
    · refine (readOperation_eq_ok_iff hclass).mpr ⟨form.assignment start.offset, ?_, rfl⟩
      exact form.read_of_passes hpasses hends
    · rw [← hpasses.spanTo]
      rfl

end VerifierTrace
