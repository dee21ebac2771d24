import Mathlib.Data.Int.ModEq
import VerifierTrace.Proofs.Grammar.Assignment
import VerifierTrace.Proofs.Grammar.Condition

/-!
# Immediate literals

A `LiteralForm` is an optional minus sign and then decimal digits, or a hexadecimal mark and
hexadecimal digits, of any number and value. Wherever a source is read, in an assignment or on the
right side of a comparison, a literal is taken for an immediate number exactly when it has a digit
and its magnitude is below `2 ^ 64` (`LiteralForm.Fits`). Its value is then the integer of 64 bits
that is congruent to the signed magnitude modulo `2 ^ 64`, on whichever side of `2 ^ 63` the
magnitude lies and in whichever base it is written. The span is that of the sign, the mark and the
digits; the word `ll` after them is passed and does not belong to it (`LiteralForm.read_modulo`).

A literal stands where a source is read by its first character alone, which is a minus sign or a
digit. A text without any character is a literal without digits; where it stands, the place must be
one at which a source is read.
-/

set_option autoImplicit false
set_option relaxedAutoImplicit false

namespace VerifierTrace

open Scan

/-- The operand is a number. -/
def Operand.IsImmediate (operand : Operand) : Prop :=
  ∃ value, operand.place = .immediate value

theorem TargetForm.not_isImmediate (form : TargetForm) (offset : Nat) :
    ¬ (form.operand offset).IsImmediate := by
  rintro ⟨value, hvalue⟩
  cases form with
  | register form => cases hvalue
  | reference form => cases hvalue

/-- An optional minus sign, the mark of a base, and digits of the base. -/
structure LiteralForm where
  negative : Bool
  radix : Radix
  digits : List Char
  areDigits : digits.all radix.isDigit

namespace LiteralForm

def text (literal : LiteralForm) : List Char :=
  NumberForm.minusText literal.negative ++ (literal.radix.mark ++ literal.digits)

def magnitude (literal : LiteralForm) : Nat :=
  Numeral.worth literal.radix.base literal.digits

/-- The number that is written. -/
def signed (literal : LiteralForm) : Int :=
  if literal.negative then -literal.magnitude else literal.magnitude

/-- There is a digit, and the magnitude is below `2 ^ 64`. -/
def Fits (literal : LiteralForm) : Prop :=
  literal.digits ≠ [] ∧ literal.magnitude < 2 ^ 64

instance (literal : LiteralForm) : Decidable literal.Fits :=
  inferInstanceAs (Decidable (literal.digits ≠ [] ∧ literal.magnitude < 2 ^ 64))

/-- No letter, digit or underscore follows the literal, nor does the minus sign of a literal without
one. -/
def Ends (after : Scan) (literal : LiteralForm) : Prop :=
  after.Avoids (fun c ↦ c.isAlphanum || c == '_') ∧ (literal.text = [] → after.Avoids (· == '-'))

/-! ### Reading digits -/

theorem isNumeral_iff {isDigit : Char → Bool} {digits : List Char} (hall : digits.all isDigit) :
    Numeral.isNumeral isDigit digits ↔ digits ≠ [] := by
  rw [Numeral.isNumeral, hall, Bool.and_true, Bool.not_eq_true', List.isEmpty_eq_false_iff]

/-- The digits of a literal are read as a word exactly when it fits. -/
theorem word?_eq (literal : LiteralForm) : literal.radix.word? literal.digits =
    if literal.Fits then some (Int64.ofNat literal.magnitude) else none := by
  have hnumeral := isNumeral_iff literal.areDigits
  split
  · rename_i hfits
    exact Radix.word?_eq_some_iff.mpr ⟨hnumeral.mpr hfits.1, hfits.2, rfl⟩
  · rename_i hfits
    rw [Option.eq_none_iff_forall_ne_some]
    intro word hword
    obtain ⟨hsome, hsmall, -⟩ := Radix.word?_eq_some_iff.mp hword
    exact hfits ⟨hnumeral.mp hsome, hsmall⟩

/-- Digits of a decimal number are not taken for a mark. -/
theorem mark?_eq_none {digits : List Char} {start stop : Scan} (hall : digits.all Char.isDigit)
    (hpasses : Passes digits start stop) (havoids : stop.Avoids isWordChar) :
    (start.literal? "0x").or (start.literal? "0X") = none := by
  rw [Option.eq_none_iff_forall_ne_some]
  intro place hplace
  have hmark := MagnitudeForm.mark?_eq_some_iff.mp hplace
  by_cases hnone : digits = []
  · rw [hnone, passes_nil] at hpasses
    rw [hpasses] at havoids
    rcases hmark with hlower | hupper
    · rw [Avoids, hlower.head? rfl] at havoids
      exact absurd havoids (by decide)
    · rw [Avoids, hupper.head? rfl] at havoids
      exact absurd havoids (by decide)
  · have hnumeral := (isNumeral_iff hall).mpr hnone
    rcases hmark with hlower | hupper
    · exact MagnitudeForm.not_passes_mark hnumeral hpasses havoids rfl rfl hlower
    · exact MagnitudeForm.not_passes_mark hnumeral hpasses havoids rfl rfl hupper

variable (literal : LiteralForm) {start place after : Scan}

theorem magnitude?_eq (hpasses : Passes (literal.radix.mark ++ literal.digits) start after)
    (havoids : after.Avoids isWordChar) :
    Operand.magnitude? start = (literal.radix.word? literal.digits).map (·, after) := by
  obtain ⟨negative, radix, digits, hall⟩ := literal
  obtain ⟨marked, hmark, hdigits⟩ := passes_append.mp hpasses
  have hhexadecimal := havoids.mono fun c ↦ isHexDigit_imp_isWordChar
  cases radix with
  | decimal =>
    obtain rfl := passes_nil.mp hmark
    have hrun := run_eq_iff.mpr ⟨hall, hdigits, havoids.mono fun c ↦ isDigit_imp_isWordChar⟩
    rw [Operand.magnitude?, mark?_eq_none hall hdigits havoids]
    exact congrArg (fun run ↦ (Word.ofDecimal? run.1).map (·, run.2)) hrun
  | hexadecimal =>
    have hrun := run_eq_iff.mpr ⟨hall, hdigits, hhexadecimal⟩
    rw [Operand.magnitude?, MagnitudeForm.mark?_eq_some_iff.mpr (Or.inl hmark)]
    exact congrArg (fun run ↦ (Word.ofHexadecimal? run.1).map (·, run.2)) hrun
  | upperHexadecimal =>
    have hrun := run_eq_iff.mpr ⟨hall, hdigits, hhexadecimal⟩
    rw [Operand.magnitude?, MagnitudeForm.mark?_eq_some_iff.mpr (Or.inr hmark)]
    exact congrArg (fun run ↦ (Word.ofHexadecimal? run.1).map (·, run.2)) hrun

/-! ### The first character -/

theorem exists_head_magnitude (hsome : literal.radix.mark ++ literal.digits ≠ []) :
    ∃ c, (literal.radix.mark ++ literal.digits).head? = some c ∧ c.isDigit := by
  obtain ⟨negative, radix, digits, hall⟩ := literal
  cases radix with
  | decimal =>
    cases digits with
    | nil => exact absurd rfl hsome
    | cons c digits => exact ⟨c, rfl, List.all_eq_true.mp hall c List.mem_cons_self⟩
  | hexadecimal => exact ⟨'0', rfl, rfl⟩
  | upperHexadecimal => exact ⟨'0', rfl, rfl⟩

theorem exists_head (hsome : literal.text ≠ []) :
    ∃ c, literal.text.head? = some c ∧ (c = '-' ∨ c.isDigit) := by
  rw [text] at hsome ⊢
  cases hnegative : literal.negative with
  | true => exact ⟨'-', rfl, Or.inl rfl⟩
  | false =>
    rw [hnegative] at hsome
    obtain ⟨c, hhead, hdigit⟩ := literal.exists_head_magnitude hsome
    exact ⟨c, hhead, Or.inr hdigit⟩

/-- A literal with a character avoids every class without the minus sign and the digits. -/
theorem avoids (hsome : literal.text ≠ []) (hpasses : Passes literal.text place after)
    {inClass : Char → Bool} (hminus : inClass '-' = false)
    (hdigits : ∀ c, c.isDigit → inClass c = false) : place.Avoids inClass := by
  obtain ⟨c, hhead, rfl | hdigit⟩ := literal.exists_head hsome
  · exact hpasses.avoids hhead hminus
  · exact hpasses.avoids hhead (hdigits c hdigit)

/-! ### Reading literals -/

theorem minus_eq (hends : literal.Ends after) {unsigned : Scan}
    (hminus : Passes (NumberForm.minusText literal.negative) place unsigned)
    (hmagnitude : Passes (literal.radix.mark ++ literal.digits) unsigned after) :
    Operand.minus place = (literal.negative, unsigned) := by
  refine NumberForm.minus_eq_iff.mpr ⟨hminus, fun hpositive ↦ ?_⟩
  rw [hpositive] at hminus
  obtain rfl := passes_nil.mp hminus
  by_cases hnone : literal.radix.mark ++ literal.digits = []
  · rw [hnone, passes_nil] at hmagnitude
    rw [← hmagnitude]
    refine hends.2 ?_
    rw [text, hpositive, hnone]
    rfl
  · obtain ⟨c, hhead, hdigit⟩ := literal.exists_head_magnitude hnone
    refine hmagnitude.avoids hhead (beq_eq_false_iff_ne.mpr ?_)
    rintro rfl
    exact absurd hdigit (by decide)

/-- The operand of a literal that stands at a position of a line. -/
def operand (literal : LiteralForm) (offset : Nat) : Operand where
  place := .immediate (.ofInt literal.signed)
  size := 8
  span := ⟨offset, octets literal.text⟩

theorem immediate?_eq (hpasses : Passes literal.text place after) (hends : literal.Ends after) :
    Operand.immediate? place =
      if literal.Fits then some (literal.operand place.offset, Operand.skipLongMark after)
      else none := by
  obtain ⟨unsigned, hminus, hmagnitude⟩ := passes_append.mp hpasses
  have hword : after.continuesWord = false := avoids_isWordChar_iff.mp hends.1
  simp only [Operand.immediate?, literal.minus_eq hends hminus hmagnitude,
    literal.magnitude?_eq hmagnitude hends.1, literal.word?_eq, operand, signed,
    Word.ofInt_signed, ← hpasses.spanTo]
  by_cases hfits : literal.Fits
  · simp only [if_pos hfits, Option.map_some, hword, Bool.false_eq_true, if_false]
    rfl
  · simp only [if_neg hfits, Option.map_none]

theorem source?_eq (hpasses : Passes literal.text place after) (hends : literal.Ends after)
    (hfits : literal.Fits) :
    Operand.source? place = some (literal.operand place.offset, Operand.skipLongMark after) := by
  have hsome : literal.text ≠ [] :=
    List.append_ne_nil_of_right_ne_nil _ (List.append_ne_nil_of_right_ne_nil _ hfits.1)
  have hnone : Operand.target? place = none := by
    rw [Option.eq_none_iff_forall_ne_some]
    rintro ⟨operand, stop⟩ htarget
    obtain ⟨form, hform, -⟩ := TargetForm.target?_eq_some_iff.mp htarget
    have havoids : place.Avoids fun c ↦ ['r', 'w', '*'].contains c := by
      refine literal.avoids hsome hpasses rfl fun c hdigit ↦ ?_
      rw [← Bool.not_eq_true, List.contains_iff_mem]
      intro hmem
      have hheads : ['r', 'w', '*'].any Char.isDigit = false := by decide
      exact List.any_eq_false.mp hheads c hmem hdigit
    rw [Avoids, hform.head? form.head?_text] at havoids
    exact absurd (List.contains_iff_mem.mpr form.head_mem) (Bool.not_eq_true _ ▸ havoids)
  rw [Operand.source?, hnone, literal.immediate?_eq hpasses hends, if_pos hfits]
  rfl

/-- A literal that does not fit is no number. -/
theorem not_isImmediate_of_source? (hpasses : Passes literal.text place after)
    (hends : literal.Ends after) (hfits : ¬ literal.Fits) {operand : Operand} {stop : Scan}
    (hread : Operand.source? place = some (operand, stop)) : ¬ operand.IsImmediate := by
  rw [Operand.source?, literal.immediate?_eq hpasses hends, if_neg hfits, Option.or_none] at hread
  obtain ⟨form, -, -, rfl⟩ := TargetForm.target?_eq_some_iff.mp hread
  exact form.not_isImmediate place.offset

/-- The value of a literal is congruent to the number that is written. -/
theorem toInt_ofInt_modEq (value : Int) : (Int64.ofInt value).toInt ≡ value [ZMOD 2 ^ 64] := by
  rw [Int64.toInt_ofInt]
  exact Int.bmod_emod

/-! ### Where sources are read -/

/-- What is read takes the literal for a number exactly when it fits, and then with eight octets and
its value modulo `2 ^ 64`, at its place, and goes on after the word `ll`, if that word follows. -/
def IsReadModulo {Reading : Type} (place after : Scan) (source : Reading → Operand)
    (read : Except LineError (Reading × Scan)) (literal : LiteralForm) : Prop :=
  ((∃ reading stop, read = .ok (reading, stop) ∧ (source reading).IsImmediate) ↔ literal.Fits) ∧
    (literal.Fits → ∃ reading stop value longMark, read = .ok (reading, stop) ∧
      source reading = ⟨.immediate value, 8, ⟨place.offset, octets literal.text⟩⟩ ∧
      value.toInt ≡ literal.signed [ZMOD 2 ^ 64] ∧
      Passes (longMarkText longMark) after stop ∧ NumberEnds stop longMark)

theorem isReadModulo_of_source {Reading : Type} {source : Reading → Operand}
    {read : Except LineError (Reading × Scan)} (complete : Operand → Reading)
    (hpasses : Passes literal.text place after) (hends : literal.Ends after)
    (hsource : ∀ operand, source (complete operand) = operand)
    (hread : read = (place.require (Operand.source? place) .expectedOperand).map
      fun (operand, stop) ↦ (complete operand, stop)) :
    literal.IsReadModulo place after source read := by
  have hfit (hfits : literal.Fits) : read =
      .ok (complete (literal.operand place.offset), Operand.skipLongMark after) := by
    rw [hread, literal.source?_eq hpasses hends hfits]
    rfl
  obtain ⟨longMark, hmark, hnumber⟩ :=
    (skipLongMark_eq_iff hends.1).mp (rfl : Operand.skipLongMark after = _)
  refine ⟨⟨?_, fun hfits ↦ ⟨_, _, hfit hfits, ?_⟩⟩, fun hfits ↦
    ⟨_, _, _, longMark, hfit hfits, hsource _, toInt_ofInt_modEq literal.signed, hmark, hnumber⟩⟩
  · rintro ⟨reading, stop, hok, himmediate⟩
    refine Decidable.byContradiction fun hfits ↦ ?_
    rw [hread] at hok
    cases hfound : Operand.source? place with
    | none =>
      rw [hfound] at hok
      cases hok
    | some found =>
      rw [hfound] at hok
      obtain ⟨rfl, -⟩ := Prod.mk.inj (Except.ok.inj hok)
      rw [hsource] at himmediate
      exact literal.not_isImmediate_of_source? hpasses hends hfits hfound himmediate
  · rw [hsource]
    exact ⟨_, rfl⟩

/-- The minus sign of a literal is not taken for a modifier, for no letter follows it. -/
theorem not_ends_negate (hpasses : Passes literal.text place after) (hends : literal.Ends after)
    {stop : Scan} (hminus : Passes ModifierForm.negate.text place stop) :
    ¬ ModifierForm.negate.Ends stop := by
  intro hletter
  obtain ⟨c, hhead, hc⟩ := (Option.any_eq_true _ _).mp hletter
  obtain ⟨unsigned, hsign, hmagnitude⟩ := passes_append.mp hpasses
  have hword : isWordChar c ∧ c.isDigit = false ∧ c ≠ '-' := by
    obtain rfl | rfl : c = 'r' ∨ c = 'w' := by simpa using hc
    · decide
    · decide
  by_cases hnone : literal.radix.mark ++ literal.digits = []
  · rw [hnone, passes_nil] at hmagnitude
    cases hnegative : literal.negative with
    | true =>
      rw [hnegative] at hsign
      have havoids := hends.1
      rw [hmagnitude, hsign.unique hminus, Avoids, hhead] at havoids
      exact absurd (hword.1.symm.trans havoids) (by decide)
    | false =>
      have hempty : literal.text = [] := by
        rw [text, hnegative, hnone]
        rfl
      have havoids := hends.2 hempty
      rw [hempty, passes_nil] at hpasses
      rw [hpasses, Avoids, hminus.head? rfl] at havoids
      exact absurd havoids (by decide)
  · obtain ⟨first, hfirst, hdigit⟩ := literal.exists_head_magnitude hnone
    cases hnegative : literal.negative with
    | true =>
      rw [hnegative] at hsign
      rw [hsign.unique hminus] at hmagnitude
      rw [Option.some.inj ((hmagnitude.head? hfirst).symm.trans hhead), hword.2.1] at hdigit
      cases hdigit
    | false =>
      rw [hnegative] at hsign
      rw [passes_nil.mp hsign] at hmagnitude
      rw [hmagnitude.head_unique hfirst hminus rfl] at hdigit
      exact absurd hdigit (by decide)

/-- A literal stands where a source is read, unless a minus sign before it has been taken for a
modifier. -/
theorem sourceStands (hsome : literal.text ≠ []) (hpasses : Passes literal.text place after)
    (hends : literal.Ends after) {modifier : Option ModifierForm}
    (hmodifier : modifier ≠ some .negate) : SourceStands place modifier := by
  have hblank : place.Avoids isBlank :=
    literal.avoids hsome hpasses rfl fun c hdigit ↦ isBlank_eq_false_of_isDigit hdigit
  have hother : ∀ form : ModifierForm, form.heads ⊆ ['b', 'l', '('] → ∀ stop,
      ¬ Passes form.text place stop := by
    intro form hheads stop hform
    obtain ⟨c, hhead, hc⟩ := form.exists_head
    obtain ⟨first, hfirst, hliteral⟩ := literal.exists_head hsome
    rw [hpasses.head_unique hfirst hform hhead] at hliteral
    have hneither : ['b', 'l', '('].any (fun c ↦ c == '-' || c.isDigit) = false := by decide
    refine List.any_eq_false.mp hneither c (hheads hc) ?_
    rwa [Bool.or_eq_true, beq_iff_eq]
  cases modifier with
  | some form =>
    cases form with
    | negate => exact absurd rfl hmodifier
    | byteSwap order width gap => exact hblank
    | signExtend width blanks => exact hblank
  | none =>
    refine ⟨hblank, Option.eq_none_iff_forall_ne_some.mpr ?_⟩
    rintro ⟨modifier, stop⟩ hread
    obtain ⟨form, hform, hformEnds, -⟩ := ModifierForm.read?_eq_some_iff.mp hread
    cases form with
    | negate => exact literal.not_ends_negate hpasses hends hform hformEnds
    | byteSwap order width gap => exact hother _ (by simp [ModifierForm.heads]) stop hform
    | signExtend width blanks => exact hother _ (by simp [ModifierForm.heads]) stop hform

/-- Wherever a source is read, a literal is taken for a number exactly when it has digits and its
magnitude is below `2 ^ 64`, and then for the one of 64 bits that is congruent to it. -/
theorem read_modulo (hpasses : Passes literal.text place after) (hends : literal.Ends after) :
    (∀ form : AssignmentForm, form.modifier ≠ some .negate →
      Passes form.beforeSource start place →
        (literal.text = [] → SourceStands place form.modifier) →
          literal.IsReadModulo place after Assignment.source (Assignment.read start)) ∧
    (∀ form : ConditionForm, Passes form.beforeSource start place →
      (literal.text = [] → place.Avoids isBlank ∧
        (form.beforeRight.text = [] → place.Avoids (· == '='))) →
          literal.IsReadModulo place after Condition.right (Jump.readCondition start)) := by
  constructor
  · intro form hmodifier hbefore hempty
    have hstands : SourceStands place form.modifier := by
      by_cases hsome : literal.text = []
      · exact hempty hsome
      · exact literal.sourceStands hsome hpasses hends hmodifier
    exact literal.isReadModulo_of_source ({ form.assignment start.offset with source := · })
      hpasses hends (fun _ ↦ rfl) (form.read_eq_of_stands hbefore hstands)
  · intro form hbefore hempty
    have hstands : place.Avoids isBlank ∧
        (form.beforeRight.text = [] → place.Avoids (· == '=')) := by
      by_cases hsome : literal.text = []
      · exact hempty hsome
      · refine ⟨literal.avoids hsome hpasses rfl fun c ↦ isBlank_eq_false_of_isDigit, fun _ ↦ ?_⟩
        refine literal.avoids hsome hpasses rfl fun c hdigit ↦ beq_eq_false_iff_ne.mpr ?_
        rintro rfl
        exact absurd hdigit (by decide)
    exact literal.isReadModulo_of_source ({ form.condition start.offset with right := · })
      hpasses hends (fun _ ↦ rfl) (form.readCondition_eq_of_stands hbefore hstands.1 hstands.2)

/-- The literal `-0Xfffffffffffffffe`. -/
def nearlyWrapped : LiteralForm :=
  ⟨true, .upperHexadecimal, "fffffffffffffffe".toList, by decide⟩

/-- An assignment to `r9`, of which what stands before the source is `r9 = `. -/
def load : AssignmentForm where
  lock := none
  target := .register (.ofDigit .whole 9)
  beforeOperator := .spaces 1
  operator := .assign
  beforeModifier := .spaces 1
  modifier := none
  source := .target (.register (.ofDigit .whole 9))
  separated := fun _ hletter ↦ absurd hletter (by decide)
  negated := fun hnegate ↦ absurd hnegate (by simp)

/-- A negative literal far below `-2 ^ 63`, with the word `ll` after it. -/
theorem read_modulo_nearlyWrapped :
    Passes nearlyWrapped.text ⟨5, "-0Xfffffffffffffffe ll".toList⟩ ⟨24, " ll".toList⟩ ∧
      nearlyWrapped.Ends ⟨24, " ll".toList⟩ ∧
      Passes load.beforeSource (Scan.ofText "r9 = -0Xfffffffffffffffe ll")
        ⟨5, "-0Xfffffffffffffffe ll".toList⟩ ∧
      ∃ assignment,
        Assignment.read (Scan.ofText "r9 = -0Xfffffffffffffffe ll") =
          .ok (assignment, ⟨27, []⟩) ∧
        assignment.source = ⟨.immediate 2, 8, ⟨5, 19⟩⟩ := by
  have hpasses : Passes nearlyWrapped.text ⟨5, "-0Xfffffffffffffffe ll".toList⟩
      ⟨24, " ll".toList⟩ := by
    decide
  have hends : nearlyWrapped.Ends ⟨24, " ll".toList⟩ :=
    ⟨by decide, fun hempty ↦ absurd hempty (by decide)⟩
  have hbefore : Passes load.beforeSource (Scan.ofText "r9 = -0Xfffffffffffffffe ll")
      ⟨5, "-0Xfffffffffffffffe ll".toList⟩ := by
    decide
  have hread := (nearlyWrapped.read_modulo hpasses hends).1 load (by simp [load]) hbefore
    fun hempty ↦ absurd hempty (by decide)
  obtain ⟨assignment, stop, value, longMark, hok, hsource, hvalue, hmark, hnumber⟩ :=
    hread.2 (by decide)
  have hstop : stop = ⟨27, []⟩ :=
    ((skipLongMark_eq_iff hends.1).mpr ⟨longMark, hmark, hnumber⟩).symm.trans rfl
  have htwo : value = 2 := by
    have hmodulo : value.toInt % 2 ^ 64 = 2 := hvalue
    have hlower := value.le_toInt
    have hupper := value.toInt_lt
    rw [← Int64.toInt_inj]
    show value.toInt = 2
    omega
  rw [hstop] at hok
  rw [htwo] at hsource
  exact ⟨hpasses, hends, hbefore, assignment, hok, hsource⟩

end LiteralForm

end VerifierTrace
