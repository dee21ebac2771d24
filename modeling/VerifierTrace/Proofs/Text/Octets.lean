import VerifierTrace.Text.Scan

/-!
# Passing octets

The octets of a text, each taken for the character with its code, are `octetCodes text`. A
`PassRule` passes characters one after the other and stops before the first that it refuses; on the
way it may count, as a value counts its parentheses. A rule cannot tell apart the characters outside
ASCII: it passes all of them or none.

For that reason it makes no difference whether a rule goes through the characters of a text or
through its octets (`PassRule.count_octetCodes`). Every octet of a character outside ASCII has a
code outside ASCII, so a rule that stops between two octets stops between two characters.
-/

set_option autoImplicit false
set_option relaxedAutoImplicit false

namespace VerifierTrace

/-! ### Numbers of octets -/

theorem length_le_octets (text : List Char) : text.length ≤ octets text := by
  induction text with
  | nil => exact Nat.le_refl 0
  | cons c text ih =>
    have hpos := c.utf8Size_pos
    rw [List.length_cons, octets_cons]
    omega

theorem octets_eq_zero_iff {text : List Char} : octets text = 0 ↔ text = [] := by
  constructor
  · intro hnone
    have hlength := length_le_octets text
    exact List.eq_nil_of_length_eq_zero (by omega)
  · rintro rfl
    rfl

/-! ### Octets as characters -/

/-- The octets of a text in UTF-8, each taken for the character with its code. -/
def octetCodes (text : List Char) : List Char :=
  text.flatMap fun c ↦ (String.utf8EncodeChar c).map fun octet ↦ Char.ofNat octet.toNat

theorem octetCodes_append (first second : List Char) :
    octetCodes (first ++ second) = octetCodes first ++ octetCodes second :=
  List.flatMap_append

theorem length_octetCodes (text : List Char) : (octetCodes text).length = octets text := by
  induction text with
  | nil => rfl
  | cons c text ih =>
    rw [octetCodes, List.flatMap_cons, List.length_append, List.length_map,
      String.length_utf8EncodeChar, octets_cons, ← ih]
    rfl

/-- After the octets of a text come the octets of what follows it. -/
theorem drop_octetCodes_append (passed rest : List Char) :
    (octetCodes (passed ++ rest)).drop (octets passed) = octetCodes rest := by
  rw [octetCodes_append, ← length_octetCodes, List.drop_left]

/-- A character of ASCII is its own octet. -/
theorem octetCodes_cons_of_lt {c : Char} (hascii : c.toNat < 128) (text : List Char) :
    octetCodes (c :: text) = c :: octetCodes text := by
  have hcode : c.val.toNat ≤ 127 := Nat.le_of_lt_succ hascii
  have hbyte : (UInt8.ofNat c.val.toNat).toNat = c.toNat := by
    rw [UInt8.toNat_ofNat']
    exact Nat.mod_eq_of_lt (Nat.lt_trans hascii (by decide))
  rw [octetCodes, List.flatMap_cons, String.utf8EncodeChar, if_pos hcode, List.map_singleton, hbyte,
    Char.ofNat_toNat]
  rfl

/-- The octets of a character outside ASCII are outside ASCII. -/
theorem le_toNat_of_mem_utf8EncodeChar {c : Char} (hwide : 128 ≤ c.toNat) {octet : UInt8}
    (hoctet : octet ∈ String.utf8EncodeChar c) : 128 ≤ octet.toNat := by
  have hcode : ¬ c.val.toNat ≤ 127 := Nat.not_le_of_gt hwide
  rw [String.utf8EncodeChar, if_neg hcode] at hoctet
  split at hoctet
  · simp only [List.mem_cons, List.not_mem_nil, or_false] at hoctet
    rcases hoctet with rfl | rfl
    all_goals rw [UInt8.toNat_ofNat']; omega
  · split at hoctet
    · simp only [List.mem_cons, List.not_mem_nil, or_false] at hoctet
      rcases hoctet with rfl | rfl | rfl
      all_goals rw [UInt8.toNat_ofNat']; omega
    · simp only [List.mem_cons, List.not_mem_nil, or_false] at hoctet
      rcases hoctet with rfl | rfl | rfl | rfl
      all_goals rw [UInt8.toNat_ofNat']; omega

/-- A character outside ASCII is one octet outside ASCII and some others. -/
theorem exists_octetCodes_cons {c : Char} (hwide : 128 ≤ c.toNat) (text : List Char) :
    ∃ first others, octetCodes (c :: text) = first :: (others ++ octetCodes text) ∧
      others.length + 1 = c.utf8Size ∧ ∀ code ∈ first :: others, 128 ≤ code.toNat := by
  have hlength := String.length_utf8EncodeChar c
  have hcodes : ∀ octet ∈ String.utf8EncodeChar c, 128 ≤ (Char.ofNat octet.toNat).toNat := by
    intro octet hoctet
    have hvalid : octet.toNat.isValidChar :=
      .inl (Nat.lt_trans octet.toNat_lt (by decide))
    have hcode : (Char.ofNat octet.toNat).toNat = octet.toNat := by
      rw [Char.ofNat, dif_pos hvalid]
      rfl
    rw [hcode]
    exact le_toNat_of_mem_utf8EncodeChar hwide hoctet
  rw [octetCodes, List.flatMap_cons]
  cases hencoded : String.utf8EncodeChar c with
  | nil =>
    rw [hencoded, List.length_nil] at hlength
    exact absurd hlength.symm (Nat.ne_of_gt c.utf8Size_pos)
  | cons first others =>
    rw [hencoded] at hlength hcodes
    refine ⟨Char.ofNat first.toNat, others.map fun octet ↦ Char.ofNat octet.toNat, rfl, ?_, ?_⟩
    · rw [List.length_map]
      exact hlength
    · rw [← List.map_cons (f := fun octet : UInt8 ↦ Char.ofNat octet.toNat), List.forall_mem_map]
      exact hcodes

/-! ### Rules -/

/-- Tells for a depth and the next character whether the character is passed, and the depth after
it. -/
structure PassRule where
  step : Nat → Char → Option Nat
  /-- Whether the characters outside ASCII are passed. -/
  isWide : Bool
  step_of_wide : ∀ depth (c : Char), 128 ≤ c.toNat →
    step depth c = if isWide then some depth else none

namespace PassRule

/-- The rule that passes a class of characters. -/
def ofClass (inClass : Char → Bool) (isWide : Bool)
    (hwide : ∀ c : Char, 128 ≤ c.toNat → inClass c = isWide) : PassRule where
  step depth c := if inClass c then some depth else none
  isWide := isWide
  step_of_wide depth c hc := by rw [hwide c hc]

/-- The number of characters at the beginning of a text that are passed. -/
def count (rule : PassRule) : Nat → List Char → Nat
  | _, [] => 0
  | depth, c :: text =>
    match rule.step depth c with
    | none => 0
    | some next => rule.count next text + 1

/-- Whether the first character of a text is passed. -/
def passesHead (rule : PassRule) (text : List Char) : Bool :=
  text.head?.any fun c ↦ (rule.step 0 c).isSome

section Step

variable (rule : PassRule) {depth next : Nat} {c : Char}

theorem count_cons_of_some (hstep : rule.step depth c = some next) (text : List Char) :
    rule.count depth (c :: text) = rule.count next text + 1 := by
  rw [count, hstep]

theorem count_cons_of_none (hstep : rule.step depth c = none) (text : List Char) :
    rule.count depth (c :: text) = 0 := by
  rw [count, hstep]

end Step

section OfClass

variable {inClass : Char → Bool} {isWide : Bool}
  {hwide : ∀ c : Char, 128 ≤ c.toNat → inClass c = isWide}

theorem count_ofClass (depth : Nat) (text : List Char) :
    (ofClass inClass isWide hwide).count depth text = (text.takeWhile inClass).length := by
  induction text with
  | nil => rfl
  | cons c text ih =>
    cases hc : inClass c with
    | true =>
      have hstep : (ofClass inClass isWide hwide).step depth c = some depth := if_pos hc
      rw [count_cons_of_some _ hstep, ih, List.takeWhile_cons_of_pos hc, List.length_cons]
    | false =>
      have hrefused := Bool.eq_false_iff.mp hc
      have hstep : (ofClass inClass isWide hwide).step depth c = none := if_neg hrefused
      rw [count_cons_of_none _ hstep, List.takeWhile_cons_of_neg hrefused, List.length_nil]

theorem take_count_ofClass (depth : Nat) (text : List Char) :
    text.take ((ofClass inClass isWide hwide).count depth text) = text.takeWhile inClass := by
  rw [count_ofClass]
  calc text.take (text.takeWhile inClass).length
    _ = (text.takeWhile inClass ++ text.dropWhile inClass).take
          (text.takeWhile inClass).length := by rw [List.takeWhile_append_dropWhile]
    _ = text.takeWhile inClass := List.take_left

theorem drop_count_ofClass (depth : Nat) (text : List Char) :
    text.drop ((ofClass inClass isWide hwide).count depth text) = text.dropWhile inClass := by
  rw [count_ofClass]
  calc text.drop (text.takeWhile inClass).length
    _ = (text.takeWhile inClass ++ text.dropWhile inClass).drop
          (text.takeWhile inClass).length := by rw [List.takeWhile_append_dropWhile]
    _ = text.dropWhile inClass := List.drop_left

theorem passesHead_ofClass (text : List Char) :
    (ofClass inClass isWide hwide).passesHead text = text.head?.any inClass := by
  cases text with
  | nil => rfl
  | cons c text =>
    cases hc : inClass c with
    | true => simp [passesHead, ofClass, hc]
    | false => simp [passesHead, ofClass, hc]

end OfClass

variable (rule : PassRule)

/-- Characters outside ASCII are passed together or not at all. -/
theorem count_append_of_wide (hpasses : rule.isWide = true) {codes : List Char}
    (hcodes : ∀ code ∈ codes, 128 ≤ code.toNat) (depth : Nat) (rest : List Char) :
    rule.count depth (codes ++ rest) = codes.length + rule.count depth rest := by
  induction codes with
  | nil => rw [List.nil_append, List.length_nil, Nat.zero_add]
  | cons code codes ih =>
    obtain ⟨hcode, hothers⟩ := List.forall_mem_cons.mp hcodes
    have hstep : rule.step depth code = some depth := by
      rw [rule.step_of_wide depth code hcode, if_pos hpasses]
    rw [List.cons_append, rule.count_cons_of_some hstep, ih hothers, List.length_cons,
      Nat.add_right_comm]

/-- A rule passes the octets of the characters that it passes. -/
theorem count_octetCodes (depth : Nat) (text : List Char) :
    rule.count depth (octetCodes text) = octets (text.take (rule.count depth text)) := by
  induction text generalizing depth with
  | nil => rfl
  | cons c text ih =>
    by_cases hascii : c.toNat < 128
    · have hone : c.utf8Size = 1 := Char.utf8Size_eq_one_iff.mpr (Nat.le_of_lt_succ hascii)
      rw [octetCodes_cons_of_lt hascii]
      cases hstep : rule.step depth c with
      | none => rw [rule.count_cons_of_none hstep, rule.count_cons_of_none hstep]; rfl
      | some next =>
        rw [rule.count_cons_of_some hstep, rule.count_cons_of_some hstep, ih, List.take_succ_cons,
          octets_cons, hone, Nat.add_comm]
    · have hwide := Nat.le_of_not_lt hascii
      obtain ⟨first, others, hcodes, hlength, hall⟩ := exists_octetCodes_cons hwide text
      have hfirst := hall first List.mem_cons_self
      rw [hcodes]
      cases hpasses : rule.isWide with
      | true =>
        have hstep : rule.step depth c = some depth := by
          rw [rule.step_of_wide depth c hwide, if_pos hpasses]
        rw [← List.cons_append, rule.count_append_of_wide hpasses hall, ih,
          rule.count_cons_of_some hstep, List.take_succ_cons, octets_cons, List.length_cons,
          hlength]
      | false =>
        have hrefused : ∀ {code : Char}, 128 ≤ code.toNat → rule.step depth code = none := by
          intro code hcode
          rw [rule.step_of_wide depth code hcode, hpasses]
          rfl
        rw [rule.count_cons_of_none (hrefused hwide), rule.count_cons_of_none (hrefused hfirst)]
        rfl

theorem passesHead_octetCodes (text : List Char) :
    rule.passesHead (octetCodes text) = rule.passesHead text := by
  cases text with
  | nil => rfl
  | cons c text =>
    by_cases hascii : c.toNat < 128
    · rw [octetCodes_cons_of_lt hascii]
      rfl
    · have hwide := Nat.le_of_not_lt hascii
      obtain ⟨first, others, hcodes, -, hall⟩ := exists_octetCodes_cons hwide text
      have hfirst := hall first List.mem_cons_self
      rw [hcodes, passesHead, passesHead, List.head?_cons, List.head?_cons, Option.any_some,
        Option.any_some, rule.step_of_wide 0 c hwide, rule.step_of_wide 0 first hfirst]

end PassRule

end VerifierTrace
