import VerifierTrace.Text.Utf8

/-!
# Decoding line by line

A line feed is a whole character wherever it stands: no character begins with it, none contains it,
and no octets that are no UTF-8 are replaced by it. So a sequence of octets may be cut after each of
its line feeds and decoded piece by piece (`decode_append_lineFeed`), the line feeds of the text are
those of the octets (`lineFeed_notMem_decode`), and a piece that is not empty decodes to a text that
is not empty (`decode_eq_empty_iff`).

`characters` is the decoder as a recursion over the octets. The three facts hold of it from every
state that a decoder can be in, which `State.WellFormed` describes: inside a character the next
octet has to be a continuation octet, and the bits are not all zero when they are complete.

Where nothing is wrong nothing is replaced: the octets of a text decode to that text
(`decode_toUTF8`), since the octets of each of its characters yield that character.
-/

set_option autoImplicit false
set_option relaxedAutoImplicit false

namespace VerifierTrace.Utf8

/-! ### The states of a decoder -/

/-- The states that a decoder can be in. Where the bits so far are zero, the bounds of the next octet
see to it that those after it are not. -/
def State.WellFormed : State → Prop
  | .ready => True
  | .inside bits owed least greatest =>
    0x80 ≤ least ∧ greatest ≤ 0xBF ∧ (bits = 0 → 0x80 < least ∧ owed ≠ 0)

instance (state : State) : Decidable state.WellFormed :=
  match state with
  | .ready => inferInstanceAs (Decidable True)
  | .inside bits owed least greatest => inferInstanceAs
    (Decidable (0x80 ≤ least ∧ greatest ≤ 0xBF ∧ (bits = 0 → 0x80 < least ∧ owed ≠ 0)))

/-- What holds of the 256 octets holds of every octet. -/
theorem forall_octet {property : UInt8 → Prop} (hcodes : ∀ code < 256, property (UInt8.ofNat code))
    (octet : UInt8) : property octet := by
  rw [← UInt8.ofNat_toNat (x := octet)]
  exact hcodes octet.toNat octet.toNat_lt

theorem wellFormed_first : ∀ octet : UInt8, (first octet).2.WellFormed :=
  forall_octet (by decide +kernel)

theorem lineFeed_notMem_first :
    ∀ octet : UInt8, octet ≠ 0x0A → '\n' ∉ (first octet).1 :=
  forall_octet (by decide +kernel)

/-- An octet that completes no character begins one. -/
theorem first_ne_nil_ready : ∀ octet : UInt8, first octet ≠ ([], .ready) :=
  forall_octet (by decide +kernel)

/-- Between two octets of a character the bits only grow, and they are not zero after the next. -/
theorem bits_ne_zero {bits owed : Nat} {least greatest octet : UInt8}
    (hstate : (State.inside bits owed least greatest).WellFormed)
    (hoctet : least ≤ octet ∧ octet ≤ greatest) : bits * 64 + octet.toNat % 64 ≠ 0 := by
  obtain ⟨hleast, hgreatest, hzero⟩ := hstate
  by_cases hbits : bits = 0
  · have habove : 0x80 < octet.toNat :=
      UInt8.lt_iff_toNat_lt.mp (UInt8.lt_of_lt_of_le (hzero hbits).1 hoctet.1)
    have hbelow : octet.toNat ≤ 0xBF :=
      UInt8.le_iff_toNat_le.mp (UInt8.le_trans hoctet.2 hgreatest)
    omega
  · omega

theorem State.WellFormed.step {state : State} (hstate : state.WellFormed) (octet : UInt8) :
    (step state octet).2.WellFormed := by
  cases state with
  | ready => exact wellFormed_first octet
  | inside bits owed least greatest =>
    by_cases hoctet : least ≤ octet ∧ octet ≤ greatest
    · cases owed with
      | zero => simp [Utf8.step, hoctet, WellFormed]
      | succ owed =>
        simp only [Utf8.step, if_pos hoctet]
        refine ⟨by decide, by decide, fun hzero ↦ absurd hzero ?_⟩
        exact bits_ne_zero hstate hoctet
    · simpa only [Utf8.step, if_neg hoctet] using wellFormed_first octet

/-! ### Line feeds -/

/-- Only the code of a line feed stands for one. -/
theorem ofNat_ne_lineFeed {code : Nat} (hcode : code ≠ 0x0A) : Char.ofNat code ≠ '\n' := by
  intro hsame
  by_cases hvalid : code.isValidChar
  · have htoNat : (Char.ofNat code).toNat = code := by
      rw [Char.ofNat, dif_pos hvalid]
      rfl
    rw [hsame] at htoNat
    exact hcode htoNat.symm
  · rw [Char.ofNat, dif_neg hvalid] at hsame
    exact absurd hsame (by decide)

/-- No octet but a line feed yields one. -/
theorem State.WellFormed.lineFeed_notMem_step {state : State} (hstate : state.WellFormed)
    {octet : UInt8} (hoctet : octet ≠ 0x0A) : '\n' ∉ (Utf8.step state octet).1 := by
  cases state with
  | ready => exact lineFeed_notMem_first octet hoctet
  | inside bits owed least greatest =>
    by_cases hinside : least ≤ octet ∧ octet ≤ greatest
    · cases owed with
      | zero =>
        have hbits : bits ≠ 0 := fun hzero ↦ (hstate.2.2 hzero).2 rfl
        have hother : '\n' ≠ Char.ofNat (bits * 64 + octet.toNat % 64) :=
          (ofNat_ne_lineFeed (by omega)).symm
        simpa only [Utf8.step, if_pos hinside, List.mem_singleton] using hother
      | succ owed => simp [Utf8.step, hinside]
    · have hother : '\n' ≠ replacement := by decide
      simp only [Utf8.step, if_neg hinside, List.mem_cons, not_or]
      exact ⟨hother, lineFeed_notMem_first octet hoctet⟩

/-- A line feed completes nothing: what was begun is replaced, and the decoder is ready after it. -/
theorem State.WellFormed.step_lineFeed {state : State} (hstate : state.WellFormed) :
    Utf8.step state 0x0A = (finish state ++ ['\n'], .ready) := by
  cases state with
  | ready => rfl
  | inside bits owed least greatest =>
    have houtside : ¬ (least ≤ 0x0A ∧ 0x0A ≤ greatest) := fun hinside ↦
      absurd (UInt8.le_trans hstate.1 hinside.1) (by decide)
    simp only [Utf8.step, if_neg houtside]
    rfl

/-! ### The decoder as a recursion -/

/-- The characters that some octets yield in a state, together with their end. -/
def characters (state : State) : List UInt8 → List Char
  | [] => finish state
  | octet :: octets => (step state octet).1 ++ characters (step state octet).2 octets

theorem decode_eq_characters (octets : List UInt8) :
    decode octets = String.ofList (characters .ready octets) := by
  suffices ∀ (text : String) (state : State),
      (octets.foldl append (text, state)).1 ++
          String.ofList (finish (octets.foldl append (text, state)).2) =
        text ++ String.ofList (characters state octets) by
    rw [← String.empty_append (s := String.ofList _)]
    exact this "" .ready
  induction octets with
  | nil => exact fun _ _ ↦ rfl
  | cons octet octets ih =>
    intro text state
    rw [List.foldl_cons, characters, String.ofList_append, ← String.append_assoc]
    exact ih _ _

theorem characters_append_lineFeed {state : State} (hstate : state.WellFormed)
    (before after : List UInt8) :
    characters state (before ++ 0x0A :: after) =
      characters state before ++ '\n' :: characters .ready after := by
  induction before generalizing state with
  | nil => simp [characters, hstate.step_lineFeed]
  | cons octet before ih =>
    rw [List.cons_append, characters, characters, ih (hstate.step octet), List.append_assoc]

theorem lineFeed_notMem_characters {state : State} (hstate : state.WellFormed)
    {octets : List UInt8} (hoctets : 0x0A ∉ octets) : '\n' ∉ characters state octets := by
  induction octets generalizing state with
  | nil =>
    cases state with
    | ready => exact List.not_mem_nil
    | inside bits owed least greatest =>
      show '\n' ∉ [replacement]
      decide
  | cons octet octets ih =>
    obtain ⟨hoctet, hrest⟩ := List.ne_and_not_mem_of_not_mem_cons hoctets
    rw [characters, List.mem_append, not_or]
    exact ⟨hstate.lineFeed_notMem_step (Ne.symm hoctet), ih (hstate.step octet) hrest⟩

/-- An octet yields a character or leaves one begun. -/
theorem step_ne_nil_ready (state : State) (octet : UInt8) : step state octet ≠ ([], .ready) := by
  cases state with
  | ready => exact first_ne_nil_ready octet
  | inside bits owed least greatest =>
    by_cases hinside : least ≤ octet ∧ octet ≤ greatest
    · cases owed with
      | zero => simp [step, hinside]
      | succ owed => simp [step, hinside]
    · simp [step, hinside]

/-- Nothing comes from no octets alone, when no character was begun before them. -/
theorem characters_eq_nil_iff {state : State} {octets : List UInt8} :
    characters state octets = [] ↔ state = .ready ∧ octets = [] := by
  induction octets generalizing state with
  | nil =>
    cases state with
    | ready => simp [characters, finish]
    | inside bits owed least greatest => simp [characters, finish]
  | cons octet octets ih =>
    refine iff_of_false (fun hnone ↦ ?_) (by simp)
    rw [characters, List.append_eq_nil_iff, ih] at hnone
    exact step_ne_nil_ready state octet (Prod.ext hnone.1 hnone.2.1)

/-! ### Lines of a decoded text -/

/-- What stands before a line feed and what stands after it are decoded on their own. -/
theorem decode_append_lineFeed (before after : List UInt8) :
    decode (before ++ 0x0A :: after) = decode before ++ "\n" ++ decode after := by
  have hready : State.ready.WellFormed := trivial
  rw [← String.toList_inj]
  simp [decode_eq_characters, characters_append_lineFeed hready]

theorem decode_concat_lineFeed (octets : List UInt8) :
    decode (octets ++ [0x0A]) = decode octets ++ "\n" :=
  (decode_append_lineFeed octets []).trans String.append_empty

/-- Octets without a line feed decode to a text without one. -/
theorem lineFeed_notMem_decode {octets : List UInt8} (hoctets : 0x0A ∉ octets) :
    '\n' ∉ (decode octets).toList := by
  have hready : State.ready.WellFormed := trivial
  rw [decode_eq_characters, String.toList_ofList]
  exact lineFeed_notMem_characters hready hoctets

theorem decode_eq_empty_iff {octets : List UInt8} : decode octets = "" ↔ octets = [] := by
  rw [decode_eq_characters, ← String.toList_eq_nil_iff, String.toList_ofList,
    characters_eq_nil_iff, and_iff_right rfl]

/-! ### The octets of a text -/

/-- An octet after the first, with the last six bits of a code. -/
def continuation (code : Nat) : UInt8 :=
  UInt8.ofNat (code % 64 + 0x80)

theorem characters_continuation (code owed : Nat) (rest : List UInt8) :
    characters (.inside (code / 64) owed 0x80 0xBF) (continuation code :: rest) =
      match owed with
      | 0 => Char.ofNat code :: characters .ready rest
      | owed + 1 => characters (.inside code owed 0x80 0xBF) rest := by
  have hbounds : ∀ low < 64, (0x80 ≤ UInt8.ofNat (low + 0x80) ∧ UInt8.ofNat (low + 0x80) ≤ 0xBF) ∧
      (UInt8.ofNat (low + 0x80)).toNat % 64 = low := by
    decide
  obtain ⟨hinside, hbits⟩ := hbounds (code % 64) (Nat.mod_lt code (by decide))
  cases owed with
  | zero => simp only [continuation, characters, step, if_pos hinside, hbits, Nat.div_add_mod',
      List.singleton_append]
  | succ owed => simp only [continuation, characters, step, if_pos hinside, hbits,
      Nat.div_add_mod', List.nil_append]

theorem characters_of_one {code : Nat} (hcode : code < 0x80) (rest : List UInt8) :
    characters .ready (UInt8.ofNat code :: rest) = Char.ofNat code :: characters .ready rest := by
  have hfirst : ∀ code < 0x80, first (UInt8.ofNat code) = ([Char.ofNat code], .ready) := by decide
  rw [characters, step, hfirst code hcode, List.singleton_append]

theorem characters_of_two {code : Nat} (hleast : 0x80 ≤ code) (hcode : code < 0x800)
    (rest : List UInt8) :
    characters .ready (UInt8.ofNat (code / 64 + 0xC0) :: continuation code :: rest) =
      Char.ofNat code :: characters .ready rest := by
  have hfirst : ∀ high < 0x20, 0x02 ≤ high →
      first (UInt8.ofNat (high + 0xC0)) = ([], .inside high 0 0x80 0xBF) := by
    decide
  rw [characters, step, hfirst (code / 64) (by omega) (by omega), List.nil_append]
  exact characters_continuation code 0 rest

/-- The bounds of the second octet keep out overlong forms and surrogates. -/
theorem step_first_of_three : ∀ code < 0x400, 0x20 ≤ code → code < 0x360 ∨ 0x380 ≤ code →
    (first (UInt8.ofNat (code / 64 + 0xE0))).1 = [] ∧
      step (first (UInt8.ofNat (code / 64 + 0xE0))).2 (continuation code) =
        ([], .inside code 0 0x80 0xBF) := by
  decide +kernel

/-- The bounds of the second octet keep out overlong forms and codes above those of characters. -/
theorem step_first_of_four : ∀ code < 0x110, 0x10 ≤ code →
    (first (UInt8.ofNat (code / 64 + 0xF0))).1 = [] ∧
      step (first (UInt8.ofNat (code / 64 + 0xF0))).2 (continuation code) =
        ([], .inside code 1 0x80 0xBF) := by
  decide +kernel

theorem characters_of_three {code : Nat} (hleast : 0x800 ≤ code) (hcode : code < 0x10000)
    (hvalid : code < 0xD800 ∨ 0xDFFF < code) (rest : List UInt8) :
    characters .ready (UInt8.ofNat (code / 64 / 64 + 0xE0) :: continuation (code / 64) ::
        continuation code :: rest) =
      Char.ofNat code :: characters .ready rest := by
  obtain ⟨hnone, hsecond⟩ := step_first_of_three (code / 64) (by omega) (by omega) (by omega)
  rw [characters, step, hnone, List.nil_append, characters, hsecond, List.nil_append]
  exact characters_continuation code 0 rest

theorem characters_of_four {code : Nat} (hleast : 0x10000 ≤ code) (hcode : code < 0x110000)
    (rest : List UInt8) :
    characters .ready (UInt8.ofNat (code / 64 / 64 / 64 + 0xF0) :: continuation (code / 64 / 64) ::
        continuation (code / 64) :: continuation code :: rest) =
      Char.ofNat code :: characters .ready rest := by
  obtain ⟨hnone, hsecond⟩ := step_first_of_four (code / 64 / 64) (by omega) (by omega)
  rw [characters, step, hnone, List.nil_append, characters, hsecond, List.nil_append]
  exact (characters_continuation (code / 64) 1 _).trans (characters_continuation code 0 rest)

/-- The octets of a character yield that character. -/
theorem characters_utf8EncodeChar (c : Char) (rest : List UInt8) :
    characters .ready (String.utf8EncodeChar c ++ rest) = c :: characters .ready rest := by
  have hvalid : c.val.toNat < 0xD800 ∨ 0xDFFF < c.val.toNat ∧ c.val.toNat < 0x110000 := c.valid
  have hchar : Char.ofNat c.val.toNat = c := c.ofNat_toNat
  unfold String.utf8EncodeChar
  generalize c.val.toNat = code at hvalid hchar
  dsimp only
  rw [← hchar]
  by_cases hone : code ≤ 0x7F
  · rw [if_pos hone]
    exact characters_of_one (by omega) rest
  rw [if_neg hone]
  by_cases htwo : code ≤ 0x7FF
  · rw [if_pos htwo, Nat.mod_eq_of_lt (by omega : code / 64 < 0x20)]
    exact characters_of_two (by omega) (by omega) rest
  rw [if_neg htwo]
  by_cases hthree : code ≤ 0xFFFF
  · have hfirst : code / 4096 % 0x10 = code / 64 / 64 := by omega
    rw [if_pos hthree, hfirst]
    exact characters_of_three (by omega) (by omega) (by omega) rest
  · have hfirst : code / 262144 % 0x08 = code / 64 / 64 / 64 := by omega
    have hsecond : code / 4096 = code / 64 / 64 := by omega
    rw [if_neg hthree, hfirst, hsecond]
    exact characters_of_four (by omega) (by omega) rest

/-- The octets of a text decode to that text. -/
theorem decode_toUTF8 (text : String) : decode text.toUTF8.data.toList = text := by
  have hoctets : text.toUTF8.data.toList = text.toList.flatMap String.utf8EncodeChar := by
    rw [String.toUTF8_eq_toByteArray, ← String.utf8Encode_toList, List.utf8Encode,
      List.toList_data_toByteArray]
  have hcharacters (chars : List Char) :
      characters .ready (chars.flatMap String.utf8EncodeChar) = chars := by
    induction chars with
    | nil => rfl
    | cons c chars ih => rw [List.flatMap_cons, characters_utf8EncodeChar, ih]
  rw [hoctets, decode_eq_characters, hcharacters, String.ofList_toList]

end VerifierTrace.Utf8
