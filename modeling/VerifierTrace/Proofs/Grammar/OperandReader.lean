import VerifierTrace.Instruction.Reader
import VerifierTrace.Proofs.Text.Matchers

/-!
# The readers of operands and modifiers as trees

Each reader of operands and of modifiers is the matcher of a tree that is put together from the
readers of its parts.
-/

set_option autoImplicit false
set_option relaxedAutoImplicit false

namespace VerifierTrace

namespace Reader

variable {scan : Scan}

/-! ### Registers and references -/

/-- The letter of a view: the octets of the view and the last register that has it. -/
def registerView : Reader (Nat × Nat) :=
  oneOf [('r', (8, 10)), ('w', (4, 9))]

def registerName : Reader (UInt8 × Nat) := do
  let (size, last) ← registerView
  let digits ← run .digit
  let continues ← look .word
  let number ← ofOption (Slot.registerNumber? digits)
  if number ≤ last && !continues then pure (UInt8.ofNat number, size) else miss

def register : Reader Operand := do
  let start ← here
  let (number, size) ← registerName
  let stop ← here
  pure ⟨.register number, size, .between start stop⟩

def sign : Reader Char :=
  oneOf [('+', '+'), ('-', '-')]

/-- A sign and decimal digits as an offset of 32 bits. -/
def offset : Reader Int32 := do
  let sign ← sign
  let digits ← run .digit
  let value ← ofOption (Numeral.signed? 32 (sign :: digits))
  pure (Int32.ofInt value)

def reference : Reader Operand := do
  let start ← here
  literal "*("
  skipBlanks
  let size ← firstOf (fun (word, size) ↦ do keyword word; pure size) Operand.widths
  skipBlanks
  literal "*)"
  skipBlanks
  literal "("
  skipBlanks
  let (base, _) ← registerName
  skipBlanks
  let offset ← offset
  skipBlanks
  literal ")"
  let stop ← here
  pure ⟨.reference base offset, size, .between start stop⟩

theorem matcher_registerName : registerName.matcher scan = Operand.registerName? scan := by
  have hview : ∀ letter, Operand.registerView? letter =
      [('r', (8, 10)), ('w', (4, 9))].lookup letter := by
    intro letter
    unfold Operand.registerView?
    split
    · rfl
    · rfl
    · next hr hw => simp [List.lookup_cons, beq_eq_false_iff_ne.mpr hr, beq_eq_false_iff_ne.mpr hw]
  rw [registerName, matcher_bind]
  unfold Operand.registerName?
  split
  · next hrest =>
    rw [registerView, matcher_oneOf_of_nil hrest]
    rfl
  · next letter others hrest =>
    rw [registerView, matcher_oneOf_of_cons hrest, ← hview]
    cases Operand.registerView? letter with
    | none => rfl
    | some view =>
      obtain ⟨size, last⟩ := view
      simp only [Option.map_some, Option.bind_some, PassRule.digit, PassRule.word, matcher_bind,
        matcher_run_ofClass, matcher_look_ofClass, matcher_ofOption, Scan.continuesWord]
      split
      · next hnumber => rw [hnumber]; rfl
      · next number hnumber =>
        simp only [hnumber, Option.map_some, Option.bind_some, matcher_ite, matcher_pure,
          matcher_miss]
        rfl

theorem matcher_register : register.matcher scan = Operand.register? scan := by
  simp only [register, matcher_bind, matcher_here, Option.bind_some, matcher_registerName,
    matcher_pure, Operand.register?]
  cases Operand.registerName? scan with
  | none => rfl
  | some found => rfl

theorem matcher_offset : offset.matcher scan = Operand.offset? scan := by
  unfold Operand.offset?
  rw [offset, matcher_bind]
  split
  · next hrest =>
    rw [sign, matcher_oneOf_of_nil hrest]
    rfl
  · next letter others hrest =>
    rw [sign, matcher_oneOf_of_cons hrest]
    simp only [PassRule.digit, matcher_bind, matcher_run_ofClass, Option.bind_some,
      matcher_ofOption, matcher_pure]
    by_cases hsign : letter = '+' ∨ letter = '-'
    · have hentry : [('+', '+'), ('-', '-')].lookup letter = some letter := by
        rcases hsign with rfl | rfl
        · rfl
        · rfl
      rw [hentry]
      simp only [Option.bind_some, Option.map_eq_bind, Option.bind_assoc]
      rfl
    · obtain ⟨hplus, hminus⟩ := not_or.mp hsign
      have hentry : [('+', '+'), ('-', '-')].lookup letter = none := by
        simp [List.lookup_cons, beq_eq_false_iff_ne.mpr hplus, beq_eq_false_iff_ne.mpr hminus]
      have hnone : Numeral.sign? letter = none := by
        unfold Numeral.sign?
        split
        · exact absurd rfl hplus
        · exact absurd rfl hminus
        · rfl
      rw [hentry, Numeral.signed?]
      simp only [hnone]
      rfl

theorem matcher_reference : reference.matcher scan = Operand.reference? scan := by
  simp only [reference, matcher_bind, matcher_here, Option.bind_some, matcher_literal,
    bind_map_unit, matcher_skipBlanks, matcher_firstOf, matcher_keyword, matcher_registerName,
    matcher_offset, matcher_pure, Operand.reference?]
  simp only [Option.map_eq_bind]
  rfl

/-! ### Numbers -/

def hexMark : Reader Unit :=
  (literal "0x").orElse (literal "0X")

/-- The digits of a number below `2 ^ 64`. -/
def magnitude : Reader Int64 := do
  match ← hexMark.optional with
  | some _ => do
    let digits ← run .hexDigit
    ofOption (Word.ofHexadecimal? digits)
  | none => do
    let digits ← run .digit
    ofOption (Word.ofDecimal? digits)

/-- Blanks and the word `ll`. -/
def longMark : Reader Unit := do
  blanks
  keyword "ll"

def immediate : Reader Operand := do
  let start ← here
  let negative ← accept "-"
  let magnitude ← magnitude
  if ← look .word then miss else
  let stop ← here
  let _ ← longMark.optional
  pure (Operand.immediate (if negative then -magnitude else magnitude) (.between start stop))

theorem matcher_magnitude : magnitude.matcher scan = Operand.magnitude? scan := by
  have hmark : hexMark.matcher scan =
      ((scan.literal? "0x").or (scan.literal? "0X")).map ((), ·) := by
    rw [hexMark, matcher_orElse, matcher_literal, matcher_literal]
    cases scan.literal? "0x" with
    | none => rfl
    | some stop => rfl
  rw [magnitude, matcher_bind, matcher_optional, hmark, Option.bind_some, Operand.magnitude?]
  cases (scan.literal? "0x").or (scan.literal? "0X") with
  | none =>
    simp only [Option.map_none, Option.elim_none, PassRule.digit, matcher_bind,
      matcher_run_ofClass, Option.bind_some, matcher_ofOption]
  | some marked =>
    simp only [Option.map_some, Option.elim_some, PassRule.hexDigit, matcher_bind,
      matcher_run_ofClass, Option.bind_some, matcher_ofOption]

theorem matcher_longMark :
    longMark.matcher scan = (scan.blanks?.bind (·.keyword? "ll")).map ((), ·) := by
  simp only [longMark, matcher_bind, matcher_blanks, bind_map_unit, matcher_keyword]
  cases scan.blanks? with
  | none => rfl
  | some place => rfl

theorem matcher_immediate : immediate.matcher scan = Operand.immediate? scan := by
  have hminus : Operand.minus scan =
      ((scan.literal? "-").isSome, (scan.literal? "-").getD scan) := by
    rw [Operand.minus]
    cases scan.literal? "-" with
    | none => rfl
    | some unsigned => rfl
  have hskip : ∀ stop : Scan, ((stop.blanks?.bind (·.keyword? "ll")).map (Prod.mk ())).elim stop
      Prod.snd = Operand.skipLongMark stop := by
    intro stop
    rw [Operand.skipLongMark]
    cases stop.blanks?.bind (·.keyword? "ll") with
    | none => rfl
    | some after => rfl
  simp only [immediate, matcher_bind, matcher_here, matcher_accept, Option.bind_some,
    matcher_magnitude, PassRule.word, matcher_look_ofClass, matcher_ite, matcher_miss,
    matcher_optional, matcher_longMark, hskip, matcher_pure, Operand.immediate?, hminus]
  cases Operand.magnitude? ((scan.literal? "-").getD scan) with
  | none => rfl
  | some found => rfl

def target : Reader Operand := register.orElse reference

def source : Reader Operand := target.orElse immediate

theorem matcher_target : target.matcher scan = Operand.target? scan := by
  rw [target, matcher_orElse, matcher_register, matcher_reference, Operand.target?]

theorem matcher_source : source.matcher scan = Operand.source? scan := by
  rw [source, matcher_orElse, matcher_target, matcher_immediate, Operand.source?]

/-! ### Modifiers -/

def registerLetter : PassRule :=
  .ofClass (fun letter ↦ letter == 'r' || letter == 'w') false fun c hwide ↦ by
    rw [beq_eq_false_of_wide hwide (by decide), beq_eq_false_of_wide hwide (by decide)]
    rfl

def negation : Reader Modifier := do
  literal "-"
  if ← look registerLetter then pure .negate else miss

def swap : Reader Modifier :=
  firstOf (fun (word, modifier) ↦ do keyword word; blanks; pure modifier) Modifier.byteSwaps

def cast : Reader Modifier :=
  firstOf (fun (cast, modifier) ↦ do literal cast; skipBlanks; pure modifier) Modifier.casts

def modifier : Reader Modifier := (negation.orElse swap).orElse cast

theorem matcher_negation : negation.matcher scan = Modifier.negation? scan := by
  simp only [negation, registerLetter, matcher_bind, matcher_literal, bind_map_unit,
    matcher_look_ofClass, Option.bind_some, matcher_ite, matcher_pure, matcher_miss,
    Modifier.negation?]
  cases scan.literal? "-" with
  | none => rfl
  | some stop => rfl

theorem matcher_swap : swap.matcher scan = Modifier.swap? scan := by
  simp only [swap, matcher_firstOf, matcher_bind, matcher_keyword, matcher_blanks, bind_map_unit,
    matcher_pure, Modifier.swap?]
  simp only [Option.map_eq_bind, Option.bind_assoc]
  rfl

theorem matcher_cast : cast.matcher scan = Modifier.cast? scan := by
  simp only [cast, matcher_firstOf, matcher_bind, matcher_literal, matcher_skipBlanks,
    bind_map_unit, Option.bind_some, matcher_pure, Modifier.cast?]
  simp only [Option.map_eq_bind]
  rfl

theorem matcher_modifier : modifier.matcher scan = Modifier.read? scan := by
  rw [modifier, matcher_orElse, matcher_orElse, matcher_negation, matcher_swap, matcher_cast,
    Modifier.read?]

end Reader

end VerifierTrace
