import VerifierTrace.Proofs.Grammar.Passing
import VerifierTrace.Proofs.Text.Reader

/-!
# The matchers as trees

What a reader finds in a scan, and where it ends, is its `Reader.matcher`. Each matcher of scans is
that of a small reader: blanks, a fixed text, a keyword, a run of a class of characters. A sequence
of readers matches what their matchers match one after the other (`matcher_bind`), and a choice what
the first of them matches that matches anything (`matcher_orElse`, `matcher_firstOf`). A reader that
must find something reports a fault where it began (`exec_orFault`).
-/

set_option autoImplicit false
set_option relaxedAutoImplicit false

namespace VerifierTrace

/-! ### Classes of characters -/

section Wide

variable {c : Char}

theorem isAlphanum_of_wide (hwide : 128 ≤ c.toNat) : c.isAlphanum = false := by
  have hval : 128 ≤ c.val := UInt32.le_iff_toNat_le.mpr hwide
  rw [Bool.eq_false_iff, ne_eq, Scan.isAlphanum_iff]
  grind

/-- A character of ASCII is none outside ASCII. -/
theorem beq_eq_false_of_wide (hwide : 128 ≤ c.toNat) {other : Char} (hother : other.toNat < 128) :
    (c == other) = false := by
  rw [beq_eq_false_iff_ne]
  rintro rfl
  exact absurd hother (Nat.not_lt_of_ge hwide)

theorem isBlank_of_wide (hwide : 128 ≤ c.toNat) : isBlank c = false := by
  rw [isBlank, beq_eq_false_of_wide hwide (by decide), beq_eq_false_of_wide hwide (by decide)]
  rfl

theorem isWordChar_of_wide (hwide : 128 ≤ c.toNat) : isWordChar c = false := by
  rw [isWordChar, isAlphanum_of_wide hwide, beq_eq_false_of_wide hwide (by decide)]
  rfl

/-- A class of word characters has none outside ASCII. -/
theorem eq_false_of_wide {inClass : Char → Bool} (hword : inClass c → isWordChar c)
    (hwide : 128 ≤ c.toNat) : inClass c = false := by
  rw [← Bool.not_eq_true]
  intro hc
  exact absurd (hword hc) (Bool.eq_false_iff.mp (isWordChar_of_wide hwide))

end Wide

namespace PassRule

def blank : PassRule :=
  .ofClass isBlank false fun _ ↦ isBlank_of_wide

def digit : PassRule :=
  .ofClass Char.isDigit false fun _ ↦ eq_false_of_wide Scan.isDigit_imp_isWordChar

def hexDigit : PassRule :=
  .ofClass Char.isHexDigit false fun _ ↦ eq_false_of_wide Scan.isHexDigit_imp_isWordChar

def word : PassRule :=
  .ofClass isWordChar false fun _ ↦ isWordChar_of_wide

end PassRule

namespace Reader

variable {Part Result : Type} {scan : Scan}

/-! ### Sequences -/

theorem exec_bind (reader : Reader Part) (next : Part → Reader Result) (scan : Scan) :
    (reader >>= next).exec scan =
      (reader.exec scan).bind fun (found, stop) ↦ (next found).exec stop := by
  show (reader.bind next).exec scan = _
  induction reader generalizing scan with
  | done found => rfl
  | fail error => rfl
  | place follow ih => exact ih _ next scan
  | left follow ih => exact ih _ next scan
  | peek rule follow ih => exact ih _ next scan
  | rest follow ih => exact ih _ next scan
  | take rule follow ih => exact ih _ next _
  | eat literal follow ih =>
    rw [Reader.bind, exec, exec]
    cases scan.literal? literal with
    | none => exact ih _ next scan
    | some stop => exact ih _ next stop
  | attempt first follow _ ih =>
    rw [Reader.bind, exec, exec]
    cases first.exec scan with
    | error error => exact ih _ next scan
    | ok found => exact ih _ next _

/-- What a reader finds, and where it ends. -/
def matcher (reader : Reader Result) (scan : Scan) : Option (Result × Scan) :=
  (reader.exec scan).toOption

@[simp]
theorem matcher_bind (reader : Reader Part) (next : Part → Reader Result) (scan : Scan) :
    (reader >>= next).matcher scan =
      (reader.matcher scan).bind fun (found, stop) ↦ (next found).matcher stop := by
  rw [matcher, matcher, exec_bind]
  cases reader.exec scan with
  | error error => rfl
  | ok found => rfl

@[simp]
theorem matcher_pure (result : Result) :
    (pure result : Reader Result).matcher scan = some (result, scan) := rfl

theorem matcher_ite (condition : Prop) [Decidable condition] (first second : Reader Result) :
    (if condition then first else second).matcher scan =
      if condition then first.matcher scan else second.matcher scan := by
  split
  · rfl
  · rfl

/-! ### Single moves -/

/-- A reader that matches nothing. -/
def miss : Reader Result := .fail .empty

/-- The position of the cursor. -/
def here : Reader Nat := .place .done

/-- Whether the next character would be passed by a rule. -/
def look (rule : PassRule) : Reader Bool := .peek rule .done

/-- Passes a fixed text if it comes next, and tells whether it did. -/
def accept (text : String) : Reader Bool := .eat text .done

/-- Passes characters by a rule. -/
def run (rule : PassRule) : Reader (List Char) := .take rule .done

/-- Runs a reader that may fail. -/
def optional (reader : Reader Part) : Reader (Option Part) := .attempt reader .done

/-- Goes on with what was found, if anything was. -/
def ofOption (found : Option Result) : Reader Result := found.elim miss .done

@[simp]
theorem matcher_miss : (miss : Reader Result).matcher scan = none := rfl

@[simp]
theorem matcher_here : here.matcher scan = some (scan.offset, scan) := rfl

@[simp]
theorem matcher_ofOption (found : Option Result) :
    (ofOption found).matcher scan = found.map (·, scan) := by
  cases found with
  | none => rfl
  | some result => rfl

@[simp]
theorem matcher_accept (text : String) : (accept text).matcher scan =
    some ((scan.literal? text).isSome, (scan.literal? text).getD scan) := by
  rw [matcher, accept, exec]
  cases scan.literal? text with
  | none => rfl
  | some stop => rfl

@[simp]
theorem matcher_optional (reader : Reader Part) : reader.optional.matcher scan =
    some ((reader.matcher scan).map Prod.fst, (reader.matcher scan).elim scan Prod.snd) := by
  rw [matcher, optional, exec, matcher]
  cases reader.exec scan with
  | error error => rfl
  | ok found => rfl

section OfClass

variable {inClass : Char → Bool} {isWide : Bool}
  {hwide : ∀ c : Char, 128 ≤ c.toNat → inClass c = isWide}

@[simp]
theorem matcher_run_ofClass :
    (run (.ofClass inClass isWide hwide)).matcher scan = some (scan.run inClass) := by
  rw [matcher, run, exec]
  simp only [PassRule.take_count_ofClass, PassRule.drop_count_ofClass, exec]
  rfl

@[simp]
theorem matcher_look_ofClass : (look (.ofClass inClass isWide hwide)).matcher scan =
    some (scan.rest.head?.any inClass, scan) := by
  rw [matcher, look, exec, PassRule.passesHead_ofClass]
  rfl

end OfClass

/-! ### Matchers of scans -/

/-- What is matched without a result is only passed. -/
@[simp]
theorem bind_map_unit (found : Option Scan) (next : Unit × Scan → Option Result) :
    (found.map fun stop ↦ ((), stop)).bind next = found.bind fun stop ↦ next ((), stop) :=
  Option.bind_map

/-- Passes blanks, if any come next. -/
def skipBlanks : Reader Unit := do
  let _ ← run .blank

@[simp]
theorem matcher_skipBlanks : skipBlanks.matcher scan = some ((), scan.skipBlanks) := by
  simp [skipBlanks, PassRule.blank, Scan.run, Scan.skipBlanks]

/-- Passes a run of blanks that is not empty. -/
def blanks : Reader Unit := do
  if (← run .blank).isEmpty then miss

@[simp]
theorem matcher_blanks : blanks.matcher scan = scan.blanks?.map ((), ·) := by
  have hempty : (scan.rest.takeWhile isBlank).isEmpty = !scan.rest.head?.any isBlank := by
    cases scan.rest with
    | nil => rfl
    | cons c rest => cases hc : isBlank c <;> simp [hc]
  simp only [blanks, PassRule.blank, matcher_bind, matcher_run_ofClass, Option.bind_some, Scan.run,
    hempty, Scan.blanks?]
  cases scan.rest.head?.any isBlank with
  | true => rfl
  | false => rfl

/-- Passes a fixed text. -/
def literal (text : String) : Reader Unit := do
  if !(← accept text) then miss

@[simp]
theorem matcher_literal (text : String) :
    (literal text).matcher scan = (scan.literal? text).map ((), ·) := by
  simp only [literal, matcher_bind, matcher_accept, Option.bind_some]
  cases scan.literal? text with
  | none => simp
  | some stop => simp

/-- Passes a fixed text that no word character follows. -/
def keyword (word : String) : Reader Unit := do
  literal word
  if ← look .word then miss

@[simp]
theorem matcher_keyword (word : String) :
    (keyword word).matcher scan = (scan.keyword? word).map ((), ·) := by
  simp only [keyword, matcher_bind, matcher_literal, Scan.keyword?]
  cases scan.literal? word with
  | none => rfl
  | some stop =>
    simp [PassRule.word, Option.filter, Scan.continuesWord]
    split <;> simp [*]

/-! ### Choices -/

/-- Reads by the second reader where the first one fails. -/
def orElse (first second : Reader Result) : Reader Result := do
  match ← first.optional with
  | some found => pure found
  | none => second

@[simp]
theorem matcher_orElse (first second : Reader Result) :
    (first.orElse second).matcher scan = (first.matcher scan).or (second.matcher scan) := by
  simp only [orElse, matcher_bind, matcher_optional, Option.bind_some]
  cases first.matcher scan with
  | none => rfl
  | some found => rfl

/-- Reads by the reader of the first entry of a table that does not fail. -/
def firstOf {Entry : Type} (reader : Entry → Reader Result) : List Entry → Reader Result
  | [] => miss
  | entry :: table => (reader entry).orElse (firstOf reader table)

@[simp]
theorem matcher_firstOf {Entry : Type} (reader : Entry → Reader Result) (table : List Entry) :
    (firstOf reader table).matcher scan =
      table.findSome? fun entry ↦ (reader entry).matcher scan := by
  induction table with
  | nil => rfl
  | cons entry table ih =>
    rw [firstOf, matcher_orElse, ih, findSome?_cons_eq_or]

/-- Passes one character of a table, and goes on with its entry. -/
def oneOf (table : List (Char × Result)) : Reader Result :=
  firstOf (fun entry ↦ do literal (String.singleton entry.1); pure entry.2) table

theorem matcher_oneOf_of_nil {table : List (Char × Result)} (hrest : scan.rest = []) :
    (oneOf table).matcher scan = none := by
  obtain ⟨offset, text⟩ := scan
  obtain rfl : text = [] := hrest
  simp [oneOf, Scan.literal?, Scan.stripStart?]

theorem matcher_oneOf_of_cons {table : List (Char × Result)} {c : Char} {others : List Char}
    (hrest : scan.rest = c :: others) : (oneOf table).matcher scan =
      (table.lookup c).map (·, ⟨scan.offset + c.utf8Size, others⟩) := by
  obtain ⟨offset, text⟩ := scan
  obtain rfl : text = c :: others := hrest
  induction table with
  | nil => rfl
  | cons entry table ih =>
    obtain ⟨expected, result⟩ := entry
    rw [oneOf, firstOf, matcher_orElse, ← oneOf, ih, List.lookup_cons]
    by_cases hc : c = expected
    · simp [Scan.literal?, Scan.stripStart?, hc]
    · simp [Scan.literal?, Scan.stripStart?, beq_eq_false_iff_ne.mpr hc, Ne.symm hc]

/-! ### Faults -/

/-- Reports a fault at the cursor. -/
def fault (fault : Fault) : Reader Result := .place fun offset ↦ .fail (.fault offset fault)

/-- Reports a fault where the reader began, unless it finds something. -/
def orFault (reader : Reader Result) (missing : Fault) : Reader Result :=
  .attempt reader fun found ↦ found.elim (fault missing) .done

theorem exec_orFault (reader : Reader Result) (missing : Fault) (scan : Scan) :
    (reader.orFault missing).exec scan = scan.require (reader.matcher scan) missing := by
  rw [orFault, exec, matcher]
  cases reader.exec scan with
  | error error => rfl
  | ok found => rfl

end Reader

end VerifierTrace
