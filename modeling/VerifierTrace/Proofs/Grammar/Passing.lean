import VerifierTrace.LineError
import VerifierTrace.Text.Scan

/-!
# What the matchers pass

`Scan.Passes text start stop` says that exactly `text` lies between two places of a line. Each
matcher is described by the texts that it passes and by what must not come next after them, which
`Scan.Avoids` says: a longest run ends before a character outside its class, and a keyword before a
character that is no word character. Texts that are passed one after the other are passed as one
text (`passes_append`), so the readers built from the matchers are described by the same means.

Two facts make such descriptions exact in both directions. The blanks before a token end where the
token begins, for no token begins with a blank (`Passes.skipBlanks_eq`), and at most one entry of a
table fits when no word of the table begins another (`findSome?_eq_some_iff_of_prefixFree`).
-/

set_option autoImplicit false
set_option relaxedAutoImplicit false

namespace VerifierTrace

/-- A run of spaces and tabs, which may be empty. -/
structure Blanks where
  text : List Char
  areBlank : text.all fun c ↦ c == ' ' || c == '\t'

/-- A run of spaces and tabs that is not empty. -/
structure Gap extends Blanks where
  nonempty : text ≠ []

/-- The characters between tokens are those that are passed as blanks. -/
theorem Blanks.all_isBlank (blanks : Blanks) : blanks.text.all isBlank :=
  blanks.areBlank

/-- A number of spaces. -/
def Blanks.spaces (count : Nat) : Blanks where
  text := List.replicate count ' '
  areBlank := by simp

/-- One space. -/
def Gap.space : Gap where
  toBlanks := .spaces 1
  nonempty := List.cons_ne_nil _ _

/-- What one entry at most answers is found in a table whatever the order of the entries. -/
theorem findSome?_eq_some_iff_of_unique {Entry Answer : Type} {table : List Entry}
    {answer? : Entry → Option Answer} {answer : Answer}
    (hunique : ∀ first ∈ table, ∀ second ∈ table, ∀ answer answer',
      answer? first = some answer → answer? second = some answer' → first = second) :
    table.findSome? answer? = some answer ↔ ∃ entry ∈ table, answer? entry = some answer := by
  constructor
  · exact List.exists_of_findSome?_eq_some
  · rintro ⟨entry, hentry, hanswer⟩
    cases hfound : table.findSome? answer? with
    | none =>
      rw [List.findSome?_eq_none_iff] at hfound
      rw [hfound entry hentry] at hanswer
      simp at hanswer
    | some other =>
      obtain ⟨entry', hentry', hother⟩ := List.exists_of_findSome?_eq_some hfound
      rw [← hother, hunique entry' hentry' entry hentry other answer hother hanswer, hanswer]

/-- A table is searched by its first entry and then by the others. -/
theorem findSome?_cons_eq_or {Entry Answer : Type} (answer? : Entry → Option Answer)
    (entry : Entry) (table : List Entry) :
    (entry :: table).findSome? answer? = (answer? entry).or (table.findSome? answer?) := by
  rw [List.findSome?_cons]
  cases answer? entry with
  | none => rfl
  | some answer => rfl

/-- Of two readers that never succeed both, the order in which they are tried does not matter. -/
theorem or_eq_some_iff_of_exclusive {Answer : Type} {first second : Option Answer}
    {answer : Answer}
    (hexclusive : ∀ answer answer', first = some answer → second ≠ some answer') :
    first.or second = some answer ↔ first = some answer ∨ second = some answer := by
  cases first with
  | none => simp
  | some found =>
    cases second with
    | none => simp
    | some other => exact absurd rfl (hexclusive found other rfl)

/-- A sequence of two readers succeeds exactly when both do. -/
theorem bind_eq_ok_iff {Error First Second : Type} {first : Except Error First}
    {next : First → Except Error Second} {result : Second} :
    (first >>= next) = .ok result ↔ ∃ middle, first = .ok middle ∧ next middle = .ok result := by
  cases first with
  | error error =>
    constructor
    · intro h
      exact absurd h (by simp [bind, Except.bind])
    · rintro ⟨middle, h, -⟩
      simp at h
  | ok middle => simp [bind, Except.bind]

/-- A sequence of two readers fails exactly when the first does, or the second after it. -/
theorem bind_eq_error_iff {Error First Second : Type} {first : Except Error First}
    {next : First → Except Error Second} {error : Error} :
    (first >>= next) = .error error ↔
      first = .error error ∨ ∃ middle, first = .ok middle ∧ next middle = .error error := by
  cases first with
  | error error' => simp [bind, Except.bind]
  | ok middle => simp [bind, Except.bind]

namespace Scan

variable {start middle stop : Scan} {text : List Char} {inClass : Char → Bool}

/-- Exactly this text lies between two places of a line. -/
def Passes (text : List Char) (start stop : Scan) : Prop :=
  start.rest = text ++ stop.rest ∧ stop.offset = start.offset + octets text

/-- No character of a class comes next. -/
def Avoids (inClass : Char → Bool) (scan : Scan) : Prop :=
  scan.rest.head?.any inClass = false

instance (text : List Char) (start stop : Scan) : Decidable (Passes text start stop) :=
  inferInstanceAs (Decidable
    (start.rest = text ++ stop.rest ∧ stop.offset = start.offset + octets text))

instance (inClass : Char → Bool) (scan : Scan) : Decidable (Avoids inClass scan) :=
  inferInstanceAs (Decidable (scan.rest.head?.any inClass = false))

theorem require_eq_ok_iff {Result : Type} {found : Option Result} {fault : Fault}
    {result : Result} : start.require found fault = .ok result ↔ found = some result := by
  cases found with
  | none => simp [require, Scan.fault]
  | some found => simp [require]

theorem require_eq_error_iff {Result : Type} {found : Option Result} {fault : Fault}
    {error : LineError} : start.require found fault = .error error ↔
      found = none ∧ error = .fault start.offset fault := by
  cases found with
  | none => simp [require, Scan.fault, eq_comm]
  | some found => simp [require]

/-- What is required and found is passed on. -/
theorem require_some_bind {Found Result : Type} {found : Found} {fault : Fault}
    {next : Found → Except LineError Result} :
    (start.require (some found) fault >>= next) = next found :=
  rfl

/-! ### Texts one after the other -/

@[simp]
theorem passes_nil : Passes [] start stop ↔ stop = start := by
  cases start
  cases stop
  simp [Passes, and_comm, eq_comm]

@[simp]
theorem passes_append {first second : List Char} :
    Passes (first ++ second) start stop ↔
      ∃ middle, Passes first start middle ∧ Passes second middle stop := by
  constructor
  · rintro ⟨hrest, hoffset⟩
    refine ⟨⟨start.offset + octets first, second ++ stop.rest⟩, ⟨?_, rfl⟩, rfl, ?_⟩
    · rw [hrest, List.append_assoc]
    · rw [hoffset, octets_append, Nat.add_assoc]
  · rintro ⟨middle, ⟨hfirst, hbetween⟩, hsecond, hend⟩
    refine ⟨?_, ?_⟩
    · rw [hfirst, hsecond, List.append_assoc]
    · rw [hend, hbetween, octets_append, Nat.add_assoc]

/-- A text is passed by passing its first character and then the others. -/
theorem passes_cons_iff {c first : Char} {rest : List Char} (hrest : start.rest = first :: rest) :
    Passes (c :: text) start stop ↔
      first = c ∧ Passes text ⟨start.offset + first.utf8Size, rest⟩ stop := by
  rw [Passes, Passes, hrest, List.cons_append, List.cons.injEq, octets_cons, and_assoc]
  constructor
  · rintro ⟨rfl, htext, hoffset⟩
    exact ⟨rfl, htext, by rw [hoffset, Nat.add_assoc]⟩
  · rintro ⟨rfl, htext, hoffset⟩
    exact ⟨rfl, htext, by rw [hoffset, Nat.add_assoc]⟩

/-- A place is determined by the text between it and an earlier one. -/
theorem Passes.unique {stop' : Scan} (hstop : Passes text start stop)
    (hstop' : Passes text start stop') : stop = stop' := by
  obtain ⟨hrest, hoffset⟩ := hstop
  obtain ⟨hrest', hoffset'⟩ := hstop'
  have hsame : stop.rest = stop'.rest := List.append_cancel_left (hrest.symm.trans hrest')
  cases stop
  cases stop'
  simp_all

/-- All that is left of a line lies between a place and the end. -/
theorem passes_rest (start : Scan) :
    Passes start.rest start ⟨start.offset + octets start.rest, []⟩ :=
  ⟨(List.append_nil _).symm, rfl⟩

/-- The stretch between two places is as long as the text between them. -/
theorem Passes.spanTo (hpasses : Passes text start stop) :
    start.spanTo stop = ⟨start.offset, octets text⟩ := by
  rw [Scan.spanTo, Span.between, hpasses.2, Nat.add_sub_cancel_left]

/-! ### What comes next -/

theorem avoids_isWordChar_iff : stop.Avoids isWordChar ↔ stop.continuesWord = false := Iff.rfl

/-- What comes next is the first character of the text that is passed. -/
theorem Passes.head? {c : Char} (hpasses : Passes text start stop) (hhead : text.head? = some c) :
    start.rest.head? = some c := by
  rw [hpasses.1, List.head?_append, hhead]
  rfl

/-- Two texts that both come next begin with the same character. -/
theorem Passes.head_unique {text' : List Char} {stop' : Scan} {c c' : Char}
    (hpasses : Passes text start stop) (hhead : text.head? = some c)
    (hpasses' : Passes text' start stop') (hhead' : text'.head? = some c') : c = c' :=
  Option.some.inj ((hpasses.head? hhead).symm.trans (hpasses'.head? hhead'))

theorem Passes.atEnd_eq_false {c : Char} (hpasses : Passes text start stop)
    (hhead : text.head? = some c) : start.atEnd = false := by
  obtain ⟨others, hrest⟩ := List.head?_eq_some_iff.mp (hpasses.head? hhead)
  rw [atEnd, hrest]
  rfl

theorem Passes.avoids {c : Char} (hpasses : Passes text start stop) (hhead : text.head? = some c)
    (hc : inClass c = false) : start.Avoids inClass := by
  rw [Avoids, hpasses.head? hhead]
  exact hc

/-- What comes next is a blank or what comes next after the blanks. -/
theorem Passes.avoids_of_blanks {blanks : Blanks} (hpasses : Passes blanks.text start stop)
    (hstop : stop.Avoids inClass) (hblank : ∀ c, isBlank c → inClass c = false) :
    start.Avoids inClass := by
  cases hhead : blanks.text.head? with
  | none =>
    rw [List.head?_eq_none_iff.mp hhead, passes_nil] at hpasses
    rwa [← hpasses]
  | some c =>
    refine hpasses.avoids hhead (hblank c ?_)
    exact List.all_eq_true.mp blanks.all_isBlank c (List.mem_of_head? hhead)

theorem isBlank_iff {c : Char} : isBlank c ↔ c = ' ' ∨ c = '\t' := by
  simp [isBlank]

theorem isWordChar_eq_false_of_isBlank (c : Char) (hblank : isBlank c) : isWordChar c = false := by
  rcases isBlank_iff.mp hblank with rfl | rfl
  · rfl
  · rfl

theorem isDigit_eq_false_of_isBlank (c : Char) (hblank : isBlank c) : c.isDigit = false := by
  rcases isBlank_iff.mp hblank with rfl | rfl
  · rfl
  · rfl

theorem isBlank_eq_false_of_isDigit {c : Char} (hdigit : c.isDigit) : isBlank c = false := by
  rw [← Bool.not_eq_true]
  intro hblank
  rw [isDigit_eq_false_of_isBlank c hblank] at hdigit
  simp at hdigit

/-- The numbers of the letters of either case and of the digits. -/
theorem isAlphanum_iff {c : Char} : c.isAlphanum ↔ ('A'.val ≤ c.val ∧ c.val ≤ 'Z'.val) ∨
    ('a'.val ≤ c.val ∧ c.val ≤ 'z'.val) ∨ ('0'.val ≤ c.val ∧ c.val ≤ '9'.val) := by
  have hclass : c.isAlphanum = ((decide (c.val ≥ 'A'.val ∧ c.val ≤ 'Z'.val) ||
      (decide (c.val ≥ 'a'.val) && decide (c.val ≤ 'z'.val))) ||
        (decide (c.val ≥ '0'.val) && decide (c.val ≤ '9'.val))) := rfl
  simp only [hclass, Bool.or_eq_true, Bool.and_eq_true, decide_eq_true_eq, or_assoc]

theorem isDigit_imp_isWordChar {c : Char} (hdigit : c.isDigit) : isWordChar c := by
  simp [isWordChar, Char.isAlphanum, hdigit]

theorem isHexDigit_imp_isWordChar {c : Char} (hdigit : c.isHexDigit) : isWordChar c := by
  simp only [Char.isHexDigit, Bool.or_eq_true, Bool.and_eq_true, decide_eq_true_eq] at hdigit
  have hletter : c.isUpper ∨ c.isLower → isWordChar c := by
    intro h
    have halpha : c.isAlpha := Bool.or_eq_true_iff.mpr h
    simp [isWordChar, Char.isAlphanum, halpha]
  obtain (hdecimal | ⟨hfirst, hlast⟩) | ⟨hfirst, hlast⟩ := hdigit
  · exact isDigit_imp_isWordChar hdecimal
  · refine hletter (Or.inr (Bool.and_eq_true_iff.mpr ⟨decide_eq_true hfirst, ?_⟩))
    exact decide_eq_true (UInt32.le_trans hlast (by decide))
  · refine hletter (Or.inl (decide_eq_true ⟨hfirst, ?_⟩))
    exact UInt32.le_trans hlast (by decide)

/-- Where no character of a class comes next, none of a part of the class does. -/
theorem Avoids.mono {part : Char → Bool} (havoids : stop.Avoids inClass)
    (hpart : ∀ c, part c → inClass c) : stop.Avoids part := by
  rw [Avoids, Option.any_eq_false] at havoids ⊢
  intro c hc
  rw [← Bool.not_eq_true]
  intro hinPart
  exact absurd (hpart c hinPart) (Bool.not_eq_true _ ▸ havoids c hc)

theorem Avoids.takeWhile_eq_nil (havoids : stop.Avoids inClass) :
    stop.rest.takeWhile inClass = [] := by
  obtain ⟨offset, rest⟩ := stop
  cases rest with
  | nil => rfl
  | cons c rest =>
    have hc : inClass c = false := havoids
    simp [hc]

/-! ### Runs -/

theorem avoids_skipWhile (start : Scan) (inClass : Char → Bool) :
    (start.skipWhile inClass).Avoids inClass := by
  rw [Avoids, Scan.skipWhile, Option.any_eq_false]
  intro c hc
  have hnot := List.head?_dropWhile_not inClass start.rest
  rw [hc] at hnot
  simpa using hnot

/-- A run is all of its class, and no character of the class comes next after it. -/
theorem run_eq_iff {digits : List Char} : start.run inClass = (digits, stop) ↔
    digits.all inClass ∧ Passes digits start stop ∧ stop.Avoids inClass := by
  constructor
  · intro hrun
    obtain ⟨rfl, rfl⟩ := Prod.mk.inj hrun
    exact ⟨List.all_takeWhile, ⟨List.takeWhile_append_dropWhile.symm, rfl⟩,
      start.avoids_skipWhile inClass⟩
  · rintro ⟨hall, hpasses, havoids⟩
    have hdigits : ∀ c ∈ digits, inClass c := List.all_eq_true.mp hall
    have htake : start.rest.takeWhile inClass = digits := by
      rw [hpasses.1, List.takeWhile_append_of_pos hdigits, havoids.takeWhile_eq_nil,
        List.append_nil]
    have hstart : Passes digits start (start.skipWhile inClass) := by
      rw [← htake]
      exact ⟨List.takeWhile_append_dropWhile.symm, rfl⟩
    rw [run, htake, hstart.unique hpasses]

/-- A value that only texts of the class have is read from the longest run. -/
theorem map_run_eq_some_iff {Value : Type} {value? : List Char → Option Value} {value : Value}
    (hall : ∀ digits value, value? digits = some value → digits.all inClass) :
    (value? (start.run inClass).1).map (·, (start.run inClass).2) = some (value, stop) ↔
      ∃ digits, Passes digits start stop ∧ stop.Avoids inClass ∧ value? digits = some value := by
  rw [Option.map_eq_some_iff]
  constructor
  · rintro ⟨found, hfound, hsame⟩
    obtain ⟨rfl, hstop⟩ := Prod.mk.inj hsame
    have hrun : start.run inClass = ((start.run inClass).1, stop) := by rw [← hstop]
    obtain ⟨-, hpasses, havoids⟩ := run_eq_iff.mp hrun
    exact ⟨_, hpasses, havoids, hfound⟩
  · rintro ⟨digits, hpasses, havoids, hvalue⟩
    rw [run_eq_iff.mpr ⟨hall digits value hvalue, hpasses, havoids⟩]
    exact ⟨value, hvalue, rfl⟩

theorem skipBlanks_eq_iff : start.skipBlanks = stop ↔
    ∃ blanks : Blanks, Passes blanks.text start stop ∧ stop.Avoids isBlank := by
  constructor
  · rintro rfl
    have hrun : start.run isBlank = (start.rest.takeWhile isBlank, start.skipBlanks) := rfl
    obtain ⟨hall, hpasses, havoids⟩ := run_eq_iff.mp hrun
    exact ⟨⟨_, hall⟩, hpasses, havoids⟩
  · rintro ⟨blanks, hpasses, havoids⟩
    exact congrArg Prod.snd (run_eq_iff.mpr ⟨blanks.all_isBlank, hpasses, havoids⟩)

theorem passes_skipBlanks (start : Scan) :
    ∃ blanks : Blanks, Passes blanks.text start start.skipBlanks := by
  obtain ⟨blanks, hpasses, -⟩ := skipBlanks_eq_iff.mp (rfl : start.skipBlanks = _)
  exact ⟨blanks, hpasses⟩

/-- The blanks before a token end where the token begins, for no token begins with a blank. -/
theorem Passes.skipBlanks_eq {blanks : Blanks} (hpasses : Passes blanks.text start stop)
    (havoids : stop.Avoids isBlank) : start.skipBlanks = stop :=
  skipBlanks_eq_iff.mpr ⟨blanks, hpasses, havoids⟩

theorem blanks?_eq_some_iff : start.blanks? = some stop ↔
    ∃ gap : Gap, Passes gap.text start stop ∧ stop.Avoids isBlank := by
  constructor
  · intro h
    unfold blanks? at h
    split at h
    · rename_i hblank
      obtain ⟨blanks, hpasses, havoids⟩ := skipBlanks_eq_iff.mp (Option.some.inj h)
      refine ⟨⟨blanks, ?_⟩, hpasses, havoids⟩
      intro hnone
      rw [hnone, passes_nil] at hpasses
      rw [hpasses] at havoids
      exact absurd (hblank.symm.trans havoids) (by decide)
    · simp at h
  · rintro ⟨gap, hpasses, havoids⟩
    have hblank : start.rest.head?.any isBlank = true := by
      obtain ⟨⟨gap, hall⟩, hsome⟩ := gap
      cases gap with
      | nil => exact absurd rfl hsome
      | cons c gap =>
        rw [hpasses.1]
        exact List.all_eq_true.mp hall c List.mem_cons_self
    rw [blanks?, if_pos hblank, skipBlanks_eq_iff.mpr ⟨gap.toBlanks, hpasses, havoids⟩]

/-! ### Fixed texts -/

theorem literal?_eq_none_of_avoids {literal : String} {c : Char}
    (hhead : literal.toList.head? = some c) (havoids : start.Avoids (· == c)) :
    start.literal? literal = none := by
  rw [Option.eq_none_iff_forall_ne_some]
  intro stop hstop
  have hpasses : Passes literal.toList start stop := literal?_eq_some_iff.mp hstop
  rw [Avoids, hpasses.head? hhead] at havoids
  simp at havoids

/-- A single character is missing exactly where it does not come next. -/
theorem literal?_eq_none_iff {literal : String} {c : Char} (hliteral : literal.toList = [c]) :
    start.literal? literal = none ↔ start.Avoids (· == c) := by
  constructor
  · intro hnone
    rw [Avoids, Option.any_eq_false]
    intro next hnext
    rw [beq_eq_false_iff_ne]
    intro hsame
    obtain ⟨others, hrest⟩ := List.head?_eq_some_iff.mp hnext
    have hfound : start.literal? literal = some ⟨start.offset + octets [c], others⟩ := by
      rw [literal?_eq_some_iff, hliteral, hrest, hsame]
      exact ⟨rfl, rfl⟩
    rw [hnone] at hfound
    simp at hfound
  · exact literal?_eq_none_of_avoids (by rw [hliteral]; rfl)

theorem keyword?_eq_some_iff {keyword : String} : start.keyword? keyword = some stop ↔
    Passes keyword.toList start stop ∧ stop.Avoids isWordChar := by
  rw [keyword?, Option.filter_eq_some_iff, literal?_eq_some_iff, Bool.not_eq_true',
    avoids_isWordChar_iff, Passes]

/-- A fixed text that does not begin with a blank is passed after blanks. -/
theorem Passes.literal?_skipBlanks {blanks : Blanks} {literal : String} {c : Char}
    (hblanks : Passes blanks.text start middle) (hliteral : Passes literal.toList middle stop)
    (hhead : literal.toList.head? = some c) (hc : isBlank c = false) :
    start.skipBlanks.literal? literal = some stop := by
  rw [hblanks.skipBlanks_eq (hliteral.avoids hhead hc)]
  exact literal?_eq_some_iff.mpr hliteral

/-- Blanks end a word. -/
theorem Passes.avoids_of_gap {gap : Gap} (hpasses : Passes gap.text start stop) :
    start.Avoids isWordChar := by
  cases hhead : gap.text.head? with
  | none => exact absurd (List.head?_eq_none_iff.mp hhead) gap.nonempty
  | some c =>
    refine hpasses.avoids hhead (isWordChar_eq_false_of_isBlank c ?_)
    exact List.all_eq_true.mp gap.all_isBlank c (List.mem_of_head? hhead)

/-- A word that a symbol follows ends before the blanks in front of the symbol, and where there are
none, before any symbol but one that begins with a letter. -/
theorem avoids_isWordChar_iff_separated {blanks : Blanks} {symbol : List Char} {c : Char}
    (hblanks : Passes blanks.text start middle) (hsymbol : Passes symbol middle stop)
    (hhead : symbol.head? = some c) (hc : c = 's' ∨ isWordChar c = false) :
    start.Avoids isWordChar ↔ (symbol.head? = some 's' → blanks.text ≠ []) := by
  constructor
  · intro havoids hletter hnone
    rw [hnone, passes_nil] at hblanks
    rw [Avoids, ← hblanks, hsymbol.head? hletter] at havoids
    exact absurd havoids (by decide)
  · intro hseparated
    by_cases hnone : blanks.text = []
    · rw [hnone, passes_nil] at hblanks
      rw [hblanks] at hsymbol
      rcases hc with rfl | hword
      · exact absurd hnone (hseparated hhead)
      · exact hsymbol.avoids hhead hword
    · have hgap : Passes (Gap.mk blanks hnone).text start middle := hblanks
      exact hgap.avoids_of_gap

/-- A keyword and the blanks after it; being followed by blanks, it is a word of its own. -/
theorem keyword?_bind_blanks?_eq_some_iff {keyword : String} :
    (start.keyword? keyword).bind blanks? = some stop ↔
      ∃ gap : Gap, Passes (keyword.toList ++ gap.text) start stop ∧ stop.Avoids isBlank := by
  rw [Option.bind_eq_some_iff]
  constructor
  · rintro ⟨middle, hkeyword, hblanks⟩
    obtain ⟨gap, hgap, havoids⟩ := blanks?_eq_some_iff.mp hblanks
    exact ⟨gap, passes_append.mpr ⟨middle, (keyword?_eq_some_iff.mp hkeyword).1, hgap⟩, havoids⟩
  · rintro ⟨gap, hpasses, havoids⟩
    obtain ⟨middle, hkeyword, hgap⟩ := passes_append.mp hpasses
    exact ⟨middle, keyword?_eq_some_iff.mpr ⟨hkeyword, hgap.avoids_of_gap⟩,
      blanks?_eq_some_iff.mpr ⟨gap, hgap, havoids⟩⟩

/-- Of two texts that come next, one begins the other. -/
theorem Passes.prefix_or_prefix {first second : List Char} {stop' : Scan}
    (hfirst : Passes first start stop) (hsecond : Passes second start stop') :
    first <+: second ∨ second <+: first :=
  List.prefix_or_prefix_of_prefix ⟨stop.rest, hfirst.1.symm⟩ ⟨stop'.rest, hsecond.1.symm⟩

/-- No word of a table begins the word of another entry. -/
def PrefixFree {Entry : Type} (word : Entry → String) (table : List Entry) : Prop :=
  ∀ first ∈ table, ∀ second ∈ table,
    (word first).toList <+: (word second).toList → first = second

instance {Entry : Type} [DecidableEq Entry] (word : Entry → String) (table : List Entry) :
    Decidable (PrefixFree word table) :=
  inferInstanceAs (Decidable (∀ first ∈ table, ∀ second ∈ table,
    (word first).toList <+: (word second).toList → first = second))

/-- A reader that goes through a table of words finds every entry whose word it matches. -/
theorem findSome?_eq_some_iff_of_prefixFree {Entry Value : Type} {word : Entry → String}
    {value : Entry → Value} {table : List Entry} {found : Value} {matcher : String → Option Scan}
    (hfree : PrefixFree word table)
    (hmatcher : ∀ word after, matcher word = some after →
      ∃ place, Passes word.toList start place) :
    (table.findSome? fun entry ↦ (matcher (word entry)).map (value entry, ·)) =
        some (found, stop) ↔
      ∃ entry ∈ table, matcher (word entry) = some stop ∧ value entry = found := by
  rw [findSome?_eq_some_iff_of_unique]
  · refine exists_congr fun entry ↦ and_congr_right fun _ ↦ ?_
    rw [Option.map_eq_some_iff]
    constructor
    · rintro ⟨after, hafter, hsame⟩
      obtain ⟨rfl, rfl⟩ := Prod.mk.inj hsame
      exact ⟨hafter, rfl⟩
    · rintro ⟨hafter, rfl⟩
      exact ⟨stop, hafter, rfl⟩
  · intro first hfirst second hsecond _ _ hfoundFirst hfoundSecond
    obtain ⟨_, hafterFirst, -⟩ := Option.map_eq_some_iff.mp hfoundFirst
    obtain ⟨_, hafterSecond, -⟩ := Option.map_eq_some_iff.mp hfoundSecond
    obtain ⟨_, hpassesFirst⟩ := hmatcher _ _ hafterFirst
    obtain ⟨_, hpassesSecond⟩ := hmatcher _ _ hafterSecond
    rcases hpassesFirst.prefix_or_prefix hpassesSecond with hprefix | hprefix
    · exact hfree first hfirst second hsecond hprefix
    · exact (hfree second hsecond first hfirst hprefix).symm

theorem firstOf?_eq_some_iff {Entry : Type} {symbol : Entry → String} {table : List Entry}
    {entry : Entry} (hfree : PrefixFree symbol table) :
    start.firstOf? symbol table = some (entry, stop) ↔
      entry ∈ table ∧ Passes (symbol entry).toList start stop := by
  have hmatcher : ∀ word after, start.literal? word = some after →
      ∃ place, Passes word.toList start place :=
    fun word after hafter ↦ ⟨after, literal?_eq_some_iff.mp hafter⟩
  refine (findSome?_eq_some_iff_of_prefixFree hfree hmatcher).trans ?_
  constructor
  · rintro ⟨found, hfound, hliteral, rfl⟩
    exact ⟨hfound, literal?_eq_some_iff.mp hliteral⟩
  · rintro ⟨hentry, hpasses⟩
    exact ⟨entry, hentry, literal?_eq_some_iff.mpr hpasses, rfl⟩

/-- Whatever entry is found, its symbol comes next. -/
theorem passes_of_firstOf? {Entry : Type} {symbol : Entry → String} {table : List Entry}
    {entry : Entry} (hfound : start.firstOf? symbol table = some (entry, stop)) :
    Passes (symbol entry).toList start stop := by
  obtain ⟨found, -, hfirst⟩ := List.exists_of_findSome?_eq_some hfound
  obtain ⟨place, hplace, hsame⟩ := Option.map_eq_some_iff.mp hfirst
  rw [← (Prod.mk.inj hsame).1, ← (Prod.mk.inj hsame).2]
  exact literal?_eq_some_iff.mp hplace

/-- Where no entry of a table begins a later one, the entry that is found for a text is the longest
of those that fit. -/
theorem firstOf?_eq_some_of_longest {Entry : Type} {symbol : Entry → String} {table : List Entry}
    {entry : Entry} (htable : table.Pairwise fun earlier later ↦
      stripStart? (symbol earlier).toList (symbol later).toList = none)
    (hentry : entry ∈ table) (hpasses : Passes (symbol entry).toList start stop)
    (hlongest : ∀ other ∈ table, ∀ place, Passes (symbol other).toList start place →
      (symbol other).toList <+: (symbol entry).toList) :
    start.firstOf? symbol table = some (entry, stop) := by
  have hliteral : start.literal? (symbol entry) = some stop := literal?_eq_some_iff.mpr hpasses
  obtain ⟨⟨found, place⟩, hfound⟩ : ∃ answer, start.firstOf? symbol table = some answer := by
    refine Option.isSome_iff_exists.mp (List.findSome?_isSome_iff.mpr ⟨entry, hentry, ?_⟩)
    rw [hliteral]
    rfl
  obtain ⟨before, first, after, rfl, hfirst, hbefore⟩ := List.findSome?_eq_some_iff.mp hfound
  obtain ⟨place', hplace, hsame⟩ := Option.map_eq_some_iff.mp hfirst
  obtain ⟨rfl, rfl⟩ := Prod.mk.inj hsame
  rw [hfound]
  rcases List.mem_append.mp hentry with hearlier | hlater
  · have hmissed := hbefore entry hearlier
    rw [hliteral] at hmissed
    simp at hmissed
  · rcases List.mem_cons.mp hlater with rfl | hlater
    · rw [hliteral] at hplace
      rw [Option.some.inj hplace]
    · have hnone := (List.pairwise_cons.mp (List.pairwise_append.mp htable).2.1).1 entry hlater
      obtain ⟨rest, hrest⟩ := hlongest first (by simp) place' (literal?_eq_some_iff.mp hplace)
      rw [stripStart?_eq_some_iff.mpr hrest.symm] at hnone
      simp at hnone

end Scan

end VerifierTrace
