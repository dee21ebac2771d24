import VerifierTrace.Proofs.Text.Matchers

/-!
# Readers with a cursor that a failure leaves behind

Where a reader fails, `Reader.exec` answers with the error alone. A cursor is somewhere even then:
it stands where the failure happened, as a rule in the middle of a token, and only an attempt puts
it back. `Reader.drive` runs a reader in this way and always ends with a place. What it finds is
what `Reader.exec` finds (`exec_eq_drive`), so a driven reader succeeds exactly when its matcher
does (`drive_eq_ok_iff`).

Two ways to try readers one after the other lose nothing of the line. `attemptEach` runs each reader
of a table as an attempt and fails when none is left, with the cursor where it was
(`drive_attemptEach`). A reader that `Seeks` what a matcher finds never fails, and the cursor is
where it was when there is nothing to find; this is closed under alternatives (`Seeks.orNext`,
`Seeks.search`).
-/

set_option autoImplicit false
set_option relaxedAutoImplicit false

namespace VerifierTrace.Reader

variable {Part Result Entry : Type} {scan stop : Scan}

/-- Runs a reader with a cursor, which ends where the reader is done or where it failed. -/
def drive : {Result : Type} → Reader Result → Scan → Except LineError Result × Scan
  | _, .done result, scan => (.ok result, scan)
  | _, .fail error, scan => (.error error, scan)
  | _, .place next, scan => (next scan.offset).drive scan
  | _, .left next, scan => (next (octets scan.rest)).drive scan
  | _, .peek rule next, scan => (next (rule.passesHead scan.rest)).drive scan
  | _, .eat literal next, scan =>
    match scan.literal? literal with
    | some stop => (next true).drive stop
    | none => (next false).drive scan
  | _, .take rule next, scan =>
    let text := scan.rest.take (rule.count 0 scan.rest)
    (next text).drive ⟨scan.offset + octets text, scan.rest.drop (rule.count 0 scan.rest)⟩
  | _, .rest next, scan => (next scan.rest).drive scan
  | _, .attempt first next, scan =>
    match first.drive scan with
    | (.ok found, stop) => (next (some found)).drive stop
    | (.error _, _) => (next none).drive scan

/-- The run that keeps no place of a failure finds the same. -/
theorem exec_eq_drive (reader : Reader Result) (scan : Scan) :
    reader.exec scan = (reader.drive scan).1.map fun result ↦ (result, (reader.drive scan).2) := by
  induction reader generalizing scan with
  | done result => rfl
  | fail error => rfl
  | place next ih => exact ih _ scan
  | left next ih => exact ih _ scan
  | peek rule next ih => exact ih _ scan
  | rest next ih => exact ih _ scan
  | take rule next ih => exact ih _ _
  | eat literal next ih =>
    rw [exec, drive]
    cases scan.literal? literal with
    | none => exact ih _ scan
    | some stop => exact ih _ stop
  | attempt first next ihFirst ihNext =>
    rw [exec, drive, ihFirst]
    -- the failure of an attempt has a place, which the next move does not see
    obtain ⟨found, stop⟩ := first.drive scan
    cases found with
    | error error => exact ihNext _ scan
    | ok found => exact ihNext _ stop

theorem drive_eq_ok_iff {reader : Reader Result} {result : Result} :
    reader.drive scan = (.ok result, stop) ↔ reader.matcher scan = some (result, stop) := by
  rw [matcher, exec_eq_drive]
  obtain ⟨found, place⟩ := reader.drive scan
  cases found with
  | error error => simp [Except.map, Except.toOption]
  | ok found => simp [Except.map, Except.toOption]

theorem drive_bind (first : Reader Part) (next : Part → Reader Result) (scan : Scan) :
    (first >>= next).drive scan = match first.drive scan with
      | (.ok found, stop) => (next found).drive stop
      | (.error error, stop) => (.error error, stop) := by
  show (first.bind next).drive scan = _
  induction first generalizing scan with
  | done found => rfl
  | fail error => rfl
  | place follow ih => exact ih _ next scan
  | left follow ih => exact ih _ next scan
  | peek rule follow ih => exact ih _ next scan
  | rest follow ih => exact ih _ next scan
  | take rule follow ih => exact ih _ next _
  | eat literal follow ih =>
    rw [Reader.bind, drive, drive]
    cases scan.literal? literal with
    | none => exact ih _ next scan
    | some stop => exact ih _ next stop
  | attempt part follow _ ih =>
    rw [Reader.bind, drive, drive]
    obtain ⟨found, stop⟩ := part.drive scan
    cases found with
    | error error => exact ih _ next scan
    | ok found => exact ih _ next stop

/-! ### Attempts in turn -/

/-- Runs each reader of a table as an attempt until one finds something. -/
def attemptEach (error : LineError) (reader : Entry → Reader Result) : List Entry → Reader Result
  | [] => .fail error
  | entry :: table => (reader entry).orElse (attemptEach error reader table)

theorem drive_optional (reader : Reader Result) (scan : Scan) : reader.optional.drive scan =
    (.ok ((reader.matcher scan).map Prod.fst), (reader.matcher scan).elim scan Prod.snd) :=
  drive_eq_ok_iff.mpr (matcher_optional reader)

theorem drive_orElse (first second : Reader Result) (scan : Scan) :
    (first.orElse second).drive scan =
      (first.matcher scan).elim (second.drive scan) fun (found, stop) ↦ (.ok found, stop) := by
  rw [orElse, drive_bind, drive_optional]
  cases first.matcher scan with
  | none => rfl
  | some found => rfl

/-- When no reader of the table finds anything, the cursor is where it was. -/
theorem drive_attemptEach (error : LineError) (reader : Entry → Reader Result)
    (table : List Entry) (scan : Scan) : (attemptEach error reader table).drive scan =
      (table.findSome? fun entry ↦ (reader entry).matcher scan).elim (.error error, scan)
        fun (found, stop) ↦ (.ok found, stop) := by
  induction table with
  | nil => rfl
  | cons entry table ih =>
    rw [attemptEach, drive_orElse, ih, findSome?_cons_eq_or]
    cases (reader entry).matcher scan with
    | none => rfl
    | some found => rfl

/-! ### Readers that only look -/

/-- The reader finds what the matcher finds. It never fails, and when there is nothing to find it
leaves the cursor where it was. -/
def Seeks (reader : Reader (Option Result)) (found? : Scan → Option (Result × Scan)) : Prop :=
  ∀ scan, reader.drive scan =
    (.ok ((found? scan).map Prod.fst), (found? scan).elim scan Prod.snd)

/-- Runs the second reader where the first one finds nothing, from wherever that one ended. -/
def orNext (first second : Reader (Option Result)) : Reader (Option Result) := do
  match ← first with
  | some found => pure (some found)
  | none => second

/-- Runs the readers of a table one after the other until one finds something. -/
def search (reader : Entry → Reader (Option Result)) : List Entry → Reader (Option Result)
  | [] => pure none
  | entry :: table => (reader entry).orNext (search reader table)

namespace Seeks

variable {first second : Reader (Option Result)} {found? other? : Scan → Option (Result × Scan)}

theorem congr (hseeks : first.Seeks found?) (hsame : ∀ scan, found? scan = other? scan) :
    first.Seeks other? := by
  intro scan
  rw [hseeks scan, hsame scan]

/-- A reader whose matcher always answers does not fail. -/
theorem of_matcher (hmatcher : ∀ scan, first.matcher scan =
    some ((found? scan).map Prod.fst, (found? scan).elim scan Prod.snd)) : first.Seeks found? :=
  fun scan ↦ drive_eq_ok_iff.mpr (hmatcher scan)

/-- An attempt seeks what the reader matches. -/
theorem optional (reader : Reader Result) : reader.optional.Seeks reader.matcher :=
  of_matcher fun _ ↦ matcher_optional reader

theorem orNext (hfirst : first.Seeks found?) (hsecond : second.Seeks other?) :
    (first.orNext second).Seeks fun scan ↦ (found? scan).or (other? scan) := by
  intro scan
  rw [Reader.orNext, drive_bind, hfirst scan]
  dsimp only
  cases found? scan with
  | none => exact hsecond scan
  | some found => rfl

theorem search {reader : Entry → Reader (Option Result)}
    {found? : Entry → Scan → Option (Result × Scan)}
    (hseeks : ∀ entry, (reader entry).Seeks (found? entry)) (table : List Entry) :
    (Reader.search reader table).Seeks fun scan ↦ table.findSome? (found? · scan) := by
  induction table with
  | nil => exact fun _ ↦ rfl
  | cons entry table ih =>
    refine ((hseeks entry).orNext ih).congr fun scan ↦ ?_
    exact (findSome?_cons_eq_or (found? · scan) entry table).symm

theorem drive_eq_some_iff (hseeks : first.Seeks found?) {result : Result} :
    first.drive scan = (.ok (some result), stop) ↔ found? scan = some (result, stop) := by
  rw [hseeks scan]
  cases found? scan with
  | none => simp
  | some found => simp [Prod.ext_iff]

/-- A cursor that found nothing is where it was. -/
theorem eq_of_drive_none (hseeks : first.Seeks found?)
    (hdrive : first.drive scan = (.ok none, stop)) : stop = scan := by
  rw [hseeks scan] at hdrive
  cases hfound : found? scan with
  | none => simpa [hfound] using hdrive.symm
  | some found => simp [hfound] at hdrive

end Seeks

end VerifierTrace.Reader
