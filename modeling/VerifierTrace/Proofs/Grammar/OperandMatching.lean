import VerifierTrace.Proofs.Grammar.Literal
import VerifierTrace.Proofs.Grammar.Modifier
import VerifierTrace.Proofs.Grammar.OperandReader
import VerifierTrace.Proofs.Text.Cursor

/-!
# Matching operands with a cursor

The reader of a register, a reference or a number that fails leaves a cursor where it failed, inside
the token. `Reader.operand` runs the readers of a side of an operator as attempts in turn, and so the
cursor moves exactly when an operand is found. No two readers find something at one place, for the
first character of an operand tells its kind (`OperandKind.eq_of_read?`); the readers may therefore
be tried in any order (`Reader.drive_operandOf_perm`). The source of an assignment is read as its
target is, unless it is a number.

`Reader.sourceModifier` looks for a modifier without any attempt around it: a minus sign is looked at
together with the letter after it, each byte swap is an attempt of its own, and a cast is passed as a
whole or not at all. So it does not move the cursor when it finds none (`Reader.seeks_modifier`).

`Operand.matches_atomically` says all of this of every place of a line.
-/

set_option autoImplicit false
set_option relaxedAutoImplicit false

namespace VerifierTrace

open Scan

/-! ### Kinds of operands -/

/-- The ways to write an operand. -/
inductive OperandKind
  | register
  | reference
  | immediate
  deriving DecidableEq, Repr

namespace OperandKind

variable {kind kind' : OperandKind} {scan stop : Scan} {operand : Operand}

def reader : OperandKind → Reader Operand
  | register => .register
  | reference => .reference
  | immediate => .immediate

/-- Reads an operand that is written in one way. -/
def read? : OperandKind → Scan → Option (Operand × Scan)
  | register => Operand.register?
  | reference => Operand.reference?
  | immediate => Operand.immediate?

theorem matcher_reader (kind : OperandKind) (scan : Scan) :
    kind.reader.matcher scan = kind.read? scan := by
  cases kind with
  | register => exact Reader.matcher_register
  | reference => exact Reader.matcher_reference
  | immediate => exact Reader.matcher_immediate

/-- The kind of the operands that begin with a character. -/
def ofFirst? (c : Char) : Option OperandKind :=
  if c == 'r' || c == 'w' then some register
  else if c == '*' then some reference
  else if c == '-' || c.isDigit then some immediate
  else none

theorem ofFirst?_of_isDigit {c : Char} (hdigit : c.isDigit) : ofFirst? c = some immediate := by
  have hne : ∀ other : Char, other.isDigit = false → (c == other) = false := by
    intro other hother
    rw [beq_eq_false_iff_ne]
    rintro rfl
    exact absurd (hdigit.symm.trans hother) (by decide)
  simp [ofFirst?, hne 'r' rfl, hne 'w' rfl, hne '*' rfl, hdigit]

/-- An operand is of the kind that its first character tells. -/
theorem ofFirst?_of_read? (hread : kind.read? scan = some (operand, stop)) :
    scan.rest.head?.bind ofFirst? = some kind := by
  cases kind with
  | register =>
    obtain ⟨form, hpasses, -⟩ := RegisterForm.register?_eq_some_iff.mp hread
    rw [hpasses.head? (rfl : form.text.head? = some form.view.letter)]
    cases form.view with
    | whole => rfl
    | low => rfl
  | reference =>
    obtain ⟨form, hpasses, -⟩ := ReferenceForm.reference?_eq_some_iff.mp hread
    rw [hpasses.head? (rfl : form.text.head? = some '*')]
    rfl
  | immediate =>
    obtain ⟨form, longMark, hpasses, -⟩ := immediate?_eq_some_iff.mp hread
    obtain ⟨after, htext, -⟩ := passes_append.mp hpasses
    obtain ⟨c, hhead, hc⟩ := form.exists_head
    rw [htext.head? hhead, Option.bind_some]
    rcases hc with rfl | hdigit
    · rfl
    · exact ofFirst?_of_isDigit hdigit

/-- At most one kind of operand can be read at a place. -/
theorem eq_of_read? {found found' : Operand × Scan} (hread : kind.read? scan = some found)
    (hread' : kind'.read? scan = some found') : kind = kind' :=
  Option.some.inj ((ofFirst?_of_read? hread).symm.trans (ofFirst?_of_read? hread'))

theorem findSome?_read?_perm {kinds kinds' : List OperandKind} (hperm : kinds.Perm kinds')
    (scan : Scan) : (kinds.findSome? fun kind ↦ kind.read? scan) =
      kinds'.findSome? fun kind ↦ kind.read? scan := by
  have hfind : ∀ (table : List OperandKind) (found : Operand × Scan),
      (table.findSome? fun kind ↦ kind.read? scan) = some found ↔
        ∃ kind ∈ table, kind.read? scan = some found := fun _ _ ↦
    findSome?_eq_some_iff_of_unique fun _ _ _ _ _ _ hread hread' ↦ eq_of_read? hread hread'
  refine Option.ext fun found ↦ ?_
  rw [hfind, hfind]
  simp only [hperm.mem_iff]

end OperandKind

/-- The sides of an operator: on one stands what is assigned to, on the other what has a value. -/
inductive OperandSide
  | target
  | source
  deriving DecidableEq, Repr

namespace OperandSide

/-- The kinds that may stand on a side, in the order in which they are tried. -/
def kinds : OperandSide → List OperandKind
  | target => [.register, .reference]
  | source => [.register, .reference, .immediate]

def read? : OperandSide → Scan → Option (Operand × Scan)
  | target => Operand.target?
  | source => Operand.source?

theorem findSome?_kinds (side : OperandSide) (scan : Scan) :
    (side.kinds.findSome? fun kind ↦ kind.read? scan) = side.read? scan := by
  cases side with
  | target =>
    simp only [kinds, findSome?_cons_eq_or, List.findSome?_nil, Option.or_none]
    rfl
  | source =>
    simp only [kinds, findSome?_cons_eq_or, List.findSome?_nil, Option.or_none, ← Option.or_assoc]
    rfl

end OperandSide

/-! ### The place of an operand -/

/-- The operand covers a text that is not empty and begins at the first place. Between it and the
second place lies nothing or, after a number, blanks and the word `ll`. -/
def Operand.Fills (operand : Operand) (start stop : Scan) : Prop :=
  ∃ (text : List Char) (longMark : Option Gap), text ≠ [] ∧
    Passes (text ++ longMarkText longMark) start stop ∧
      operand.span = ⟨start.offset, octets text⟩ ∧ (longMark.isSome → operand.IsImmediate)

theorem Operand.Fills.offset_lt {operand : Operand} {start stop : Scan}
    (hfills : operand.Fills start stop) : start.offset < stop.offset := by
  obtain ⟨text, longMark, htext, hpasses, -⟩ := hfills
  have hoctets : octets text ≠ 0 := fun hzero ↦ htext (octets_eq_zero_iff.mp hzero)
  rw [hpasses.2, octets_append]
  omega

theorem SourceForm.fills {form : SourceForm} {start stop : Scan}
    (hpasses : Passes form.text start stop) : (form.operand start.offset).Fills start stop := by
  cases form with
  | target form =>
    refine ⟨form.text, none, ?_, ?_, ?_, fun h ↦ absurd h (by decide)⟩
    · exact List.ne_nil_of_mem (List.mem_of_head? form.head?_text)
    · rwa [longMarkText, List.append_nil]
    · cases form with
      | register form => rfl
      | reference form => rfl
  | number form longMark =>
    obtain ⟨c, hhead, -⟩ := form.exists_head
    exact ⟨form.text, longMark, List.ne_nil_of_mem (List.mem_of_head? hhead), hpasses, rfl,
      fun _ ↦ ⟨form.value, rfl⟩⟩

namespace OperandSide

variable {scan stop : Scan} {operand : Operand}

/-- What stands on the side that is assigned to could stand on the other, and is no number. -/
theorem read?_target_eq_some_iff : target.read? scan = some (operand, stop) ↔
    source.read? scan = some (operand, stop) ∧ ¬ operand.IsImmediate := by
  have htarget : ∀ found, Operand.target? scan = some found → ¬ found.1.IsImmediate := by
    rintro ⟨found, place⟩ hread
    obtain ⟨form, -, -, rfl⟩ := TargetForm.target?_eq_some_iff.mp hread
    exact form.not_isImmediate scan.offset
  have hnumber : ∀ found, Operand.immediate? scan = some found → found.1.IsImmediate := by
    rintro ⟨found, place⟩ hread
    obtain ⟨form, -, -, -, rfl⟩ := immediate?_eq_some_iff.mp hread
    exact ⟨form.value, rfl⟩
  rw [read?, read?, Operand.source?]
  cases hread : Operand.target? scan with
  | none =>
    rw [Option.none_or]
    constructor
    · intro h
      cases h
    · rintro ⟨himmediate, hplace⟩
      exact absurd (hnumber _ himmediate) hplace
  | some found =>
    rw [Option.some_or]
    constructor
    · intro hfound
      exact ⟨hfound, htarget _ (hread.trans hfound)⟩
    · exact And.left

theorem fills_of_read? {side : OperandSide} (hread : side.read? scan = some (operand, stop)) :
    operand.Fills scan stop := by
  have hsource : source.read? scan = some (operand, stop) := by
    cases side with
    | target => exact (read?_target_eq_some_iff.mp hread).1
    | source => exact hread
  obtain ⟨form, hpasses, -, rfl⟩ := SourceForm.source?_eq_some_iff.mp hsource
  exact form.fills hpasses

end OperandSide

namespace Reader

variable {scan stop : Scan} {found : Operand} {side : OperandSide}

/-! ### Operands -/

/-- Tries some kinds of operands one after the other, each as an attempt. -/
def operandOf (kinds : List OperandKind) : Reader Operand := do
  let start ← here
  attemptEach (.fault start .expectedOperand) OperandKind.reader kinds

/-- Reads an operand of a side. -/
def operand (side : OperandSide) : Reader Operand := operandOf side.kinds

theorem drive_operandOf (kinds : List OperandKind) (scan : Scan) : (operandOf kinds).drive scan =
    (kinds.findSome? fun kind ↦ kind.read? scan).elim
      (.error (.fault scan.offset .expectedOperand), scan) fun (found, stop) ↦ (.ok found, stop) := by
  show (attemptEach (.fault scan.offset .expectedOperand) OperandKind.reader kinds).drive scan = _
  simp only [drive_attemptEach, OperandKind.matcher_reader]

/-- The kinds may be tried in any order. -/
theorem drive_operandOf_perm {kinds kinds' : List OperandKind} (hperm : kinds.Perm kinds')
    (scan : Scan) : (operandOf kinds).drive scan = (operandOf kinds').drive scan := by
  rw [drive_operandOf, drive_operandOf, OperandKind.findSome?_read?_perm hperm]

theorem drive_operand (side : OperandSide) (scan : Scan) : (operand side).drive scan =
    (side.read? scan).elim (.error (.fault scan.offset .expectedOperand), scan)
      fun (found, stop) ↦ (.ok found, stop) := by
  rw [operand, drive_operandOf, side.findSome?_kinds]

theorem drive_operand_eq_ok_iff :
    (operand side).drive scan = (.ok found, stop) ↔ side.read? scan = some (found, stop) := by
  rw [drive_operand]
  cases side.read? scan with
  | none => simp
  | some result => simp [Prod.ext_iff]

theorem drive_operand_eq_error_iff {error : LineError} :
    (operand side).drive scan = (.error error, stop) ↔ side.read? scan = none ∧
      error = .fault scan.offset .expectedOperand ∧ stop = scan := by
  rw [drive_operand]
  cases side.read? scan with
  | none => simp [eq_comm]
  | some result => simp

/-! ### Modifiers -/

/-- Whether a minus sign and a register letter come next. -/
def beginsNegated : List Char → Bool
  | '-' :: letter :: _ => letter == 'r' || letter == 'w'
  | _ => false

def seekNegation : Reader (Option Modifier) := do
  if beginsNegated (← .rest .done) then
    let _ ← accept "-"
    pure (some .negate)
  else pure none

def seekSwap (swap : String × Modifier) : Reader (Option Modifier) :=
  optional do
    keyword swap.1
    blanks
    pure swap.2

def seekCast (cast : String × Modifier) : Reader (Option Modifier) := do
  if ← accept cast.1 then
    skipBlanks
    pure (some cast.2)
  else pure none

/-- Looks for a modifier in front of the source of an assignment. -/
def sourceModifier : Reader (Option Modifier) :=
  (seekNegation.orNext (search seekSwap Modifier.byteSwaps)).orNext
    (search seekCast Modifier.casts)

theorem beginsNegated_of_minus (hminus : scan.literal? "-" = some stop) :
    beginsNegated scan.rest =
      stop.rest.head?.any fun letter ↦ letter == 'r' || letter == 'w' := by
  rw [(literal?_eq_some_iff.mp hminus).1]
  cases stop.rest with
  | nil => rfl
  | cons letter others => rfl

theorem beginsNegated_of_no_minus (hminus : scan.literal? "-" = none) :
    beginsNegated scan.rest = false := by
  have havoids : scan.Avoids (· == '-') := (literal?_eq_none_iff rfl).mp hminus
  unfold beginsNegated
  split
  · next letter others hrest =>
    rw [Avoids, hrest] at havoids
    exact absurd havoids (by simp)
  · rfl

theorem seeks_negation : seekNegation.Seeks Modifier.negation? := by
  refine .of_matcher fun scan ↦ ?_
  have hahead : (Reader.rest .done).matcher scan = some (scan.rest, scan) := rfl
  simp only [seekNegation, matcher_bind, hahead, Option.bind_some, matcher_ite, matcher_accept,
    matcher_pure, Modifier.negation?]
  cases hminus : scan.literal? "-" with
  | none =>
    rw [beginsNegated_of_no_minus hminus]
    rfl
  | some stop =>
    rw [beginsNegated_of_minus hminus]
    dsimp only
    split
    · rfl
    · rfl

theorem seeks_swap : (search seekSwap Modifier.byteSwaps).Seeks Modifier.swap? := by
  refine Seeks.congr (.search (fun swap ↦ .optional _) _) fun scan ↦ ?_
  rw [← matcher_swap, swap, matcher_firstOf]

theorem seeks_cast : (search seekCast Modifier.casts).Seeks Modifier.cast? := by
  refine Seeks.search (fun cast ↦ .of_matcher fun scan ↦ ?_) _
  obtain ⟨cast, modifier⟩ := cast
  simp only [seekCast, matcher_bind, matcher_accept, Option.bind_some, matcher_ite,
    matcher_skipBlanks, matcher_pure]
  cases scan.literal? cast with
  | none => rfl
  | some stop => rfl

theorem seeks_modifier : sourceModifier.Seeks Modifier.read? :=
  (seeks_negation.orNext seeks_swap).orNext seeks_cast

end Reader

/-! ### Operands at any place -/

namespace Operand

/-- How operands and modifiers are matched with a cursor that stands at a place of a line. -/
structure MatchesAtomically (scan : Scan) : Prop where
  /-- An operand is found exactly when the reader of scans finds it. -/
  reads : ∀ (side : OperandSide) (found : Operand) (stop : Scan),
    (Reader.operand side).drive scan = (.ok found, stop) ↔ side.read? scan = some (found, stop)
  /-- Without an operand the cursor is where it was, and the fault names that place. -/
  stays : ∀ (side : OperandSide) (error : LineError) (stop : Scan),
    (Reader.operand side).drive scan = (.error error, stop) →
      stop = scan ∧ error = .fault scan.offset .expectedOperand
  /-- With an operand the cursor has moved over it, and over no more than the word after a number. -/
  fills : ∀ (side : OperandSide) (found : Operand) (stop : Scan),
    (Reader.operand side).drive scan = (.ok found, stop) →
      scan.offset < stop.offset ∧ found.Fills scan stop
  /-- At most one kind of operand can be read. -/
  unique : ∀ (kind kind' : OperandKind) (found found' : Operand) (stop stop' : Scan),
    kind.reader.drive scan = (.ok found, stop) →
      kind'.reader.drive scan = (.ok found', stop') → kind = kind'
  /-- The order in which the kinds are tried does not matter. -/
  anyOrder : ∀ (side : OperandSide) (kinds : List OperandKind), kinds.Perm side.kinds →
    (Reader.operandOf kinds).drive scan = (Reader.operand side).drive scan
  /-- The sides differ in the numbers alone. -/
  sides : ∀ (found : Operand) (stop : Scan),
    (Reader.operand .target).drive scan = (.ok found, stop) ↔
      (Reader.operand .source).drive scan = (.ok found, stop) ∧ ¬ found.IsImmediate
  /-- Looking for a modifier never fails. -/
  modifierAnswers : ∃ (found : Option Modifier) (stop : Scan),
    Reader.sourceModifier.drive scan = (.ok found, stop)
  /-- A modifier is found exactly when the reader of scans finds it. -/
  modifier : ∀ (found : Modifier) (stop : Scan),
    Reader.sourceModifier.drive scan = (.ok (some found), stop) ↔
      Modifier.read? scan = some (found, stop)
  /-- Without a modifier the cursor is where it was. -/
  modifierStays : ∀ stop : Scan, Reader.sourceModifier.drive scan = (.ok none, stop) → stop = scan

/-- At every place of every line an operand is matched as a whole or not at all, and in one way, and
so is a modifier. -/
theorem matches_atomically (scan : Scan) : MatchesAtomically scan where
  reads side found stop := Reader.drive_operand_eq_ok_iff
  stays side error stop hdrive := by
    obtain ⟨-, herror, hstop⟩ := Reader.drive_operand_eq_error_iff.mp hdrive
    exact ⟨hstop, herror⟩
  fills side found stop hdrive := by
    have hfills := OperandSide.fills_of_read? (Reader.drive_operand_eq_ok_iff.mp hdrive)
    exact ⟨hfills.offset_lt, hfills⟩
  unique kind kind' found found' stop stop' hdrive hdrive' := by
    rw [Reader.drive_eq_ok_iff, OperandKind.matcher_reader] at hdrive hdrive'
    exact OperandKind.eq_of_read? hdrive hdrive'
  anyOrder side kinds hperm := Reader.drive_operandOf_perm hperm scan
  sides found stop := by
    rw [Reader.drive_operand_eq_ok_iff, Reader.drive_operand_eq_ok_iff]
    exact OperandSide.read?_target_eq_some_iff
  modifierAnswers := ⟨_, _, Reader.seeks_modifier scan⟩
  modifier found stop := Reader.seeks_modifier.drive_eq_some_iff
  modifierStays stop hdrive := Reader.seeks_modifier.eq_of_drive_none hdrive

/-- The offset of this reference has no sign. By itself the reader of references stops in front of
it, twelve octets on; among the operands it leaves the cursor where it was. -/
example : (Reader.reference.drive ⟨3, "*(u32 *)(r1 8)".toList⟩).2 = ⟨15, ['8', ')']⟩ ∧
    (Reader.operand .source).drive ⟨3, "*(u32 *)(r1 8)".toList⟩ =
      (.error (.fault 3 .expectedOperand), ⟨3, "*(u32 *)(r1 8)".toList⟩) :=
  ⟨rfl, rfl⟩

end Operand

end VerifierTrace
