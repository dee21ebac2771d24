import VerifierTrace.Fact.Basic
import VerifierTrace.Text.Scan

/-!
# Reading facts

The facts of a line are tokens separated by spaces, after an optional mark such as `frame1:` that
names the call frame of all of them. A token is a key up to an equals sign and a value up to the
next space outside parentheses. A token without an equals sign, or with a key that names no slot,
is passed over, and so the reading never fails. A key ends in `_w`, in either case, when the
instruction of the line wrote the slot.

`FactToken.next?` reads one token and leaves a shorter text (`length_next?`), which makes
`FactToken.all` total.
-/

set_option autoImplicit false
set_option relaxedAutoImplicit false

namespace VerifierTrace

/-- A token: a key, its value unless the equals sign is missing, and where it stands. -/
structure FactToken where
  key : List Char
  value : Option (List Char)
  span : Span
  deriving DecidableEq, Repr

namespace FactToken

/-- The depth of parentheses after a character. -/
def nesting (depth : Nat) : Char → Nat
  | '(' => depth + 1
  | ')' => depth - 1
  | _ => depth

/-- The length of the value that a text begins with: up to the first space outside parentheses. -/
def valueLength (depth : Nat) : List Char → Nat
  | [] => 0
  | c :: text => if c = ' ' ∧ depth = 0 then 0 else valueLength (nesting depth c) text + 1

/-- Reads a value. -/
def readValue (scan : Scan) : List Char × Scan :=
  let text := scan.rest.take (valueLength 0 scan.rest)
  (text, ⟨scan.offset + octets text, scan.rest.drop (valueLength 0 scan.rest)⟩)

/-- The characters of a key. -/
def isKeyChar (c : Char) : Bool :=
  c != '=' && c != ' '

/-- Reads a token that begins here. -/
def read (scan : Scan) : FactToken × Scan :=
  let (key, afterKey) := scan.run isKeyChar
  match afterKey.literal? "=" with
  | none => (⟨key, none, scan.spanTo afterKey⟩, afterKey)
  | some afterSign =>
    let (value, stop) := readValue afterSign
    (⟨key, some value, scan.spanTo stop⟩, stop)

/-- Reads the next token, if any text but blanks is left. -/
def next? (scan : Scan) : Option (FactToken × Scan) :=
  if scan.skipBlanks.atEnd then none else some (read scan.skipBlanks)

theorem reaches_readValue (scan : Scan) : scan.Reaches (readValue scan).2 :=
  ⟨(readValue scan).1, (List.take_append_drop _ _).symm, rfl⟩

theorem length_read {scan : Scan} {c : Char} {rest : List Char} (hrest : scan.rest = c :: rest)
    (hblank : isBlank c = false) : (read scan).2.rest.length < scan.rest.length := by
  have hspace : c ≠ ' ' := by
    rintro rfl
    exact absurd hblank (by decide)
  by_cases hsign : c = '='
  · have hkey : scan.skipWhile isKeyChar = scan := by
      cases scan
      simp_all [Scan.skipWhile, isKeyChar]
    have hliteral : scan.literal? "=" = some ⟨scan.offset + octets ['='], rest⟩ := by
      rw [Scan.literal?_eq_some_iff, hrest, hsign]
      exact ⟨rfl, rfl⟩
    simp only [read, Scan.run, hkey, hliteral]
    have := (reaches_readValue ⟨scan.offset + octets ['='], rest⟩).length_le
    simp only [hrest, List.length_cons] at this ⊢
    omega
  · have hkeyChar : isKeyChar c = true := by simp [isKeyChar, hsign, hspace]
    have hkey : (scan.skipWhile isKeyChar).rest = rest.dropWhile isKeyChar := by
      simp [Scan.skipWhile, hrest, hkeyChar]
    have hshorter := (List.dropWhile_suffix isKeyChar (l := rest)).length_le
    simp only [read, Scan.run]
    split
    · simp only [hkey, hrest, List.length_cons]
      omega
    · next afterSign hfound =>
      have := (Scan.reaches_of_literal? hfound).length_le
      have := (reaches_readValue afterSign).length_le
      simp only [hkey, hrest, List.length_cons] at *
      omega

/-- A token leaves a shorter text. -/
theorem length_next? {scan : Scan} {next : FactToken × Scan} (hfound : next? scan = some next) :
    next.2.rest.length < scan.rest.length := by
  unfold next? at hfound
  split at hfound
  · cases hfound
  · next hend =>
    have hreaches := (scan.reaches_skipBlanks).length_le
    cases hrest : scan.skipBlanks.rest with
    | nil => exact absurd (by simp [Scan.atEnd, hrest]) hend
    | cons c text =>
      have hblank : isBlank c = false := by
        have hhead := List.head?_dropWhile_not isBlank scan.rest
        have hbegins : scan.rest.dropWhile isBlank = c :: text := hrest
        simpa [hbegins] using hhead
      have hshorter := length_read hrest hblank
      rw [← Option.some.inj hfound]
      omega

/-- All tokens of the text that is left. -/
def all (scan : Scan) : List FactToken :=
  match hfound : next? scan with
  | none => []
  | some next =>
    have := length_next? hfound
    next.1 :: all next.2
  termination_by scan.rest.length

end FactToken

namespace Fact

/-- The name in a key, in lower case, and whether the mark `_w` was taken from its end. -/
def slotName (key : List Char) : List Char × Bool :=
  match (key.map Char.toLower).reverse with
  | 'w' :: '_' :: name => (name.reverse, true)
  | name => (name.reverse, false)

/-- The fact that a token states about a frame, if its key names a slot. -/
def ofToken? (depth : Nat) (token : FactToken) : Option Fact :=
  match token.value with
  | none => none
  | some value =>
    let (name, written) := slotName token.key
    match Slot.ofText (String.ofList name) with
    | .error _ => none
    | .ok slot => some ⟨slot, String.ofList value, written, depth, token.span⟩

/-- Reads the mark of a call frame, such as `frame1:`. -/
def frameMark? (scan : Scan) : Option (Nat × Scan) := do
  let word ← scan.literal? "frame"
  let (digits, afterDigits) := word.run Char.isDigit
  let stop ← afterDigits.literal? ":"
  let depth ← Numeral.decimal? 64 digits
  some (depth, stop)

/-- Reads the facts stated in the text that is left. Without a mark they are about the outermost
frame. -/
def read (scan : Scan) : List Fact :=
  let start := scan.skipBlanks
  let (depth, afterMark) := (frameMark? start).getD (0, start)
  (FactToken.all afterMark).filterMap (ofToken? depth)

/-- Reads the facts of a line from a position on, or from the next character after it when the
position lies inside one. -/
def readFrom (line : String) (position : Nat) : List Fact :=
  read (Scan.seek position 0 line.toList)

end Fact

end VerifierTrace
