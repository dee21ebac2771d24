import VerifierTrace.Operand.Basic
import VerifierTrace.Text.Scan
import VerifierTrace.Word

/-!
# Reading operands

A register is written `r0` to `r10`, or `w0` to `w9` for its low half; a reference is written
`*(u32 *)(r1 +8)`, with blanks allowed between its tokens; an immediate number is decimal or
hexadecimal after `0x`, with an optional minus sign. Its digits become a word, and a minus sign
negates the word, which may wrap around. Each reader answers with the operand and the place after
it, or with nothing. A number may be followed by the word `ll`, which is passed without belonging to
the operand.
-/

set_option autoImplicit false
set_option relaxedAutoImplicit false

namespace VerifierTrace.Operand

/-- The widths of a reference and their octets. -/
def widths : List (String × Nat) :=
  [("u8", 1), ("u16", 2), ("u32", 4), ("u64", 8)]

/-- A letter and the number of octets and last register number of the view that it stands for. -/
def registerView? : Char → Option (Nat × Nat)
  | 'r' => some (8, 10)
  | 'w' => some (4, 9)
  | _ => none

/-- Reads a register name that no word character follows: its number, the octets of the view, and
the place after it. -/
def registerName? (scan : Scan) : Option ((UInt8 × Nat) × Scan) :=
  match scan.rest with
  | [] => none
  | letter :: rest =>
    match registerView? letter with
    | none => none
    | some (size, last) =>
      let (digits, stop) := (Scan.mk (scan.offset + letter.utf8Size) rest).run Char.isDigit
      match Slot.registerNumber? digits with
      | none => none
      | some number =>
        if number ≤ last && !stop.continuesWord then some ((UInt8.ofNat number, size), stop)
        else none

def register? (scan : Scan) : Option (Operand × Scan) :=
  (registerName? scan).map fun ((number, size), stop) ↦
    (⟨.register number, size, scan.spanTo stop⟩, stop)

/-- Reads a sign and decimal digits as an offset of 32 bits. -/
def offset? (scan : Scan) : Option (Int32 × Scan) :=
  match scan.rest with
  | [] => none
  | sign :: rest =>
    let (digits, stop) := (Scan.mk (scan.offset + sign.utf8Size) rest).run Char.isDigit
    (Numeral.signed? 32 (sign :: digits)).map fun value ↦ (Int32.ofInt value, stop)

def reference? (scan : Scan) : Option (Operand × Scan) := do
  let opened ← scan.literal? "*("
  let (size, typed) ← widths.findSome? fun (word, size) ↦
    (opened.skipBlanks.keyword? word).map (size, ·)
  let cast ← typed.skipBlanks.literal? "*)"
  let address ← cast.skipBlanks.literal? "("
  let ((base, _), based) ← registerName? address.skipBlanks
  let (offset, displaced) ← offset? based.skipBlanks
  let stop ← displaced.skipBlanks.literal? ")"
  some (⟨.reference base offset, size, scan.spanTo stop⟩, stop)

/-- Reads the digits of a number below `2 ^ 64` as a word, hexadecimal after `0x` or `0X`. -/
def magnitude? (scan : Scan) : Option (Int64 × Scan) :=
  match (scan.literal? "0x").or (scan.literal? "0X") with
  | some marked =>
    let (digits, stop) := marked.run Char.isHexDigit
    (Word.ofHexadecimal? digits).map (·, stop)
  | none =>
    let (digits, stop) := scan.run Char.isDigit
    (Word.ofDecimal? digits).map (·, stop)

/-- Passes blanks and the word `ll`, if they come next. -/
def skipLongMark (scan : Scan) : Scan :=
  (scan.blanks?.bind (·.keyword? "ll")).getD scan

/-- Passes a minus sign, if it comes next, and tells whether it did. -/
def minus (scan : Scan) : Bool × Scan :=
  match scan.literal? "-" with
  | some unsigned => (true, unsigned)
  | none => (false, scan)

def immediate? (scan : Scan) : Option (Operand × Scan) :=
  let (negative, unsigned) := minus scan
  match magnitude? unsigned with
  | none => none
  | some (magnitude, stop) =>
    if stop.continuesWord then none
    else
      let value := if negative then -magnitude else magnitude
      some (immediate value (scan.spanTo stop), skipLongMark stop)

/-- Reads an operand that can be assigned to. -/
def target? (scan : Scan) : Option (Operand × Scan) :=
  (register? scan).or (reference? scan)

/-- Reads an operand that has a value. -/
def source? (scan : Scan) : Option (Operand × Scan) :=
  (target? scan).or (immediate? scan)

end VerifierTrace.Operand
