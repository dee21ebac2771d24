import VerifierTrace.Fact.Reader
import VerifierTrace.Instruction.Reader
import VerifierTrace.Line.Basic
import VerifierTrace.Text.WhiteSpace

/-!
# Reading lines

An instruction line is `pc: (hh) instruction`, with a decimal program counter and an opcode of two
hexadecimal digits, and then nothing or a semicolon and facts. A line that begins with a semicolon
is a source comment. `Line.ofText` never fails: what follows neither form is kept with its fault.
-/

set_option autoImplicit false
set_option relaxedAutoImplicit false

namespace VerifierTrace

namespace Scan

/-- Passes a punctuation character. -/
def character (scan : Scan) (expected : Char) : Except LineError Scan :=
  scan.require (scan.literal? (String.singleton expected)) (.expectedCharacter expected)

/-- Reads a program counter below `2 ^ 64`. -/
def programCounter (scan : Scan) : Except LineError (Nat × Scan) :=
  let (digits, stop) := scan.run Char.isDigit
  scan.require ((Numeral.decimal? 64 digits).map (·, stop)) .missingProgramCounter

/-- The characters that may stand for an opcode: all up to a closing parenthesis or a space. -/
def isOpcodeChar (c : Char) : Bool :=
  c != ')' && c != ' '

/-- Reads an opcode byte in parentheses. -/
def opcode (scan : Scan) : Except LineError (Opcode × Scan) := do
  let start ← scan.character '('
  let (digits, afterDigits) := start.run isOpcodeChar
  match Opcode.ofText (String.ofList digits) with
  | .error cause => start.fault (.badOpcode cause)
  | .ok opcode =>
    let stop ← afterDigits.character ')'
    return (opcode, stop)

end Scan

namespace Line

/-- Reads a source comment whose semicolon has been passed. -/
def readSourceComment (scan : Scan) : LineContent :=
  let start := scan.skipBlanks
  .sourceComment ⟨start.offset, octets (trimEnd start.rest)⟩

/-- Reads what may follow an instruction: nothing, or a semicolon and facts. -/
def readFacts (scan : Scan) : Except LineError (List Fact) :=
  let start := scan.skipBlanks
  if start.atEnd then .ok []
  else
    match start.literal? ";" with
    | some comment => .ok (Fact.read comment)
    | none => start.fault (.trailingText (String.ofList (trimEnd start.rest)))

/-- Reads an instruction and its facts. -/
def readInstruction (scan : Scan) : Except LineError LineContent := do
  let (pc, afterCounter) ← scan.programCounter
  let afterColon ← afterCounter.character ':'
  let (opcode, afterOpcode) ← afterColon.skipBlanks.opcode
  let (instruction, stop) ← Instruction.read pc opcode afterOpcode.skipBlanks
  let facts ← readFacts stop
  return .instruction instruction facts

/-- Reads a line without its end. -/
def readContent (scan : Scan) : Except LineError LineContent :=
  let start := scan.skipBlanks
  if start.atEnd then .error .empty
  else
    match start.literal? ";" with
    | some comment => .ok (readSourceComment comment)
    | none => readInstruction start

/-- A text without the line feeds and carriage returns at its end. -/
def withoutLineEnd (text : String) : String :=
  String.ofList (trimEndWhile isLineEnd text.toList)

/-- Reads a line. -/
def ofText (text : String) : Line :=
  let raw := withoutLineEnd text
  match readContent (Scan.ofText raw) with
  | .ok content => ⟨raw, content⟩
  | .error error => ⟨raw, .unrecognized error⟩

end Line

end VerifierTrace
