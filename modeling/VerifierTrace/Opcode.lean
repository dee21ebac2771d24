import VerifierTrace.DecodeError
import VerifierTrace.Text.Numeral

/-!
# Opcode bytes

Every instruction of a log shows its opcode byte as two hexadecimal digits. The three low bits are
the class of the instruction, the next bit tells a register source from an immediate one, and the
high four bits are the operation code within the class. In the two jump classes the codes `0x0` to
`0xd` are assigned to a `JumpOperation`.

`Opcode.ofText` reads two digits of either case and nothing else, and `Opcode.text` writes them in
lower case; `ofText_text` says that the one undoes the other.
-/

set_option autoImplicit false
set_option relaxedAutoImplicit false

namespace VerifierTrace

/-- The class of an instruction, by its three bits. -/
inductive InstructionClass
  | load
  | loadRegister
  | store
  | storeRegister
  | arithmetic32
  | jump
  | jump32
  | arithmetic64
  deriving DecidableEq, Repr

namespace InstructionClass

/-- All classes in the order of their bits. -/
def all : List InstructionClass :=
  [load, loadRegister, store, storeRegister, arithmetic32, jump, jump32, arithmetic64]

/-- The class in the three low bits of a number. -/
def ofBits (bits : Nat) : InstructionClass :=
  match bits % 8 with
  | 0 => load
  | 1 => loadRegister
  | 2 => store
  | 3 => storeRegister
  | 4 => arithmetic32
  | 5 => jump
  | 6 => jump32
  | _ => arithmetic64

def isJump : InstructionClass → Bool
  | jump | jump32 => true
  | _ => false

def name : InstructionClass → String
  | load => "BPF_LD"
  | loadRegister => "BPF_LDX"
  | store => "BPF_ST"
  | storeRegister => "BPF_STX"
  | arithmetic32 => "BPF_ALU"
  | jump => "BPF_JMP"
  | jump32 => "BPF_JMP32"
  | arithmetic64 => "BPF_ALU64"

end InstructionClass

/-- Where the second operand of an instruction comes from. -/
inductive OperandSource
  | register
  | immediate
  deriving DecidableEq, Repr

/-- The operations of the jump classes. -/
inductive JumpOperation
  | ja
  | jeq
  | jgt
  | jge
  | jset
  | jne
  | jsgt
  | jsge
  | call
  | exit
  | jlt
  | jle
  | jslt
  | jsle
  deriving DecidableEq, Repr

namespace JumpOperation

/-- The operation of a code; the codes from `0xe` on are unassigned. -/
def ofCode? : Nat → Option JumpOperation
  | 0x0 => some ja
  | 0x1 => some jeq
  | 0x2 => some jgt
  | 0x3 => some jge
  | 0x4 => some jset
  | 0x5 => some jne
  | 0x6 => some jsgt
  | 0x7 => some jsge
  | 0x8 => some call
  | 0x9 => some exit
  | 0xa => some jlt
  | 0xb => some jle
  | 0xc => some jslt
  | 0xd => some jsle
  | _ => none

/-- Whether the operation compares two operands. -/
def isConditional : JumpOperation → Bool
  | ja | call | exit => false
  | _ => true

end JumpOperation

/-- An opcode byte. -/
structure Opcode where
  byte : UInt8
  deriving DecidableEq, Repr

namespace Opcode

def instructionClass (opcode : Opcode) : InstructionClass :=
  .ofBits opcode.byte.toNat

/-- The high four bits. -/
def code (opcode : Opcode) : Nat :=
  opcode.byte.toNat / 16

def source (opcode : Opcode) : OperandSource :=
  if opcode.byte.toNat / 8 % 2 = 1 then .register else .immediate

/-- The two jump classes have the low bits 5 and 6. -/
theorem isJump_instructionClass_iff {opcode : Opcode} :
    opcode.instructionClass.isJump ↔
      opcode.byte.toNat % 8 = 5 ∨ opcode.byte.toNat % 8 = 6 := by
  have hsmall : opcode.byte.toNat % 8 < 8 := Nat.mod_lt _ (by decide)
  rw [instructionClass, InstructionClass.ofBits]
  split
  all_goals simp only [InstructionClass.isJump]; grind

theorem isJump_instructionClass_eq_false_iff {opcode : Opcode} :
    opcode.instructionClass.isJump = false ↔
      opcode.byte.toNat % 8 ≠ 5 ∧ opcode.byte.toNat % 8 ≠ 6 := by
  rw [← Bool.not_eq_true, isJump_instructionClass_iff, not_or]

/-- The jump operation of an opcode in a jump class, if its code is assigned. -/
def jumpOperation? (opcode : Opcode) : Option JumpOperation :=
  if opcode.instructionClass.isJump then JumpOperation.ofCode? opcode.code else none

/-- Two lower-case hexadecimal digits. -/
def text (opcode : Opcode) : String :=
  String.ofList [Nat.digitChar (opcode.byte.toNat / 16), Nat.digitChar (opcode.byte.toNat % 16)]

/-- Reads exactly two hexadecimal digits of either case. -/
def ofText (text : String) : Except DecodeError Opcode :=
  match text.toList with
  | [high, low] =>
    match Numeral.hexadecimal? 8 [high, low] with
    | some value => .ok ⟨UInt8.ofNat value⟩
    | none => .error (.invalidOpcode text)
  | _ => .error (.invalidOpcode text)

theorem digitValue_digitChar (nibble : Nat) (hsmall : nibble < 16) :
    (Nat.digitChar nibble).isHexDigit ∧ Numeral.digitValue (Nat.digitChar nibble) = nibble := by
  have hdigits : ∀ nibble : Fin 16, (Nat.digitChar nibble).isHexDigit ∧
      Numeral.digitValue (Nat.digitChar nibble) = nibble := by
    decide
  exact hdigits ⟨nibble, hsmall⟩

/-- Reading the written digits gives the opcode back. -/
theorem ofText_text (opcode : Opcode) : ofText opcode.text = .ok opcode := by
  have hbyte := opcode.byte.toNat_lt
  have hfits : opcode.byte.toNat < Numeral.limit 8 := hbyte
  obtain ⟨hhighDigit, hhigh⟩ := digitValue_digitChar (opcode.byte.toNat / 16) (by omega)
  obtain ⟨hlowDigit, hlow⟩ := digitValue_digitChar (opcode.byte.toNat % 16) (by omega)
  have hvalue : Numeral.ofDigits 16 [Nat.digitChar (opcode.byte.toNat / 16),
      Nat.digitChar (opcode.byte.toNat % 16)] = opcode.byte.toNat := by
    simp only [Numeral.ofDigits, List.foldl_cons, List.foldl_nil, hhigh, hlow]
    omega
  have hfound : Numeral.hexadecimal? 8 [Nat.digitChar (opcode.byte.toNat / 16),
      Nat.digitChar (opcode.byte.toNat % 16)] = some opcode.byte.toNat := by
    simp [Numeral.hexadecimal?, Numeral.isNumeral, hvalue, hhighDigit, hlowDigit, hfits]
  simp only [ofText, text, String.toList_ofList]
  rw [hfound]
  simp

end Opcode

end VerifierTrace
