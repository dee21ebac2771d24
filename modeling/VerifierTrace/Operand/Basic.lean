import VerifierTrace.Slot.Sorted
import VerifierTrace.Text.Span

/-!
# Operands

An operand is a register, a reference to memory through an address register, or an immediate
number. A reference through the frame pointer names the stack slot at its offset; every other
reference names the memory as a whole and reads its address register.
-/

set_option autoImplicit false
set_option relaxedAutoImplicit false

namespace VerifierTrace

/-- What an operand refers to. -/
inductive Place
  | register (number : UInt8)
  | reference (base : UInt8) (offset : Int32)
  | immediate (value : Int64)
  deriving DecidableEq, Repr

/-- A place, the width of the access to it in octets, and where it stands in the line. -/
structure Operand where
  place : Place
  size : Nat
  span : Span
  deriving DecidableEq, Repr

namespace Operand

/-- An immediate number, which always has eight octets. -/
def immediate (value : Int64) (span : Span) : Operand :=
  ⟨.immediate value, 8, span⟩

/-- The slot that an operand names, unless it is a number. -/
def slot? (operand : Operand) : Option Slot :=
  match operand.place with
  | .register number => some (.register number)
  | .reference base offset =>
    if base = Slot.framePointerNumber then some (.stack offset) else some .memory
  | .immediate _ => none

/-- The address register that must be read to reach the operand: that of a reference outside the
stack. -/
def address? (operand : Operand) : Option Slot :=
  match operand.place with
  | .reference base _ => if base = Slot.framePointerNumber then none else some (.register base)
  | _ => none

/-- The name of the slot, or the number in decimal digits. -/
def text (operand : Operand) : String :=
  match operand.place with
  | .immediate value => Numeral.integerText value.toInt
  | _ => operand.slot?.elim "" Slot.text

end Operand

end VerifierTrace
