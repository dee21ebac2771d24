/-!
# Failures to decode the small pieces of a line

An opcode byte, a slot name and a register number are decoded on their own, and each can fail.
`DecodeError.message` is the wording of each failure.
-/

set_option autoImplicit false
set_option relaxedAutoImplicit false

namespace VerifierTrace

inductive DecodeError
  /-- The text is not exactly two hexadecimal digits. -/
  | invalidOpcode (text : String)
  /-- The text names no register, no stack slot and not the memory. -/
  | invalidSlot (text : String)
  /-- The number is above that of the last register. -/
  | registerOutOfRange (number : Nat)
  deriving DecidableEq, Repr

def DecodeError.message : DecodeError → String
  | .invalidOpcode text => "invalid opcode byte '" ++ text ++ "' (expected two hex digits)"
  | .invalidSlot text => "invalid slot id '" ++ text ++ "'"
  | .registerOutOfRange number => "register number " ++ number.repr ++ " out of range (r0-r10)"

end VerifierTrace
