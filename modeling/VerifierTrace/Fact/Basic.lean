import VerifierTrace.Slot.Basic
import VerifierTrace.Text.Span

/-!
# Facts about slots

After an instruction a line may state what is known of some slots, such as `R2_w=1`: the slot, the
text of its value, whether the instruction wrote it, and the call frame that the statement is about.
-/

set_option autoImplicit false
set_option relaxedAutoImplicit false

namespace VerifierTrace

structure Fact where
  slot : Slot
  value : String
  /-- Whether the fact is marked as a result of the line's own instruction. -/
  written : Bool
  /-- The depth of the call frame that the fact is about. -/
  depth : Nat
  span : Span
  deriving DecidableEq, Repr

end VerifierTrace
