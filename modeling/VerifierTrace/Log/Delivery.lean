import VerifierTrace.Log.Feeding
import VerifierTrace.Text.Utf8

/-!
# Logs from a stream of octets

A stream delivers octets in portions until it ends, or until it fails. `Log.ofDeliveries` collects
the octets of one line after the other, decodes each line on its own and reads it; a failure of the
stream discards what was read before it. Only the stream can fail: octets that are no UTF-8 are
replaced, and a line that is no instruction is kept as it is.
-/

set_option autoImplicit false
set_option relaxedAutoImplicit false

namespace VerifierTrace

/-- What a stream hands over at a time. -/
inductive Delivery
  | octets (octets : List UInt8)
  | failure (cause : String)
  deriving DecidableEq, Repr

/-- Why a log could not be read. -/
structure ReadError where
  cause : String
  deriving DecidableEq, Repr

def ReadError.message (error : ReadError) : String :=
  "failed to read verifier log: " ++ error.cause

/-- A log that is being read, and the octets of the line that is not complete yet. -/
structure Intake where
  log : Log
  held : Array UInt8

namespace Intake

def start : Intake :=
  ⟨.empty Log.defaultMaxDepth, #[]⟩

/-- Reads the octets held back as a line. -/
def flush (intake : Intake) : Intake :=
  ⟨intake.log.push (Utf8.decode intake.held.toList), #[]⟩

/-- Takes one octet; a line feed completes the line. -/
def receive (intake : Intake) (octet : UInt8) : Intake :=
  let collected : Intake := { intake with held := intake.held.push octet }
  if octet = 0x0A then collected.flush else collected

/-- The log at the end of the stream. -/
def finish (intake : Intake) : Log :=
  if intake.held.isEmpty then intake.log else intake.flush.log

/-- Takes everything that a stream delivers. -/
def run (intake : Intake) : List Delivery → Except ReadError Log
  | [] => .ok intake.finish
  | .octets octets :: deliveries => run (octets.foldl receive intake) deliveries
  | .failure cause :: _ => .error ⟨cause⟩

end Intake

/-- The log in a stream. -/
def Log.ofDeliveries (deliveries : List Delivery) : Except ReadError Log :=
  Intake.start.run deliveries

end VerifierTrace
