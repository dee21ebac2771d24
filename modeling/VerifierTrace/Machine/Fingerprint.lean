import VerifierTrace.Digest.Blake3
import VerifierTrace.Machine.Hashing

/-!
# Fingerprints

The fingerprint that programs show is the BLAKE3 digest in hexadecimal digits. The hasher keeps what
it takes and digests it at the end, so that it does not see where a portion ends.
-/

set_option autoImplicit false
set_option relaxedAutoImplicit false

namespace VerifierTrace

def Blake3.hasher : Hasher ByteArray String where
  start := .empty
  update := fun taken octets ↦ taken ++ octets
  finish := fun taken ↦ hexDigest taken.toList

theorem Blake3.concatenates_hasher : hasher.Concatenates :=
  fun _ _ _ ↦ ByteArray.append_assoc

/-- The digest of the rendering in hexadecimal digits. -/
def Machine.fingerprint (machine : Machine) : String :=
  machine.fingerprintWith Blake3.hasher

end VerifierTrace
