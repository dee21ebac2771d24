/-!
# Decoding octets as UTF-8 without failing

A log may hold octets that are no UTF-8. They are decoded one at a time: between two characters the
decoder is `ready`, and inside one it knows the bits so far, how many octets are still owed after
the next, and between which bounds the next octet must lie. An octet outside the bounds ends the
character begun before it, which is replaced by U+FFFD as a whole, and is then read afresh; so each
longest beginning of a character that no octet completes is replaced once.
-/

set_option autoImplicit false
set_option relaxedAutoImplicit false

namespace VerifierTrace.Utf8

/-- What stands for octets that are no character. -/
def replacement : Char := '\uFFFD'

/-- Where the decoder stands. -/
inductive State
  | ready
  | inside (bits : Nat) (owed : Nat) (least greatest : UInt8)
  deriving DecidableEq, Repr

/-- The first octet of a character: the characters that it completes, and where it leaves the
decoder. The bounds after `0xE0`, `0xED`, `0xF0` and `0xF4` keep out overlong forms, surrogates and
code points above U+10FFFF. -/
def first (octet : UInt8) : List Char × State :=
  if octet < 0x80 then ([Char.ofNat octet.toNat], .ready)
  else if octet < 0xC2 then ([replacement], .ready)
  else if octet < 0xE0 then ([], .inside (octet.toNat % 32) 0 0x80 0xBF)
  else if octet = 0xE0 then ([], .inside 0 1 0xA0 0xBF)
  else if octet = 0xED then ([], .inside 13 1 0x80 0x9F)
  else if octet < 0xF0 then ([], .inside (octet.toNat % 16) 1 0x80 0xBF)
  else if octet = 0xF0 then ([], .inside 0 2 0x90 0xBF)
  else if octet < 0xF4 then ([], .inside (octet.toNat % 8) 2 0x80 0xBF)
  else if octet = 0xF4 then ([], .inside 4 2 0x80 0x8F)
  else ([replacement], .ready)

/-- One octet. -/
def step : State → UInt8 → List Char × State
  | .ready, octet => first octet
  | .inside bits owed least greatest, octet =>
    if least ≤ octet ∧ octet ≤ greatest then
      let bits := bits * 64 + octet.toNat % 64
      match owed with
      | 0 => ([Char.ofNat bits], .ready)
      | owed + 1 => ([], .inside bits owed 0x80 0xBF)
    else
      let (characters, state) := first octet
      (replacement :: characters, state)

/-- What the end of the octets adds: a character that was not completed is replaced. -/
def finish : State → List Char
  | .ready => []
  | .inside .. => [replacement]

/-- Reads one octet after a text. -/
def append (decoded : String × State) (octet : UInt8) : String × State :=
  let (characters, state) := step decoded.2 octet
  (decoded.1 ++ String.ofList characters, state)

/-- The text of a sequence of octets. -/
def decode (octets : List UInt8) : String :=
  let (text, state) := octets.foldl append ("", .ready)
  text ++ String.ofList (finish state)

end VerifierTrace.Utf8
