import VerifierTrace.Text.Scan

/-!
# Operators, comparators and source modifiers

The symbols of assignments and comparisons are tried in the order of the tables `AssignOperator.all`
and `Comparator.all`. No symbol stands there after one that begins it (`pairwise_symbol`), so the
first that fits is the longest. In front of the source of an assignment a `Modifier` may stand: a
minus sign, a change of byte order or a sign extension.
-/

set_option autoImplicit false
set_option relaxedAutoImplicit false

namespace VerifierTrace

/-- The operators of assignments. -/
inductive AssignOperator
  | assign
  | add
  | subtract
  | multiply
  | divide
  | remainder
  | bitAnd
  | bitOr
  | bitXor
  | shiftLeft
  | shiftRight
  | signedShiftRight
  | signedShiftLeft
  deriving DecidableEq, Repr

namespace AssignOperator

/-- All operators, longer symbols first. -/
def all : List AssignOperator :=
  [signedShiftRight, signedShiftLeft, shiftLeft, shiftRight, add, subtract, multiply, divide,
    remainder, bitAnd, bitOr, bitXor, assign]

def symbol : AssignOperator → String
  | assign => "="
  | add => "+="
  | subtract => "-="
  | multiply => "*="
  | divide => "/="
  | remainder => "%="
  | bitAnd => "&="
  | bitOr => "|="
  | bitXor => "^="
  | shiftLeft => "<<="
  | shiftRight => ">>="
  | signedShiftRight => "s>>="
  | signedShiftLeft => "s<<="

/-- No symbol stands after one that begins it. -/
theorem pairwise_symbol : all.Pairwise fun earlier later ↦
    Scan.stripStart? earlier.symbol.toList later.symbol.toList = none := by
  decide

/-- Whether the operator reads what it assigns to. -/
def isCompound : AssignOperator → Bool
  | assign => false
  | _ => true

end AssignOperator

/-- The comparators of conditional jumps. -/
inductive Comparator
  | equal
  | notEqual
  | greater
  | greaterEqual
  | less
  | lessEqual
  | signedGreater
  | signedGreaterEqual
  | signedLess
  | signedLessEqual
  | bitTest
  deriving DecidableEq, Repr

namespace Comparator

/-- All comparators, longer symbols first. -/
def all : List Comparator :=
  [signedGreaterEqual, signedLessEqual, equal, notEqual, greaterEqual, lessEqual, signedGreater,
    signedLess, greater, less, bitTest]

def symbol : Comparator → String
  | equal => "=="
  | notEqual => "!="
  | greater => ">"
  | greaterEqual => ">="
  | less => "<"
  | lessEqual => "<="
  | signedGreater => "s>"
  | signedGreaterEqual => "s>="
  | signedLess => "s<"
  | signedLessEqual => "s<="
  | bitTest => "&"

/-- No symbol stands after one that begins it. -/
theorem pairwise_symbol : all.Pairwise fun earlier later ↦
    Scan.stripStart? earlier.symbol.toList later.symbol.toList = none := by
  decide

end Comparator

/-- The order that a byte swap leaves the octets in. -/
inductive ByteOrder
  | big
  | little
  /-- The octets are reversed, whatever their order was. -/
  | swapped
  deriving DecidableEq, Repr

/-- What may stand in front of the source of an assignment. -/
inductive Modifier
  | negate
  | byteSwap (order : ByteOrder) (bits : Nat)
  | signExtend (bits : Nat)
  deriving DecidableEq, Repr

namespace Modifier

/-- The words of the byte swaps. -/
def byteSwaps : List (String × Modifier) :=
  [("bswap16", .byteSwap .swapped 16), ("bswap32", .byteSwap .swapped 32),
    ("bswap64", .byteSwap .swapped 64), ("be16", .byteSwap .big 16), ("be32", .byteSwap .big 32),
    ("be64", .byteSwap .big 64), ("le16", .byteSwap .little 16), ("le32", .byteSwap .little 32),
    ("le64", .byteSwap .little 64)]

/-- The casts of the sign extensions. -/
def casts : List (String × Modifier) :=
  [("(s8)", .signExtend 8), ("(s16)", .signExtend 16), ("(s32)", .signExtend 32)]

/-- A minus sign directly in front of a register letter. -/
def negation? (scan : Scan) : Option (Modifier × Scan) :=
  match scan.literal? "-" with
  | some stop =>
    if stop.rest.head?.any fun letter ↦ letter == 'r' || letter == 'w' then some (.negate, stop)
    else none
  | none => none

/-- The word of a byte swap and blanks after it. -/
def swap? (scan : Scan) : Option (Modifier × Scan) :=
  byteSwaps.findSome? fun (word, modifier) ↦
    ((scan.keyword? word).bind Scan.blanks?).map (modifier, ·)

/-- A cast and any blanks after it. -/
def cast? (scan : Scan) : Option (Modifier × Scan) :=
  casts.findSome? fun (cast, modifier) ↦
    (scan.literal? cast).map fun stop ↦ (modifier, stop.skipBlanks)

/-- Reads a modifier. -/
def read? (scan : Scan) : Option (Modifier × Scan) :=
  ((negation? scan).or (swap? scan)).or (cast? scan)

end Modifier

end VerifierTrace
