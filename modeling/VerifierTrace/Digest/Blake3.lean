/-!
# The BLAKE3 digest

The unkeyed BLAKE3 digest of 32 octets. The input is cut into chunks of 1024 octets and each chunk
into blocks of 64. The compression function mixes a block into a chaining value of eight words; a
chunk chains its blocks, and the chunks become the leaves of a binary tree whose inner nodes
compress the chaining values of their two children. Neighbours are joined level by level, and a node
without a neighbour goes up to the next level as it is. The topmost node is compressed with a mark
of its own, and the digest is what it gives.
-/

set_option autoImplicit false
set_option relaxedAutoImplicit false

namespace VerifierTrace.Blake3

/-- A chaining value. -/
abbrev Chaining := Vector UInt32 8

/-- The sixteen words of a block, or of the state of the compression. -/
abbrev Words := Vector UInt32 16

/-- The words that every chain begins with. -/
def initialWords : Chaining := #v[
  0x6A09E667, 0xBB67AE85, 0x3C6EF372, 0xA54FF53A, 0x510E527F, 0x9B05688C, 0x1F83D9AB, 0x5BE0CD19]

/-! ### Compression -/

def rotateRight (word : UInt32) (bits : UInt32) : UInt32 :=
  (word >>> bits) ||| (word <<< (32 - bits))

/-- Mixes two words of a block into four words of the state. -/
def mix (state : Words) (a b c d : Fin 16) (first second : UInt32) : Words :=
  let wordA := state[a] + state[b] + first
  let wordD := rotateRight (state[d] ^^^ wordA) 16
  let wordC := state[c] + wordD
  let wordB := rotateRight (state[b] ^^^ wordC) 12
  let wordA := wordA + wordB + second
  let wordD := rotateRight (wordD ^^^ wordA) 8
  let wordC := wordC + wordD
  let wordB := rotateRight (wordB ^^^ wordC) 7
  (((state.set a wordA).set b wordB).set c wordC).set d wordD

/-- The words of the state that the eight mixings of a round work on: its columns, then its
diagonals. The mixing with number `i` takes the words `2 * i` and `2 * i + 1` of the block. -/
def mixings : List ((Fin 16 × Fin 16 × Fin 16 × Fin 16) × Fin 16 × Fin 16) :=
  [((0, 4, 8, 12), 0, 1), ((1, 5, 9, 13), 2, 3), ((2, 6, 10, 14), 4, 5), ((3, 7, 11, 15), 6, 7),
    ((0, 5, 10, 15), 8, 9), ((1, 6, 11, 12), 10, 11), ((2, 7, 8, 13), 12, 13),
    ((3, 4, 9, 14), 14, 15)]

def round (state block : Words) : Words :=
  mixings.foldl (fun state ((a, b, c, d), first, second) ↦
    mix state a b c d block[first] block[second]) state

/-- Where each word of the block of the next round comes from. -/
def permutation : Vector (Fin 16) 16 := #v[
  2, 6, 3, 10, 7, 0, 4, 13, 1, 11, 12, 5, 9, 14, 15, 8]

def permute (block : Words) : Words :=
  permutation.map (block[·])

/-- Runs a number of rounds, with the block permuted between them. -/
def rounds : Nat → Words → Words → Words
  | 0, state, _ => state
  | count + 1, state, block => rounds count (round state block) (permute block)

/-- Mixes a block into a chaining value. -/
def compress (chaining : Chaining) (block : Words) (counter : Nat) (length flags : UInt32) :
    Chaining :=
  let state : Words := chaining ++ #v[initialWords[0], initialWords[1], initialWords[2],
    initialWords[3], UInt32.ofNat counter, UInt32.ofNat (counter / 0x100000000), length, flags]
  let mixed := rounds 7 state block
  Vector.ofFn fun i : Fin 8 ↦ mixed[i.val] ^^^ mixed[i.val + 8]

/-! ### Blocks, chunks and the tree -/

def chunkStart : UInt32 := 1

def chunkEnd : UInt32 := 2

def parentNode : UInt32 := 4

def rootNode : UInt32 := 8

/-- A compression that is still to be done, as it matters whether its node is the root. -/
structure Node where
  chaining : Chaining
  block : Words
  counter : Nat
  length : UInt32
  flags : UInt32

namespace Node

def chainingValue (node : Node) : Chaining :=
  compress node.chaining node.block node.counter node.length node.flags

/-- The compression of the node as the root of the tree. -/
def root (node : Node) : Chaining :=
  compress node.chaining node.block 0 node.length (node.flags ||| rootNode)

/-- The node above two others. -/
def parent (left right : Node) : Node :=
  ⟨initialWords, left.chainingValue ++ right.chainingValue, 0, 64, parentNode⟩

end Node

/-- Cuts octets into pieces of `size + 1`, the last of which may be shorter. There is always one
piece, which is empty when there are no octets. -/
def pieces (size : Nat) (octets : List UInt8) : List (List UInt8) :=
  if octets.length ≤ size + 1 then [octets]
  else octets.take (size + 1) :: pieces size (octets.drop (size + 1))
  termination_by octets.length
  decreasing_by simp only [List.length_drop]; omega

/-- The word of up to four octets, the least significant octet first. -/
def word (octets : List UInt8) : UInt32 :=
  octets.foldr (fun octet word ↦ word <<< 8 ||| octet.toUInt32) 0

/-- The words of up to 64 octets, filled up with zeros. -/
def blockWords (octets : List UInt8) : Words :=
  Vector.ofFn fun i : Fin 16 ↦ word ((octets.drop (4 * i.val)).take 4)

/-- Chains the blocks of a chunk and leaves the compression of the last one to be done. -/
def chainBlocks (counter : Nat) : Chaining → UInt32 → List (List UInt8) → Node
  | chaining, flags, [] => ⟨chaining, blockWords [], counter, 0, flags ||| chunkEnd⟩
  | chaining, flags, [block] =>
    ⟨chaining, blockWords block, counter, UInt32.ofNat block.length, flags ||| chunkEnd⟩
  | chaining, flags, block :: blocks =>
    chainBlocks counter (compress chaining (blockWords block) counter 64 flags) 0 blocks

/-- The leaf of the chunk with a number. -/
def leaf (chunk : List UInt8) (counter : Nat) : Node :=
  chainBlocks counter initialWords chunkStart (pieces 63 chunk)

/-- Joins neighbours. -/
def join : List Node → List Node
  | left :: right :: nodes => .parent left right :: join nodes
  | nodes => nodes

theorem length_join : ∀ nodes : List Node, (join nodes).length = (nodes.length + 1) / 2
  | [] => rfl
  | [_] => by simp [join]
  | left :: right :: nodes => by
    rw [join, List.length_cons, length_join nodes]
    simp only [List.length_cons]
    omega

/-- The topmost node of the tree over a first node and those after it. -/
def top (node : Node) (nodes : List Node) : Node :=
  match nodes with
  | [] => node
  | second :: others => top (.parent node second) (join others)
  termination_by nodes.length
  decreasing_by rw [length_join]; simp only [List.length_cons]; omega

/-- The digest of a sequence of octets. -/
def digest (octets : List UInt8) : List UInt8 :=
  let leaves := (pieces 1023 octets).mapIdx fun counter chunk ↦ leaf chunk counter
  let root : Chaining := match leaves with
    | [] => initialWords
    | node :: nodes => (top node nodes).root
  root.toList.flatMap fun word : UInt32 ↦
    [word.toUInt8, (word >>> 8).toUInt8, (word >>> 16).toUInt8, (word >>> 24).toUInt8]

/-- The digest in lower-case hexadecimal digits. -/
def hexDigest (octets : List UInt8) : String :=
  String.ofList ((digest octets).flatMap fun octet ↦
    [Nat.digitChar (octet.toNat / 16), Nat.digitChar (octet.toNat % 16)])

end VerifierTrace.Blake3
