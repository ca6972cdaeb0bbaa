/-
PackageRouting/Digest/Blake3.lean

The 32-byte BLAKE3 digest, which stamps the contents of a manifest.

The input is cut into chunks of 1024 bytes and each chunk into blocks of 64.
A chunk is compressed block by block; the chunks are the leaves of a binary
tree whose left parts are complete, and every inner node compresses the two
chaining values below it.  Pairing neighbours level by level, with an odd last
node carried up, builds that tree.  The node that ends up alone is compressed
once more with the root flag.
-/

namespace PackageRouting.Digest

abbrev Words (n : Nat) := Vector UInt32 n

/-- The initial chaining value. -/
def iv : Words 8 :=
  #v[0x6A09E667, 0xBB67AE85, 0x3C6EF372, 0xA54FF53A, 0x510E527F, 0x9B05688C, 0x1F83D9AB, 0x5BE0CD19]

/-- Where each message word of a round is taken from in the round before. -/
def schedule : Vector (Fin 16) 16 :=
  #v[2, 6, 3, 10, 7, 0, 4, 13, 1, 11, 12, 5, 9, 14, 15, 8]

/-! ### Flags -/

def chunkStart : UInt32 := 1
def chunkEnd : UInt32 := 2
def parentNode : UInt32 := 4
def rootNode : UInt32 := 8

/-! ### Compression -/

def rotateRight (x : UInt32) (n : UInt32) : UInt32 := (x >>> n) ||| (x <<< (32 - n))

/-- The quarter round on four words of the state, with two message words. -/
def quarter (v : Words 16) (a b c d : Fin 16) (x y : UInt32) : Words 16 :=
  let va := v[a] + v[b] + x
  let vd := rotateRight (v[d] ^^^ va) 16
  let vc := v[c] + vd
  let vb := rotateRight (v[b] ^^^ vc) 12
  let va := va + vb + y
  let vd := rotateRight (vd ^^^ va) 8
  let vc := vc + vd
  let vb := rotateRight (vb ^^^ vc) 7
  (((v.set a va).set b vb).set c vc).set d vd

/-- One round: the columns, then the diagonals. -/
def round (v m : Words 16) : Words 16 :=
  let v := quarter v 0 4 8 12 m[0] m[1]
  let v := quarter v 1 5 9 13 m[2] m[3]
  let v := quarter v 2 6 10 14 m[4] m[5]
  let v := quarter v 3 7 11 15 m[6] m[7]
  let v := quarter v 0 5 10 15 m[8] m[9]
  let v := quarter v 1 6 11 12 m[10] m[11]
  let v := quarter v 2 7 8 13 m[12] m[13]
  quarter v 3 4 9 14 m[14] m[15]

/-- A number of rounds, the message rearranged between them. -/
def rounds : Nat → Words 16 → Words 16 → Words 16
  | 0, v, _ => v
  | n + 1, v, m => rounds n (round v m) (schedule.map fun i => m[i])

/-- What is left to compress at a node of the tree. -/
structure Node where
  chaining : Words 8
  block : Words 16
  counter : UInt64
  length : UInt32
  flags : UInt32

/-- The chaining value of a node, with further flags. -/
def Node.compress (n : Node) (more : UInt32) : Words 8 :=
  let v : Words 16 := n.chaining ++ (#v[iv[0], iv[1], iv[2], iv[3], n.counter.toUInt32,
    (n.counter >>> 32).toUInt32, n.length, n.flags ||| more] : Words 8)
  let v := rounds 7 v n.block
  Vector.ofFn fun i : Fin 8 => v[i.val] ^^^ v[i.val + 8]

/-! ### Chunks -/

/-- Four bytes as a word, least first; missing bytes are zero. -/
def wordOf (bytes : List UInt8) : UInt32 :=
  bytes.reverse.foldl (fun w b => (w <<< 8) ||| b.toUInt32) 0

/-- A block of up to 64 bytes as sixteen words. -/
def blockOf (bytes : List UInt8) : Words 16 :=
  Vector.ofFn fun i : Fin 16 => wordOf ((bytes.drop (4 * i.val)).take 4)

/-- The list cut into pieces of `n`, the last one shorter; at most `fuel` pieces. -/
def pieces (n : Nat) : Nat → List UInt8 → List (List UInt8)
  | 0, _ => []
  | fuel + 1, bytes => if bytes.isEmpty then [] else bytes.take n :: pieces n fuel (bytes.drop n)

/-- The list cut into pieces of `n`; a list without bytes is one empty piece. -/
def cutEvery (n : Nat) (bytes : List UInt8) : List (List UInt8) :=
  if bytes.isEmpty then [[]] else pieces n bytes.length bytes

/-- The node of a chunk's last block, from the blocks that are left. -/
def chunkNode (counter : UInt64) (chaining : Words 8) (flags : UInt32) :
    List (List UInt8) → Node
  | [] => ⟨chaining, blockOf [], counter, 0, flags ||| chunkEnd⟩
  | [last] => ⟨chaining, blockOf last, counter, last.length.toUInt32, flags ||| chunkEnd⟩
  | block :: rest =>
    let node : Node := ⟨chaining, blockOf block, counter, block.length.toUInt32, flags⟩
    chunkNode counter (node.compress 0) 0 rest

/-- The leaves of the tree. -/
def leaves (bytes : List UInt8) : List Node :=
  (cutEvery 1024 bytes).zipIdx.map fun (chunk, i) =>
    chunkNode i.toUInt64 iv chunkStart (cutEvery 64 chunk)

/-! ### The tree -/

/-- The node above two nodes. -/
def Node.parent (left right : Node) : Node :=
  ⟨iv, left.compress 0 ++ right.compress 0, 0, 64, parentNode⟩

/-- One level up: neighbours are paired, and an odd last node is carried. -/
def pairUp : List Node → List Node
  | left :: right :: rest => left.parent right :: pairUp rest
  | rest => rest

/-- Levels are paired up until one node is left; each level is shorter, so as many turns as there
are leaves are enough. -/
def top : Nat → List Node → Option Node
  | _, [] => none
  | _, [node] => some node
  | 0, node :: _ => some node
  | turns + 1, nodes => top turns (pairUp nodes)

/-- The digest, as eight words. -/
def words (bytes : List UInt8) : Words 8 :=
  let nodes := leaves bytes
  match top nodes.length nodes with
  | some node => node.compress rootNode
  | none => iv

/-- The two lower-case hexadecimal digits of a byte. -/
def hexOf (b : UInt8) : List Char := [Nat.digitChar (b.toNat / 16), Nat.digitChar (b.toNat % 16)]

/-- The bytes of a word, least first. -/
def bytesOf (w : UInt32) : List UInt8 :=
  [w.toUInt8, (w >>> 8).toUInt8, (w >>> 16).toUInt8, (w >>> 24).toUInt8]

/-- The digest as 64 lower-case hexadecimal digits. -/
def fingerprint (bytes : List UInt8) : String :=
  String.ofList (((words bytes).toList.flatMap bytesOf).flatMap hexOf)

end PackageRouting.Digest
