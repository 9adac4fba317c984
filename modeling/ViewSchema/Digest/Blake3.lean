/-!
# BLAKE3

The BLAKE3 hash of a byte sequence. The input is cut into chunks, each chunk is
compressed block by block into a chaining value, and chaining values are merged
pairwise, an odd one moving up unchanged, until the root gives the digest.
-/

namespace ViewSchema

namespace Blake3

/-- Words of a state, a message block or a chaining value. -/
abbrev Words := Array UInt32

def initialValue : Words :=
  #[0x6A09E667, 0xBB67AE85, 0x3C6EF372, 0xA54FF53A, 0x510E527F, 0x9B05688C, 0x1F83D9AB,
    0x5BE0CD19]

/-- The order in which a round reads the words of the round before. -/
def permutation : List Nat := [2, 6, 3, 10, 7, 0, 4, 13, 1, 11, 12, 5, 9, 14, 15, 8]

def chunkStart : UInt32 := 1

def chunkEnd : UInt32 := 2

def parentNode : UInt32 := 4

def rootNode : UInt32 := 8

def blockBytes : Nat := 64

def chunkBytes : Nat := 1024

def rounds : Nat := 7

def word (ws : Words) (i : Nat) : UInt32 := ws.getD i 0

def rotateRight (x : UInt32) (n : UInt32) : UInt32 := (x >>> n) ||| (x <<< (32 - n))

/-- Mix two message words into four words of the state. -/
def mix (state : Words) (a b c d : Nat) (x y : UInt32) : Words :=
  let va := word state a + word state b + x
  let vd := rotateRight (word state d ^^^ va) 16
  let vc := word state c + vd
  let vb := rotateRight (word state b ^^^ vc) 12
  let va := va + vb + y
  let vd := rotateRight (vd ^^^ va) 8
  let vc := vc + vd
  let vb := rotateRight (vb ^^^ vc) 7
  (((state.setIfInBounds a va).setIfInBounds b vb).setIfInBounds c vc).setIfInBounds d vd

/-- The columns and diagonals that a round mixes, in order. -/
def lanes : List (Nat × Nat × Nat × Nat) :=
  [(0, 4, 8, 12), (1, 5, 9, 13), (2, 6, 10, 14), (3, 7, 11, 15),
    (0, 5, 10, 15), (1, 6, 11, 12), (2, 7, 8, 13), (3, 4, 9, 14)]

/-- One round over a message block. -/
def round (state message : Words) : Words :=
  (lanes.zip (List.range 8)).foldl
    (fun state lane =>
      let ((a, b, c, d), i) := lane
      mix state a b c d (word message (2 * i)) (word message (2 * i + 1)))
    state

def permute (message : Words) : Words := (permutation.map (word message)).toArray

/-- Several rounds, the message being permuted between them. -/
def runRounds : Nat → Words → Words → Words
  | 0, state, _ => state
  | n + 1, state, message => runRounds n (round state message) (permute message)

/-- Compress a block into the next chaining value. -/
def compress (chaining block : Words) (counter length : Nat) (flags : UInt32) : Words :=
  let state := chaining ++ initialValue.extract 0 4
    ++ #[counter.toUInt32, (counter / Nat.pow 2 32).toUInt32, length.toUInt32, flags]
  let out := runRounds rounds state block
  ((List.range 8).map fun i => word out i ^^^ word out (i + 8)).toArray

/-- Little-endian words of at most a block of bytes, filled up with zeros. -/
def blockWords (bytes : List UInt8) : Words :=
  let padded := bytes.toArray
  let byte (i : Nat) : UInt32 := (padded.getD i 0).toUInt32
  ((List.range 16).map fun i =>
    byte (4 * i) ||| (byte (4 * i + 1) <<< 8) ||| (byte (4 * i + 2) <<< 16)
      ||| (byte (4 * i + 3) <<< 24)).toArray

/-- Cut a sequence into pieces of a size; the empty sequence is one piece. At
most `limit` pieces are cut. -/
def cut (size : Nat) : Nat → List UInt8 → List (List UInt8)
  | 0, bytes => [bytes]
  | limit + 1, bytes =>
    if bytes.length ≤ size then [bytes]
    else bytes.take size :: cut size limit (bytes.drop size)

/-- Compress the blocks of a chunk. Flags mark the first and the last block;
`final` flags are added to the last. -/
def compressBlocks (counter : Nat) (final : UInt32) :
    Words → UInt32 → List (List UInt8) → Words
  | chaining, _, [] => chaining
  | chaining, flags, [last] =>
    compress chaining (blockWords last) counter last.length (flags ||| chunkEnd ||| final)
  | chaining, flags, block :: rest =>
    compressBlocks counter final
      (compress chaining (blockWords block) counter block.length flags) 0 rest

/-- The chaining value of a chunk. -/
def chunkValue (counter : Nat) (final : UInt32) (bytes : List UInt8) : Words :=
  compressBlocks counter final initialValue chunkStart (cut blockBytes chunkBytes bytes)

/-- The chaining value of a pair. -/
def parentValue (flags : UInt32) (left right : Words) : Words :=
  compress initialValue (left ++ right) 0 blockBytes (parentNode ||| flags)

/-- Merge neighbours; an odd value at the end moves up. -/
def mergePairs : List Words → List Words
  | left :: right :: rest => parentValue 0 left right :: mergePairs rest
  | rest => rest

/-- Merge until two values are left, which give the root. -/
def rootOf : Nat → List Words → Words
  | _, [left, right] => parentValue rootNode left right
  | 0, _ => initialValue
  | fuel + 1, values => rootOf fuel (mergePairs values)

/-- The words of the digest. -/
def digestWords (bytes : List UInt8) : Words :=
  match cut chunkBytes bytes.length bytes with
  | [chunk] => chunkValue 0 rootNode chunk
  | chunks =>
    rootOf chunks.length ((chunks.zipIdx).map fun (chunk, i) => chunkValue i 0 chunk)

def hexDigit (n : Nat) : Char := (Nat.digitChar n)

/-- Hexadecimal digits of a word, its bytes from the lowest. -/
def wordHex (w : UInt32) : List Char :=
  (List.range 4).flatMap fun i =>
    let byte := (w.toNat / Nat.pow 2 (8 * i)) % 256
    [hexDigit (byte / 16), hexDigit (byte % 16)]

/-- The digest in lower-case hexadecimal. -/
def hexDigest (bytes : List UInt8) : String :=
  String.ofList ((digestWords bytes).toList.flatMap wordHex)

/-- The digest of the encoding of a text. -/
def ofText (text : String) : String := hexDigest text.toUTF8.toList

end Blake3

end ViewSchema
