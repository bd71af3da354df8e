/-!
# The BLAKE3 digest

A tree hash over byte strings. The input is cut into chunks of 1024 bytes and a chunk into
blocks of 64; a chunk is hashed block by block, and chunks are joined by the left-balanced
binary tree. The last compression of the whole input carries the root flag.

Tables, columns and stores are named by this digest, so everything here is a plain function
on bytes and 32-bit words.
-/

namespace Ripple.Digest

/-- Sixteen words: a message block, or the working state of a compression. -/
abbrev Block := Vector UInt32 16

/-- Eight words carried from one compression to the next. -/
abbrev Chaining := Vector UInt32 8

/-- The chaining value every chunk starts from. -/
def seed : Chaining :=
  #v[0x6A09E667, 0xBB67AE85, 0x3C6EF372, 0xA54FF53A, 0x510E527F, 0x9B05688C, 0x1F83D9AB, 0x5BE0CD19]

def chunkStart : UInt32 := 1
def chunkEnd : UInt32 := 2
def parentNode : UInt32 := 4
def rootNode : UInt32 := 8

/-- Moves every bit `count` places to the right, around the end. -/
def rotateRight (word count : UInt32) : UInt32 :=
  (word >>> count) ||| (word <<< (32 - count))

/-- The quarter round: mixes two message words into four words of the state. -/
def mix (state : Block) (a b c d : Fin 16) (x y : UInt32) : Block :=
  let va := state[a] + state[b] + x
  let vd := rotateRight (state[d] ^^^ va) 16
  let vc := state[c] + vd
  let vb := rotateRight (state[b] ^^^ vc) 12
  let va := va + vb + y
  let vd := rotateRight (vd ^^^ va) 8
  let vc := vc + vd
  let vb := rotateRight (vb ^^^ vc) 7
  (((state.set a va).set b vb).set c vc).set d vd

/-- One round: the four columns, then the four diagonals. -/
def round (state message : Block) : Block :=
  let state := mix state 0 4 8 12 message[0] message[1]
  let state := mix state 1 5 9 13 message[2] message[3]
  let state := mix state 2 6 10 14 message[4] message[5]
  let state := mix state 3 7 11 15 message[6] message[7]
  let state := mix state 0 5 10 15 message[8] message[9]
  let state := mix state 1 6 11 12 message[10] message[11]
  let state := mix state 2 7 8 13 message[12] message[13]
  mix state 3 4 9 14 message[14] message[15]

/-- The order in which the next round reads the message words. -/
def permute (message : Block) : Block :=
  #v[message[2], message[6], message[3], message[10], message[7], message[0], message[4],
    message[13], message[1], message[11], message[12], message[5], message[9], message[14],
    message[15], message[8]]

/-- Runs the remaining rounds, permuting the message between two of them. -/
def rounds : Nat → Block → Block → Block
  | 0, state, _ => state
  | count + 1, state, message => rounds count (round state message) (permute message)

/-- Everything one compression reads. -/
structure Node where
  /-- The chaining value on entry. -/
  chaining : Chaining
  /-- The message block. -/
  message : Block
  /-- Index of the chunk; zero for a parent. -/
  counter : UInt64
  /-- Number of bytes of the block that are input. -/
  length : UInt32
  /-- The position of the block in the tree. -/
  flags : UInt32

/-- The eight words a compression passes on. -/
def Node.compress (node : Node) : Chaining :=
  let cv := node.chaining
  let start : Block :=
    #v[cv[0], cv[1], cv[2], cv[3], cv[4], cv[5], cv[6], cv[7], seed[0], seed[1], seed[2], seed[3],
      node.counter.toUInt32, (node.counter >>> 32).toUInt32, node.length, node.flags]
  let done := rounds 7 start node.message
  #v[done[0] ^^^ done[8], done[1] ^^^ done[9], done[2] ^^^ done[10], done[3] ^^^ done[11],
    done[4] ^^^ done[12], done[5] ^^^ done[13], done[6] ^^^ done[14], done[7] ^^^ done[15]]

/-- The four bytes of a word, least significant first. -/
def wordBytes (word : UInt32) : List UInt8 :=
  [word.toUInt8, (word >>> 8).toUInt8, (word >>> 16).toUInt8, (word >>> 24).toUInt8]

/-- The word whose least significant byte comes first. -/
def bytesWord (a b c d : UInt8) : UInt32 :=
  a.toUInt32 ||| (b.toUInt32 <<< 8) ||| (c.toUInt32 <<< 16) ||| (d.toUInt32 <<< 24)

/-- Reads a block of up to 64 bytes; missing bytes are zero. -/
def blockOf (bytes : List UInt8) : Block :=
  let padded := bytes.toArray
  Vector.ofFn fun i =>
    bytesWord (padded.getD (4 * i.val) 0) (padded.getD (4 * i.val + 1) 0)
      (padded.getD (4 * i.val + 2) 0) (padded.getD (4 * i.val + 3) 0)

/-- Cuts a list into pieces of `size + 1` elements; the last piece may be shorter. -/
def pieces {α : Type} (size : Nat) (items : List α) : List (List α) :=
  if items.isEmpty then []
  else items.take (size + 1) :: pieces size (items.drop (size + 1))
termination_by items.length
decreasing_by
  have : items.length ≠ 0 := by simp_all
  simp only [List.length_drop]
  omega

/-- The compressions of a chunk except the last, which is returned undone. -/
def chunkBlocks (counter : UInt64) (chaining : Chaining) (flags : UInt32) :
    List (List UInt8) → Node
  | [] => ⟨chaining, blockOf [], counter, 0, flags ||| chunkEnd⟩
  | [last] => ⟨chaining, blockOf last, counter, last.length.toUInt32, flags ||| chunkEnd⟩
  | block :: rest =>
    let node : Node := ⟨chaining, blockOf block, counter, block.length.toUInt32, flags⟩
    chunkBlocks counter node.compress 0 rest

/-- The last compression of a chunk. -/
def chunkNode (counter : Nat) (bytes : List UInt8) : Node :=
  chunkBlocks counter.toUInt64 seed chunkStart (pieces 63 bytes)

/-- The compression that joins two subtrees. -/
def parent (left right : Chaining) : Node where
  chaining := seed
  message := left ++ right
  counter := 0
  length := 64
  flags := parentNode

/-- The last compression of a subtree whose first chunk has the given index. The left half
holds the largest power of two of chunks that leaves some for the right half. -/
def treeNode (first : Nat) (chunks : List (List UInt8)) : Node :=
  if chunks.length < 2 then chunkNode first (chunks.headD [])
  else
    let half := 1 <<< (chunks.length - 1).log2
    let left := treeNode first (chunks.take half)
    let right := treeNode (first + half) (chunks.drop half)
    parent left.compress right.compress
termination_by chunks.length
decreasing_by
  all_goals
    have nonzero : chunks.length - 1 ≠ 0 := by omega
    have below := Nat.log2_self_le nonzero
    have positive := Nat.two_pow_pos (chunks.length - 1).log2
    simp only [List.length_take, List.length_drop, Nat.one_shiftLeft]
    omega

/-- The 32 bytes of the digest. -/
def hash (bytes : List UInt8) : List UInt8 :=
  let top := treeNode 0 (pieces 1023 bytes)
  let words := { top with flags := top.flags ||| rootNode }.compress
  words.toList.flatMap wordBytes

/-- The 64-bit word whose least significant byte comes first. -/
def wordOf (bytes : List UInt8) : UInt64 :=
  bytes.foldr (fun byte high => byte.toUInt64 ||| (high <<< 8)) 0

end Ripple.Digest
