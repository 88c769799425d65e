import Pdf.Bytes

/-! # SipHash — a 128-bit digest of a byte string

    The digest is SipHash with one round for each word and three at the end,
    both keys zero and 128 bits of output.  Bytes are absorbed one at a time:
    eight of them fill a word, and a full word is mixed into four words of
    state.  The digest of a string therefore depends on its bytes only, and not
    on the pieces in which they arrive. -/

namespace Pdf

/-- A digest. -/
abbrev Digest := BitVec 128

/-- The four words that the rounds of a digest work on. -/
structure SipState where
  v0 : UInt64
  v1 : UInt64
  v2 : UInt64
  v3 : UInt64
  deriving DecidableEq

namespace SipState

/-- A word turned left by less than 64 bits. -/
def rotate (word amount : UInt64) : UInt64 :=
  (word <<< amount) ||| (word >>> (64 - amount))

/-- One round. -/
def round (s : SipState) : SipState :=
  let a0 := s.v0 + s.v1
  let a1 := rotate s.v1 13 ^^^ a0
  let a2 := s.v2 + s.v3
  let a3 := rotate s.v3 16 ^^^ a2
  let b0 := rotate a0 32 + a3
  let b3 := rotate a3 21 ^^^ b0
  let b2 := a2 + a1
  let b1 := rotate a1 17 ^^^ b2
  ⟨b0, b1, rotate b2 32, b3⟩

/-- Mixes a word of the message into the state. -/
def compress (s : SipState) (word : UInt64) : SipState :=
  let r := round { s with v3 := s.v3 ^^^ word }
  { r with v0 := r.v0 ^^^ word }

/-- The state before the first word, for keys of zero and 128 bits of output. -/
def start : SipState :=
  ⟨0x736f6d6570736575, 0x646f72616e646f6d ^^^ 0xee, 0x6c7967656e657261,
    0x7465646279746573⟩

/-- All four words of the state in one. -/
def fold (s : SipState) : UInt64 := s.v0 ^^^ s.v1 ^^^ s.v2 ^^^ s.v3

end SipState

/-- A digest under way: the state, the bytes of the word that is not full yet,
    and the number of bytes absorbed. -/
structure SipHash where
  state : SipState := .start
  word : UInt64 := 0
  absorbed : Nat := 0
  deriving DecidableEq

namespace SipHash

/-- The digest under way after no bytes. -/
def empty : SipHash := {}

/-- The number of bits by which the next byte is shifted into its word. -/
def shift (h : SipHash) : UInt64 := 8 * (h.absorbed % 8).toUInt64

/-- The digest under way after one more byte. -/
def absorb (h : SipHash) (b : UInt8) : SipHash :=
  let word := h.word ||| (b.toUInt64 <<< h.shift)
  if h.absorbed % 8 = 7 then ⟨h.state.compress word, 0, h.absorbed + 1⟩
  else ⟨h.state, word, h.absorbed + 1⟩

/-- The digest under way after some more bytes. -/
def update (h : SipHash) (bytes : Bytes) : SipHash := bytes.foldl absorb h

/-- The digest of all bytes absorbed. -/
def finish (h : SipHash) : Digest :=
  let last := h.word ||| (h.absorbed.toUInt64 <<< 56)
  let s := h.state.compress last
  let low := { s with v2 := s.v2 ^^^ 0xee }.round.round.round
  let high := { low with v1 := low.v1 ^^^ 0xdd }.round.round.round
  high.fold.toBitVec ++ low.fold.toBitVec

/-- The digest of a byte string. -/
def digest (bytes : Bytes) : Digest := (empty.update bytes).finish

/-- A string absorbed in two pieces gives the digest of the whole. -/
theorem update_append (h : SipHash) (a b : Bytes) :
    h.update (a ++ b) = (h.update a).update b := List.foldl_append

end SipHash

end Pdf
