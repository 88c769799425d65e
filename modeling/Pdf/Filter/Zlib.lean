import Pdf.Bytes

/-! # Zlib — the container of compressed data

    Zlib data is a header, a sequence of blocks and a checksum.  `store` writes
    the data into blocks as it is, at most 65535 bytes in each, and `restore`
    reads such blocks back.

    A compressor is a parameter wherever data is compressed.  `store` is only
    the simplest one: it makes nothing shorter, and it is not the one that files
    are commonly written with. -/

namespace Pdf.Zlib

/-- The two sums of a checksum under way. -/
structure Adler where
  low : Nat := 1
  high : Nat := 0

namespace Adler

/-- The checksum after one more byte. -/
def absorb (a : Adler) (b : UInt8) : Adler :=
  let low := (a.low + b.toNat) % 65521
  ⟨low, (a.high + low) % 65521⟩

end Adler

/-- The checksum of some data, as it stands in a file. -/
def checksum (data : Bytes) : Bytes :=
  let a := data.foldl Adler.absorb {}
  Bytes.bigEndian 2 a.high ++ Bytes.bigEndian 2 a.low

/-- The most bytes that a stored block can hold. -/
def blockSize : Nat := 65535

/-- A stored block. -/
def block (isLast : Bool) (data : Bytes) : Bytes :=
  let size := (Bytes.bigEndian 2 data.length).reverse
  (if isLast then 1 else 0) :: size ++ size.map (255 - ·) ++ data

/-- Data in stored blocks, in at most so many full ones. -/
def blocks : (full : Nat) → Bytes → Bytes
  | 0, data => block true data
  | full + 1, data =>
      if blockSize < data.length then
        block false (data.take blockSize) ++ blocks full (data.drop blockSize)
      else block true data

/-- Data in zlib form, without compression. -/
def store (data : Bytes) : Bytes :=
  [0x78, 0x01] ++ blocks (data.length / blockSize) data ++ checksum data

/-- The data of stored blocks up to the last one, and what stands behind it.
    Each block is shorter than what it is taken from, so as many turns as there
    are bytes are enough. -/
def readBlocks : (turns : Nat) → Bytes → Option (Bytes × Bytes)
  | turns + 1, kind :: l :: h :: nl :: nh :: rest =>
      let size := h.toNat * 256 + l.toNat
      if nl ≠ 255 - l ∨ nh ≠ 255 - h ∨ rest.length < size then none
      else if kind = 1 then some (rest.take size, rest.drop size)
      else if kind = 0 then
        (readBlocks turns (rest.drop size)).map
          fun (data, tail) => (rest.take size ++ data, tail)
      else none
  | _, _ => none

/-- The data that stored blocks hold, if the checksum is right. -/
def restore : Bytes → Option Bytes
  | 0x78 :: 0x01 :: rest =>
      match readBlocks rest.length rest with
      | some (data, tail) => if tail = checksum data then some data else none
      | none => none
  | _ => none

end Pdf.Zlib
