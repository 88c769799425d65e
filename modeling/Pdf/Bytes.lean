/-! # Byte strings — how keywords, texts and numbers stand in a file

    A file is a list of bytes.  The format spells its keywords in ASCII, its
    numbers in decimal (bare, signed, or padded to a fixed width), its escapes
    in upper-case hexadecimal and the rows of its binary tables in big-endian
    fields.  Each of these spellings is one function here, and `byteWidth` says
    how wide a big-endian field has to be. -/

namespace Pdf

/-- A byte string, as it stands in a file. -/
abbrev Bytes := List UInt8

namespace Bytes

/-- The byte of an ASCII character. -/
def byte (c : Char) : UInt8 := c.toNat.toUInt8

/-- The bytes of an ASCII text, such as a keyword of the format. -/
def ascii (text : String) : Bytes := text.toList.map byte

/-- The UTF-8 bytes of a text. -/
def utf8 (text : String) : Bytes := text.toList.flatMap String.utf8EncodeChar

/-! ## Numbers in decimal -/

/-- A natural number in decimal, without zeros in front. -/
def decimal (n : Nat) : Bytes := (Nat.toDigits 10 n).map byte

/-- An integer in decimal, with a minus sign in front of a negative one. -/
def signedDecimal (i : Int) : Bytes :=
  if i < 0 then byte '-' :: decimal i.natAbs else decimal i.natAbs

/-- A natural number in decimal, with zeros in front up to `width` digits. -/
def paddedDecimal (width n : Nat) : Bytes :=
  List.replicate (width - (decimal n).length) (byte '0') ++ decimal n

/-! ## Bytes in hexadecimal -/

/-- The hexadecimal digit of a value below 16, in upper case. -/
def hexDigit (value : UInt8) : UInt8 :=
  if value < 10 then 0x30 + value else 0x37 + value

/-- A byte as two hexadecimal digits. -/
def hexPair (b : UInt8) : Bytes := [hexDigit (b / 16), hexDigit (b % 16)]

/-- The value of a hexadecimal digit. -/
def hexValue? (c : UInt8) : Option UInt8 :=
  if byte '0' ≤ c && c ≤ byte '9' then some (c - byte '0')
  else if byte 'A' ≤ c && c ≤ byte 'F' then some (c - byte 'A' + 10)
  else if byte 'a' ≤ c && c ≤ byte 'f' then some (c - byte 'a' + 10)
  else none

/-- Reads one more digit from the right: the low digit of a byte waits for the
    high one. -/
def hexStep (c : UInt8) :
    Option (Bytes × Option UInt8) → Option (Bytes × Option UInt8)
  | some (bytes, none) => (hexValue? c).map fun low => (bytes, some low)
  | some (bytes, some low) =>
      (hexValue? c).map fun high => ((high * 16 + low) :: bytes, none)
  | none => none

/-- The bytes that pairs of hexadecimal digits spell. -/
def ofHexPairs? (digits : Bytes) : Option Bytes :=
  match digits.foldr hexStep (some ([], none)) with
  | some (bytes, none) => some bytes
  | _ => none

/-! ## Big-endian fields -/

/-- The lowest `width` bytes of a number, the most significant one first. -/
def bigEndian : (width n : Nat) → Bytes
  | 0, _ => []
  | width + 1, n => bigEndian width (n / 256) ++ [n.toUInt8]

/-- The number of bytes that a number takes, at least one. -/
def byteWidth (n : Nat) : Nat := n.log2 / 8 + 1

/-! ## Lengths -/

@[simp] theorem length_hexPair (b : UInt8) : (hexPair b).length = 2 := rfl

@[simp] theorem length_bigEndian (width n : Nat) :
    (bigEndian width n).length = width := by
  induction width generalizing n with
  | zero => rfl
  | succ width ih => simp [bigEndian, ih]

/-- Padding reaches the width, and a longer number keeps its digits. -/
theorem length_paddedDecimal (width n : Nat) :
    (paddedDecimal width n).length = max width (decimal n).length := by
  simp [paddedDecimal]; omega

end Bytes

end Pdf
