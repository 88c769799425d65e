import Pdf.Bytes

/-! # UTF-16 — texts as 16-bit code units

    A character of the basic plane is one unit; any other character is a
    surrogate pair.  In a file the units stand in big-endian order. -/

namespace Pdf.Text

/-- The UTF-16 code units of a character. -/
def unitsOfChar (c : Char) : List UInt16 :=
  if c.toNat < 0x10000 then [c.toNat.toUInt16]
  else
    [(0xD800 + (c.toNat - 0x10000) / 0x400).toUInt16,
     (0xDC00 + (c.toNat - 0x10000) % 0x400).toUInt16]

/-- The UTF-16 code units of a text. -/
def units (text : String) : List UInt16 := text.toList.flatMap unitsOfChar

/-- Code units as bytes, the high byte of each unit first. -/
def unitBytes (units : List UInt16) : Bytes :=
  units.flatMap fun u => Bytes.bigEndian 2 u.toNat

end Pdf.Text
