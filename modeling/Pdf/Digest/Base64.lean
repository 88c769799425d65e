import Pdf.Digest.SipHash

/-! # Base64 — byte strings in sixty-four printable characters

    Three bytes become four characters of the standard alphabet; an incomplete
    group at the end is filled up with `=`.  A digest in this spelling is the
    identifier of a file. -/

namespace Pdf.Base64

open Bytes (byte)

/-- The character of a value below 64. -/
def char (value : Nat) : UInt8 :=
  if value < 26 then byte 'A' + value.toUInt8
  else if value < 52 then byte 'a' + (value - 26).toUInt8
  else if value < 62 then byte '0' + (value - 52).toUInt8
  else if value = 62 then byte '+'
  else byte '/'

/-- A byte string in Base64. -/
def encode : Bytes → Bytes
  | a :: b :: c :: rest =>
      char (a.toNat / 4) :: char (a.toNat % 4 * 16 + b.toNat / 16) ::
      char (b.toNat % 16 * 4 + c.toNat / 64) :: char (c.toNat % 64) ::
      encode rest
  | [a, b] =>
      [char (a.toNat / 4), char (a.toNat % 4 * 16 + b.toNat / 16),
        char (b.toNat % 16 * 4), byte '=']
  | [a] => [char (a.toNat / 4), char (a.toNat % 4 * 16), byte '=', byte '=']
  | [] => []

end Pdf.Base64

namespace Pdf

/-- A digest as the identifier of a file: its sixteen bytes in Base64. -/
def Digest.identifier (d : Digest) : Bytes :=
  Base64.encode (Bytes.bigEndian 16 d.toNat)

end Pdf
