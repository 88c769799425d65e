import Pdf.Bytes

/-! # Settings — how a file is written

    A cross-reference stream needs version 1.5, so asking for one raises an
    older version.  The header names the version that is really written, and the
    marker below it tells transfer programs whether the file is binary. -/

namespace Pdf

/-- A version of the format. -/
inductive Version where
  | v14
  | v15
  | v16
  | v17
  deriving DecidableEq

namespace Version

/-- The digit behind the point. -/
def minor : Version → Nat
  | v14 => 4
  | v15 => 5
  | v16 => 6
  | v17 => 7

/-- Versions are ordered by age. -/
instance : Ord Version := ⟨compareOn minor⟩

/-- The name of a version. -/
def describe (v : Version) : String := "PDF 1." ++ toString v.minor

/-- The first line of a file. -/
def header (v : Version) : Bytes :=
  Bytes.ascii "%PDF-1." ++ Bytes.decimal v.minor ++ Bytes.ascii "\n"

/-- Whether a file of this version may hold a cross-reference stream. -/
def allowsXrefStream (v : Version) : Bool := 5 ≤ v.minor

end Version

/-- The choices that a file is written by. -/
structure Settings where
  /-- Whether streams without a policy of their own are compressed. -/
  compress : Bool := true
  /-- Whether the cross-reference section is a stream and not a table. -/
  xrefAsStream : Bool := false
  /-- Whether binary data is written in hexadecimal. -/
  asciiOnly : Bool := false
  /-- Whether a file without an identifier gets one from its content. -/
  addsId : Bool := true
  /-- The version that is asked for. -/
  version : Version := .v17
  deriving DecidableEq

namespace Settings

/-- Whether the version has to be raised for the cross-reference stream. -/
def raisesVersion (s : Settings) : Bool :=
  s.xrefAsStream && ! s.version.allowsXrefStream

/-- The version that is written. -/
def writtenVersion (s : Settings) : Version :=
  if s.raisesVersion then .v15 else s.version

/-- The comment below the header and the empty line behind it. -/
def marker (s : Settings) : Bytes :=
  if s.asciiOnly then Bytes.ascii "%AAAA\n\n"
  else Bytes.byte '%' :: [0x80, 0x80, 0x80, 0x80] ++ Bytes.ascii "\n\n"

/-- Everything in front of the first object. -/
def preamble (s : Settings) : Bytes := s.writtenVersion.header ++ s.marker

end Settings

end Pdf
