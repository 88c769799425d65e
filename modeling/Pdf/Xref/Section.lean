import Pdf.Filter.Basic
import Pdf.Output.Writer
import Pdf.Settings
import Pdf.Xref.Entry
import Pdf.Xref.Trailer

/-! # Cross-reference sections — the two forms in which entries are written

    A table has a record of twenty bytes for each entry, and the trailer below
    it.  Its offsets have ten digits; a file with an object beyond them is
    refused as a whole.  A stream packs the entries into rows of equal width,
    compresses them, and carries the trailer in its own dictionary; it is an
    object itself, and the entry of its own number leads to it.

    Both forms end with the offset at which the section starts, and give the
    number of entries under `/Size`.  It is a plain number here.  A file has no
    object number above 8388607, so no section of one has as many entries as
    there are 32-bit numbers. -/

namespace Pdf.Xref

open Bytes (ascii byte)

/-- The last lines of a file. -/
def closing (start : Nat) : Bytes :=
  ascii "startxref\n" ++ Bytes.decimal start ++ ascii "\n%%EOF\n"

/-! ## Tables -/

namespace Entry

/-- The record of an entry: twenty bytes for offsets of up to ten digits. -/
def record : Entry → Bytes
  | free next generation =>
      Bytes.paddedDecimal 10 next.toNat ++ byte ' ' ::
      Bytes.paddedDecimal 5 generation.toNat ++ ascii " f\r\n"
  | inUse offset generation =>
      Bytes.paddedDecimal 10 offset ++ byte ' ' ::
      Bytes.paddedDecimal 5 generation.toNat ++ ascii " n\r\n"

end Entry

/-- The largest offset that a record can hold. -/
def largestOffset : Nat := 9999999999

/-- The error of an entry under a number, if its offset is too large for a
    record. -/
def tableError : Entry × Nat → Option Error
  | (.inUse offset generation, number) =>
      if largestOffset < offset then
        some (.offsetTooLarge ⟨number.toUInt32, generation⟩ offset)
      else none
  | (.free _ _, _) => none

/-- A table that starts at an offset, with its trailer. -/
def table (entries : List Entry) (t : Trailer) (start : Nat) :
    Except Error Bytes :=
  match entries.zipIdx.findSome? tableError with
  | some e => .error e
  | none =>
      .ok (ascii "xref\n0 " ++ Bytes.decimal entries.length ++ ascii "\n" ++
        entries.flatMap Entry.record ++ ascii "trailer\n" ++
        (t.dict entries.length).written ++ ascii "\n" ++ closing start)

/-! ## Streams -/

namespace Entry

/-- The three fields of a row: the kind, the next number or offset, and the
    generation. -/
def fields : Entry → UInt8 × Nat × UInt16
  | free next generation => (0, next.toNat, generation)
  | inUse offset generation => (1, offset, generation)

/-- The row of an entry, with so many bytes for its second field. -/
def row (width : Nat) (e : Entry) : Bytes :=
  e.fields.1 :: Bytes.bigEndian width e.fields.2.1
    ++ Bytes.bigEndian 2 e.fields.2.2.toNat

end Entry

/-- The least number of bytes that holds the second field of every entry. -/
def offsetWidth (entries : List Entry) : Nat :=
  Bytes.byteWidth ((entries.map (·.fields.2.1)).foldl max 0)

/-- The dictionary of a cross-reference stream, before the data is filtered. -/
def streamDict (entries : List Entry) (t : Trailer) : Dict :=
  ((Dict.ofType (.key "XRef")).insertMany (t.dict entries.length).entries
    |>.insert (.key "Index") (.integers [0, entries.length])
    |>.insert (.key "W") (.integers [1, offsetWidth entries, 2]))

/-- A cross-reference stream under its own number that starts at an offset. -/
def stream (settings : Settings) (compressor : Compressor) (places : Places)
    (own : Ref) (t : Trailer) (start : Nat) : Except Error Bytes :=
  let entries := (places.record own start).entries
  let rows := entries.flatMap (Entry.row (offsetWidth entries))
  match filterData compressor true settings.asciiOnly (streamDict entries t)
    rows with
  | .ok s => .ok (s.numbered own ++ closing start)
  | .error e => .error (e.attributedTo own)

/-! ## Writing -/

/-- Writes a section that is laid out for the offset of the writer. -/
def write (layout : Nat → Except Error Bytes) : Action Writer Unit := do
  let w ← Action.read
  let bytes ← Action.ofExcept (layout w.offset)
  Writer.write bytes

end Pdf.Xref
