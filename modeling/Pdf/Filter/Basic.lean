import Pdf.Action.Error
import Pdf.Object.Printer

/-! # Filters — the forms that the data of a stream goes through

    Data may be compressed, and binary data may be spelled in hexadecimal on
    top.  A reader undoes the filters in the order of the `/Filter` entry, so
    the filter applied last is listed first, in front of any filter that the
    dictionary named before.  `/Length` is always the number of bytes that are
    written. -/

namespace Pdf

open Bytes (byte)

/-- A filter that a reader knows how to undo. -/
inductive Filter where
  | flate
  | asciiHex
  | dct
  deriving DecidableEq

namespace Filter

/-- The name that stands in a dictionary. -/
def label : Filter → Name
  | flate => .key "FlateDecode"
  | asciiHex => .key "ASCIIHexDecode"
  | dct => .key "DCTDecode"

/-- Whether the filter leaves bytes outside ASCII. -/
def leavesBinary : Filter → Bool
  | flate => true
  | asciiHex => false
  | dct => true

end Filter

/-- A program that compresses data for the filter `flate`, or says why it
    cannot. -/
abbrev Compressor : Type := Bytes → Except String Bytes

/-! ## Hexadecimal data -/

/-- Data in hexadecimal, in lines of 35 bytes. -/
def hexLines (data : Bytes) : Bytes :=
  data.zipIdx.flatMap fun (b, i) =>
    if i % 35 = 34 then Bytes.hexPair b ++ [byte '\n'] else Bytes.hexPair b

/-- The data that lines of hexadecimal digits spell. -/
def ofHexLines? (lines : Bytes) : Option Bytes :=
  Bytes.ofHexPairs? (lines.filter (· != byte '\n'))

/-! ## Entries of dictionaries -/

namespace Dict

/-- The filters that a dictionary lists, whether as an array or as one entry. -/
def filterList (d : Dict) : List Object :=
  match d.get? (.key "Filter") with
  | some (.array filters) => filters
  | some filter => [filter]
  | none => []

/-- The value of a `/Filter` entry: one filter stands alone, more stand in an
    array. -/
def filterEntry : List Object → Object
  | [filter] => filter
  | filters => .array filters

/-- The dictionary with some filters put in front of the ones it lists.  The
    entry moves to the end. -/
def withFilters (d : Dict) : List Filter → Dict
  | [] => d
  | filters =>
      (d.erase (.key "Filter")).insert (.key "Filter")
        (filterEntry (filters.map (fun f => .name f.label) ++ d.filterList))

/-- The dictionary with the length of the data. -/
def withLength (d : Dict) (data : Bytes) : Dict :=
  d.insert (.key "Length") (.integer data.length)

end Dict

/-- A dictionary with the data that is written behind it. -/
structure StreamData where
  dict : Dict
  data : Bytes

namespace StreamData

/-- A stream in written form, under its number. -/
def numbered (r : Ref) (s : StreamData) : Bytes :=
  numberedStream r s.dict s.data

end StreamData

/-! ## Filtering -/

/-- Data with the filters that a reader has to undo, the one applied last in
    front. -/
structure Filtered where
  data : Bytes
  filters : List Filter := []

namespace Filtered

/-- Data in compressed form. -/
def compressed (compressor : Compressor) (data : Bytes) :
    Except Error Filtered :=
  match compressor data with
  | .ok data => .ok ⟨data, [.flate]⟩
  | .error message => .error (.compressionFailed none message)

/-- Whether the filter applied last leaves binary data. -/
def isBinary (f : Filtered) : Bool := f.filters.head?.any Filter.leavesBinary

/-- The data in hexadecimal, if it is binary and has to be ASCII. -/
def armored (asciiOnly : Bool) (f : Filtered) : Filtered :=
  if asciiOnly && f.isBinary then ⟨hexLines f.data, .asciiHex :: f.filters⟩
  else f

/-- The data behind a dictionary that describes it. -/
def behind (f : Filtered) (d : Dict) : StreamData :=
  ⟨(d.withFilters f.filters).withLength f.data, f.data⟩

end Filtered

/-- Data behind a dictionary, compressed and spelled in hexadecimal as asked. -/
def filterData (compressor : Compressor) (compress asciiOnly : Bool) (d : Dict)
    (data : Bytes) : Except Error StreamData :=
  (if compress then Filtered.compressed compressor data else .ok ⟨data, []⟩).map
    fun f => (f.armored asciiOnly).behind d

end Pdf
