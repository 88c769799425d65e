import Pdf.Filter.Basic
import Pdf.Settings

/-! # Streams — data with a dictionary and a policy

    The policy of a stream says whether its data is compressed.  Data that is
    encoded already is written as it is, with its filter listed. -/

namespace Pdf

/-- How the data of a stream is to be encoded. -/
inductive Policy where
  /-- Compressed if the settings say so. -/
  | automatic
  /-- Always compressed. -/
  | compressed
  /-- Never compressed. -/
  | uncompressed
  /-- Encoded already; the filter is listed but not applied. -/
  | encoded (filter : Filter)
  deriving DecidableEq

/-- Data with a dictionary and a policy. -/
structure Stream where
  dict : Dict := .empty
  data : Bytes
  policy : Policy := .automatic

namespace Stream

/-- The data of a stream under its policy. -/
def filtered (settings : Settings) (compressor : Compressor) (s : Stream) :
    Except Error Filtered :=
  match s.policy with
  | .automatic =>
      if settings.compress then Filtered.compressed compressor s.data
      else .ok ⟨s.data, []⟩
  | .compressed => Filtered.compressed compressor s.data
  | .uncompressed => .ok ⟨s.data, []⟩
  | .encoded filter => .ok ⟨s.data, [filter]⟩

/-- A stream as it is written under some settings. -/
def encode (settings : Settings) (compressor : Compressor) (s : Stream) :
    Except Error StreamData :=
  (s.filtered settings compressor).map
    fun f => (f.armored settings.asciiOnly).behind s.dict

end Stream

end Pdf
