import Pdf.Action.Event
import Pdf.Body.Item

/-! # Content — items in the form in which they are written

    An item is filtered first and sealed afterwards.  A cipher is asked for
    every string and for the data of every stream; it is told the object that
    they belong to and the first part of the file identifier, from which
    security handlers derive their keys.  The length of a sealed stream is that
    of the sealed data. -/

namespace Pdf

/-- A function that encrypts data of an object in the file of an identifier. -/
abbrev Cipher : Type := Ref → Bytes → Bytes → Bytes

/-- What is written under an object number. -/
inductive Content where
  | value (object : Object)
  | stream (stream : StreamData)

namespace Content

/-- The content in written form, under its number. -/
def numbered (r : Ref) : Content → Bytes
  | value object => object.numbered r
  | stream s => s.numbered r

/-- The content as one object, without the data of a stream. -/
def object : Content → Object
  | value object => object
  | stream s => .dictionary s.dict

/-- The content with every string and the stream data sealed. -/
def sealed (f : Bytes → Bytes) : Content → Content
  | value object => value (object.mapStrings f)
  | stream s => stream ⟨(s.dict.mapStrings f).withLength (f s.data), f s.data⟩

/-- What is told when the content is written: each number that zero stands
    for. -/
def warnings (c : Content) : List Event :=
  c.object.nonFinite.map .replacedNumber

end Content

namespace Item

/-- What is written for an item before anything is sealed. -/
def encode (settings : Settings) (compressor : Compressor) (r : Ref) :
    Item → Except Error Content
  | value object => .ok (.value object)
  | stream s =>
      match s.encode settings compressor with
      | .ok encoded => .ok (.stream encoded)
      | .error e => .error (e.attributedTo r)

end Item

end Pdf
