import Pdf.Object.Basic

/-! # Trailers — where a reader of the file starts

    The trailer names the catalog and, where they exist, the document
    information, the encryption dictionary, the two parts of the file identifier
    and the offset of an earlier cross-reference section. -/

namespace Pdf

/-- What the trailer of a file says. -/
structure Trailer where
  /-- The catalog. -/
  root : Ref
  /-- The document information. -/
  info : Option Ref := none
  /-- The encryption dictionary. -/
  encrypt : Option Ref := none
  /-- The file identifier. -/
  id : Option (Bytes × Bytes) := none
  /-- The offset of the cross-reference section before this one. -/
  prev : Option UInt64 := none
  deriving DecidableEq

namespace Trailer

/-- The references of the trailer, in the order in which they are checked. -/
def refs (t : Trailer) : List Ref :=
  t.root :: (t.info.toList ++ t.encrypt.toList)

/-- The two parts of an identifier as an array of strings. -/
def idObject (id : Bytes × Bytes) : Object :=
  .array [.string .literal id.1, .string .literal id.2]

/-- The trailer of a file with `size` entries, as a dictionary.  The size is
    written as it is; the object numbers of a file keep it far below 2^32. -/
def dict (t : Trailer) (size : Nat) : Dict :=
  (Dictionary.ofList
      [(.key "Size", .integer size), (.key "Root", .reference t.root)]
    |>.insertIfSome (.key "Info") (t.info.map .reference)
    |>.insertIfSome (.key "Encrypt") (t.encrypt.map .reference)
    |>.insertIfSome (.key "ID") (t.id.map idObject)
    |>.insertIfSome (.key "Prev") (t.prev.map .ofUInt64))

/-- The trailer with an identifier whose two parts are equal. -/
def identified (t : Trailer) (id : Bytes) : Trailer :=
  { t with id := some (id, id) }

end Trailer

end Pdf
