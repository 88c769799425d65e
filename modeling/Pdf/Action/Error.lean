import Pdf.Object.Name

/-! # Errors — the causes for which a file cannot be written

    Each cause carries the facts that its message needs.  `message` is the only
    place that words them. -/

namespace Pdf

/-- What kind of failure a sink or a source of fonts reports.  A call that is
    interrupted has no kind here: it takes nothing and is made again until it is
    answered, so that interruptions never show. -/
inductive IoErrorKind where
  | notFound
  | permissionDenied
  | unexpectedEof
  | writeZero
  | other
  deriving DecidableEq

/-- A failure of a sink or of a source of fonts. -/
structure IoError where
  kind : IoErrorKind
  message : String
  deriving DecidableEq

/-- A cause of failure. -/
inductive Error where
  /-- The font does not exist or does not support the encoding. -/
  | unsupportedFont (font encoding : String)
  /-- A code mapping, an encoding or a font has no entry under this name. -/
  | missingResource (name : String)
  /-- A field of a metric record is missing or cannot be read. -/
  | malformedField (font field : String)
  /-- A reference to an object that was never stored. -/
  | danglingReference (target : Ref) (referrer : Option Ref)
  /-- The compressor refused the data of a stream. -/
  | compressionFailed (object : Option Ref) (message : String)
  /-- There is no object number left. -/
  | numbersExhausted
  /-- An object starts beyond the offsets that a table can hold. -/
  | offsetTooLarge (object : Ref) (offset : Nat)
  /-- An object is already stored under the reference. -/
  | alreadyStored (object : Ref)
  /-- The sink or the source of fonts failed. -/
  | io (cause : IoError)
  /-- A metric does not fit into 32 bits. -/
  | overflow
  deriving DecidableEq

namespace Error

/-- The words of an error. -/
def message : Error → String
  | unsupportedFont font encoding =>
      "font '" ++ font ++ "' with '" ++ encoding ++
        "' encoding is not a CJK font"
  | missingResource name =>
      "the encoding resource '" ++ name ++ "' does not exist"
  | malformedField font field =>
      "malformed metric record for font '" ++ font ++ "': field '" ++ field ++
        "'"
  | danglingReference target none =>
      "object " ++ target.describe ++ " is referenced but was never registered"
  | danglingReference target (some referrer) =>
      "object " ++ target.describe ++ " is referenced by object " ++
        referrer.describe ++ " but was never registered"
  | compressionFailed none message => "failed to encode stream: " ++ message
  | compressionFailed (some object) message =>
      "failed to encode stream of object " ++ object.describe ++ ": " ++ message
  | numbersExhausted => "no more object identities are available"
  | offsetTooLarge object offset =>
      "offset " ++ toString offset ++ " of object " ++ object.describe ++
        " does not fit into a cross-reference table"
  | alreadyStored object =>
      "object " ++ object.describe ++ " has already been registered"
  | io cause => cause.message
  | overflow => "a metric does not fit into 32 bits"

/-- The error with the object that a codec failure belongs to, where it is not
    known yet. -/
def attributedTo (object : Ref) : Error → Error
  | compressionFailed none message => compressionFailed (some object) message
  | e => e

end Error

end Pdf
