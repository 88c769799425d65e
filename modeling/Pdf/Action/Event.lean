import Pdf.Object.Name
import Pdf.Object.Single
import Pdf.Settings

/-! # Events — what is told while a file is written

    Long operations report their steps, and a number that cannot be written is
    reported as a warning.  An event carries facts; `level` and `message` say
    how a log shows it. -/

namespace Pdf

/-- How much an event matters. -/
inductive Level where
  | warn
  | debug
  | trace
  deriving DecidableEq

/-- A step worth telling. -/
inductive Event where
  /-- Zero was written for a number that is not finite. -/
  | replacedNumber (value : Single)
  /-- The version was raised for a cross-reference stream. -/
  | raisedVersion (configured : Version)
  /-- All objects are encoded and are about to be written. -/
  | flushing (objects identities : Nat)
  /-- An object is about to be written. -/
  | writingObject (object : Ref) (offset : Nat)
  /-- A code mapping is about to be loaded. -/
  | loadingMapping (name : String)
  /-- A metric record is about to be read. -/
  | parsingRecord (font : String)
  /-- A font was created. -/
  | createdFont (font encoding : String)
  /-- The objects of a font were stored. -/
  | serializedFont (font : String) (characters : Nat)
  deriving DecidableEq

namespace Event

/-- How much the event matters. -/
def level : Event → Level
  | replacedNumber _ => .warn
  | writingObject _ _ => .trace
  | _ => .debug

/-- The words of the event. -/
def message : Event → String
  | replacedNumber value =>
      "non-finite number " ++ value.nonFiniteName ++ " was written as 0"
  | raisedVersion configured =>
      "raising the version from " ++ configured.describe ++
        " to PDF 1.5 for the cross-reference stream"
  | flushing objects identities =>
      "flushing " ++ toString objects ++ " objects (" ++ toString identities ++
        " identities allocated)"
  | writingObject object offset =>
      "writing object " ++ object.describe ++ " at offset " ++ toString offset
  | loadingMapping name => "loading code mapping " ++ name
  | parsingRecord font => "parsing metric record of " ++ font
  | createdFont font encoding =>
      "created CJK font " ++ font ++ " with " ++ encoding
  | serializedFont font characters =>
      "serialized " ++ font ++ " with " ++ toString characters ++ " used CIDs"

end Event

end Pdf
