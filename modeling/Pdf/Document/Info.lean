import Pdf.Body.Basic

/-! # Document information — what a document says about itself

    Each field that is set becomes one text string of the document information
    dictionary.  Lists of authors and of keywords are joined by commas.  A
    document that says nothing has no such dictionary. -/

namespace Pdf

/-- What a document says about itself. -/
structure Info where
  title : Option String := none
  authors : Option (List String) := none
  subject : Option String := none
  keywords : Option (List String) := none
  creator : Option String := none
  producer : Option String := none
  deriving DecidableEq

namespace Info

/-- The texts of the fields that are set, under their names. -/
def texts (i : Info) : List (Name × String) :=
  [(Name.key "Title", i.title),
   (Name.key "Author", i.authors.map (String.intercalate ", ")),
   (Name.key "Subject", i.subject),
   (Name.key "Keywords", i.keywords.map (String.intercalate ", ")),
   (Name.key "Creator", i.creator),
   (Name.key "Producer", i.producer)].filterMap
     fun (key, text) => text.map (key, ·)

/-- The document information dictionary. -/
def dictionary (i : Info) : Dict :=
  Dictionary.ofList (i.texts.map fun (key, text) => (key, .text text))

/-- Whether any field is set. -/
def isSet (i : Info) : Bool := ! i.texts.isEmpty

/-- Stores the document information, if any field is set. -/
def store (i : Info) : Action Body (Option Ref) :=
  if i.isSet then do
    let r ← Body.add (.value (.dictionary i.dictionary))
    return some r
  else return none

end Info

end Pdf
