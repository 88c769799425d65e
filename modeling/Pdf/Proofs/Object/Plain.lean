import Pdf.Proofs.Object.Leaves

/-! # Plain objects — values without loss

    A real number is rounded when it is written, and verbatim bytes may be
    anything.  An object is plain if it holds neither of them; all that is
    asked about is its leaves, so a container is plain exactly if its parts
    are. -/

namespace Pdf

namespace Object

/-- Whether a leaf is written without loss. -/
def isReadable : Object → Bool
  | real _ => false
  | verbatim _ => false
  | _ => true

/-- Whether an object holds neither real numbers nor verbatim bytes. -/
def isPlain (o : Object) : Bool := o.leaves.all isReadable

/-- An array is plain if its first item and the rest of it are. -/
theorem isPlain_array_cons (item : Object) (items : List Object) :
    (array (item :: items)).isPlain
      = (item.isPlain && (array items).isPlain) :=
  every_array_cons item items

/-- A dictionary is plain if its first value and the rest of it are. -/
theorem isPlain_dictionary_cons (key : Name) (value : Object)
    (entries : List (Name × Object)) :
    (dictionary ⟨(key, value) :: entries⟩).isPlain
      = (value.isPlain && (dictionary ⟨entries⟩).isPlain) :=
  every_dictionary_cons key value entries

/-- An array is plain if its items are. -/
theorem isPlain_array (items : List Object) :
    (array items).isPlain = true ↔ ∀ o ∈ items, o.isPlain = true :=
  every_array items

end Object

namespace Dict

/-- Whether all values of a dictionary are plain. -/
def isPlain (d : Dict) : Bool := (Object.dictionary d).isPlain

end Dict

end Pdf
