import Pdf.Object.Dictionary
import Pdf.Object.Single
import Pdf.Text.Utf16

/-! # Objects — the values that a file is made of

    There are ten kinds of value.  Arrays and dictionaries nest; the other kinds
    are leaves, and `leaves` lists them in the order in which they are written.
    A text becomes a string object in one of two ways: ASCII text stands as it
    is, any other text as UTF-16 behind a byte order mark. -/

namespace Pdf

/-- How a string object is written. -/
inductive StringForm where
  /-- Between parentheses, with escapes. -/
  | literal
  /-- Between angle brackets, in hexadecimal. -/
  | hex
  deriving DecidableEq

/-- A value of the format. -/
inductive Object where
  | null
  | bool (value : Bool)
  | integer (value : Int)
  | real (value : Single)
  | name (value : Name)
  | string (form : StringForm) (bytes : Bytes)
  /-- Bytes that are already in written form. -/
  | verbatim (bytes : Bytes)
  | array (items : List Object)
  | dictionary (entries : Dictionary Object)
  | reference (target : Ref)

/-- A dictionary of objects. -/
abbrev Dict := Dictionary Object

namespace Object

/-! ## Construction -/

/-- An array of integers. -/
def integers (values : List Int) : Object := array (values.map integer)

/-- A string object with the UTF-8 bytes of a text. -/
def utf8Text (text : String) : Object := string .literal (Bytes.utf8 text)

/-- A text string: ASCII text as it is, any other text as UTF-16 behind a byte
    order mark. -/
def text (text : String) : Object :=
  if text.toList.all (·.toNat < 0x80) then string .literal (Bytes.ascii text)
  else string .hex (0xFE :: 0xFF :: Text.unitBytes (Text.units text))

/-- An unsigned 64-bit number as the signed number of the same bits. -/
def ofUInt64 (value : UInt64) : Object := integer value.toInt64.toInt

/-! ## Kinds -/

/-- The dictionary, if the object is one. -/
def dictionary? : Object → Option Dict
  | dictionary entries => some entries
  | _ => none

/-- The name, if the object is one. -/
def name? : Object → Option Name
  | name value => some value
  | _ => none

/-- The integer, if the object is one. -/
def integer? : Object → Option Int
  | integer value => some value
  | _ => none

/-- The real number, if the object is one. -/
def real? : Object → Option Single
  | real value => some value
  | _ => none

/-- The reference, if the object is one. -/
def reference? : Object → Option Ref
  | reference target => some target
  | _ => none

/-! ## Leaves -/

mutual

/-- The values inside an object that are neither arrays nor dictionaries, in the
    order in which they are written. -/
def leaves : Object → List Object
  | array items => leavesOfItems items
  | dictionary entries => leavesOfDict entries
  | leaf => [leaf]

/-- The leaves of the items of an array. -/
def leavesOfItems : List Object → List Object
  | [] => []
  | item :: items => item.leaves ++ leavesOfItems items

/-- The leaves of the values of a dictionary. -/
def leavesOfDict : Dictionary Object → List Object
  | ⟨entries⟩ => leavesOfEntries entries

/-- The leaves of the values of some entries. -/
def leavesOfEntries : List (Name × Object) → List Object
  | [] => []
  | entry :: entries => leavesOfEntry entry ++ leavesOfEntries entries

/-- The leaves of the value of an entry. -/
def leavesOfEntry : Name × Object → List Object
  | (_, value) => value.leaves

end

theorem leavesOfItems_eq (items : List Object) :
    leavesOfItems items = items.flatMap leaves := by
  induction items with
  | nil => rfl
  | cons item items ih => rw [leavesOfItems, ih, List.flatMap_cons]

theorem leavesOfEntries_eq (entries : List (Name × Object)) :
    leavesOfEntries entries = entries.flatMap fun entry => entry.2.leaves := by
  induction entries with
  | nil => rfl
  | cons entry entries ih =>
      rw [leavesOfEntries, ih, List.flatMap_cons, leavesOfEntry]

/-- The references inside an object, in the order in which they are written. -/
def refs (o : Object) : List Ref := o.leaves.filterMap reference?

/-- The numbers inside an object that zero has to stand for, in the order in
    which they are written. -/
def nonFinite (o : Object) : List Single :=
  (o.leaves.filterMap real?).filter (! ·.isFinite)

/-! ## Strings -/

mutual

/-- The object with the bytes of every string in it changed; all else stays as
    it is. -/
def mapStrings (f : Bytes → Bytes) : Object → Object
  | string form bytes => string form (f bytes)
  | array items => array (mapStringsOfItems f items)
  | dictionary entries => dictionary (mapStringsOfDict f entries)
  | leaf => leaf

/-- The items of an array with the bytes of every string in them changed. -/
def mapStringsOfItems (f : Bytes → Bytes) : List Object → List Object
  | [] => []
  | item :: items => item.mapStrings f :: mapStringsOfItems f items

/-- A dictionary with the bytes of every string in its values changed. -/
def mapStringsOfDict (f : Bytes → Bytes) : Dictionary Object → Dictionary Object
  | ⟨entries⟩ => ⟨mapStringsOfEntries f entries⟩

/-- Some entries with the bytes of every string in their values changed. -/
def mapStringsOfEntries (f : Bytes → Bytes) :
    List (Name × Object) → List (Name × Object)
  | [] => []
  | entry :: entries =>
      mapStringsOfEntry f entry :: mapStringsOfEntries f entries

/-- An entry with the bytes of every string in its value changed. -/
def mapStringsOfEntry (f : Bytes → Bytes) : Name × Object → Name × Object
  | (key, value) => (key, value.mapStrings f)

end

theorem mapStringsOfItems_eq (f : Bytes → Bytes) (items : List Object) :
    mapStringsOfItems f items = items.map (mapStrings f) := by
  induction items with
  | nil => rfl
  | cons item items ih => rw [mapStringsOfItems, ih, List.map_cons]

theorem mapStringsOfEntries_eq (f : Bytes → Bytes)
    (entries : List (Name × Object)) :
    mapStringsOfEntries f entries
      = entries.map fun entry => (entry.1, entry.2.mapStrings f) := by
  induction entries with
  | nil => rfl
  | cons entry entries ih =>
      rw [mapStringsOfEntries, ih, List.map_cons, mapStringsOfEntry]

end Object

namespace Dict

/-- A dictionary that starts with a `/Type` entry. -/
def ofType (type : Name) : Dict :=
  Dictionary.empty.insert (.key "Type") (.name type)

/-- The references inside a dictionary, in the order in which they are
    written. -/
def refs (d : Dict) : List Ref := (Object.dictionary d).refs

/-- The numbers inside a dictionary that zero has to stand for. -/
def nonFinite (d : Dict) : List Single := (Object.dictionary d).nonFinite

/-- The dictionary with the bytes of every string in its values changed. -/
def mapStrings (f : Bytes → Bytes) (d : Dict) : Dict :=
  Object.mapStringsOfDict f d

end Dict

end Pdf
