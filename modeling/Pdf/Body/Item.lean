import Pdf.Body.Stream
import Pdf.Digest.Base64
import Pdf.Object.Equality

/-! # Items — what stands under an object number

    An item is an object or a stream.  Its fingerprint is the digest of a
    spelling in which every part says its kind and its length, so that different
    items are spelled differently; items with one fingerprint are taken to be
    the same. -/

namespace Pdf

namespace Canonical

/-- A byte string behind its length. -/
def block (b : Bytes) : Bytes := Bytes.bigEndian 8 b.length ++ b

/-- A reference in six bytes. -/
def ofRef (r : Ref) : Bytes :=
  Bytes.bigEndian 4 r.number.toNat ++ Bytes.bigEndian 2 r.generation.toNat

/-- A reference that may be missing. -/
def ofRef? : Option Ref → Bytes
  | none => [0]
  | some r => 1 :: ofRef r

/-- The byte of a form. -/
def ofForm : StringForm → UInt8
  | .literal => 0
  | .hex => 1

/-- The byte of a filter. -/
def ofFilter : Filter → UInt8
  | .flate => 0
  | .asciiHex => 1
  | .dct => 2

/-- The bytes of a policy. -/
def ofPolicy : Policy → Bytes
  | .automatic => [0]
  | .compressed => [1]
  | .uncompressed => [2]
  | .encoded filter => [3, ofFilter filter]

mutual

/-- The spelling of an object. -/
def ofObject : Object → Bytes
  | .null => [0]
  | .bool false => [1, 0]
  | .bool true => [1, 1]
  | .integer value => 2 :: block (Bytes.signedDecimal value)
  | .real value => 3 :: Bytes.bigEndian 4 value.bits.toNat
  | .name value => 4 :: block value.bytes
  | .string form bytes => 5 :: ofForm form :: block bytes
  | .verbatim bytes => 6 :: block bytes
  | .array items => 7 :: ofItems items
  | .dictionary entries => 8 :: ofDict entries
  | .reference target => 9 :: ofRef target

/-- The spelling of the items of an array. -/
def ofItems : List Object → Bytes
  | [] => [0]
  | item :: items => 1 :: (ofObject item ++ ofItems items)

/-- The spelling of a dictionary. -/
def ofDict : Dictionary Object → Bytes
  | ⟨entries⟩ => ofEntries entries

/-- The spelling of some entries. -/
def ofEntries : List (Name × Object) → Bytes
  | [] => [0]
  | entry :: entries => 1 :: (ofEntry entry ++ ofEntries entries)

/-- The spelling of an entry. -/
def ofEntry : Name × Object → Bytes
  | (key, value) => block key.bytes ++ ofObject value

end

/-- The spelling of a stream. -/
def ofStream (s : Stream) : Bytes :=
  ofDict s.dict ++ block s.data ++ ofPolicy s.policy

end Canonical

/-- What stands under an object number. -/
inductive Item where
  | value (object : Object)
  | stream (stream : Stream)

namespace Item

/-- The references inside an item, in the order in which they are written. -/
def refs : Item → List Ref
  | value object => object.refs
  | stream s => s.dict.refs

/-- Whether the item is a stream. -/
def isStream : Item → Bool
  | value _ => false
  | stream _ => true

/-- The dictionary of an item, be it the object itself or the one of a
    stream. -/
def dictionary? : Item → Option Dict
  | value object => object.dictionary?
  | stream s => some s.dict

/-- The item with another policy, if it is a stream. -/
def withPolicy (policy : Policy) : Item → Item
  | value object => value object
  | stream s => stream { s with policy }

/-- The item with an entry in its dictionary; an object without one is replaced
    by the value of the entry. -/
def withEntry (key : Name) (entry : Object) : Item → Item
  | value (.dictionary d) => value (.dictionary (d.insert key entry))
  | value _ => value entry
  | stream s => stream { s with dict := s.dict.insert key entry }

/-- The spelling of an item. -/
def canonical : Item → Bytes
  | value object => 0 :: Canonical.ofObject object
  | stream s => 1 :: Canonical.ofStream s

/-- The digest that items are recognised by. -/
def fingerprint (item : Item) : Digest := SipHash.digest item.canonical

end Item

end Pdf
