import Pdf.Action.Error
import Std.Data.ExtTreeMap

/-! # Cross-reference entries — where every object number leads

    The cross-reference section has one entry for each number from 0 to the
    highest one.  A number under which an object was placed leads to its offset.
    All other numbers are free; each of them names the next free one, starting
    from entry 0, and the last one names 0.  Here the entries are made from the
    highest number down; going up, with a list of the free numbers made before,
    gives the same ones (`Places.entries_noted_eq`). -/

namespace Pdf.Xref

/-- An entry of the cross-reference section. -/
inductive Entry where
  /-- No object; `next` is the next free number, or 0. -/
  | free (next : UInt32) (generation : UInt16)
  /-- The object starts at an offset. -/
  | inUse (offset : Nat) (generation : UInt16)
  deriving DecidableEq

/-- Where an object was placed. -/
structure Place where
  offset : Nat
  generation : UInt16
  deriving DecidableEq

/-- The places of objects, by number, among so many numbers. -/
structure Places where
  size : Nat
  places : Std.ExtTreeMap Nat Place

/-- The generation of entry 0, which is never used again. -/
def headGeneration : UInt16 := 65535

namespace Places

/-- No places, for the numbers below `size`.  Number 0 always exists. -/
def ofSize (size : Nat) : Places := ⟨max size 1, .empty⟩

/-- Notes where an object starts.  Number 0 cannot be placed. -/
def record (p : Places) (r : Ref) (offset : Nat) : Places :=
  if r.number = 0 then p
  else
    ⟨max p.size (r.number.toNat + 1),
      p.places.insert r.number.toNat ⟨offset, r.generation⟩⟩

/-- Puts the entry of a number in front of the entries of the higher ones.  The
    first component is the lowest free number among them, or 0. -/
def prepend (p : Places) (number : Nat) : Nat × List Entry → Nat × List Entry
  | (next, entries) =>
      match p.places[number]? with
      | some place => (next, .inUse place.offset place.generation :: entries)
      | none =>
          (number, .free next.toUInt32
            (if number = 0 then headGeneration else 0) :: entries)

/-- The entries of all numbers, in order. -/
def entries (p : Places) : List Entry :=
  ((List.range p.size).foldr p.prepend (0, [])).2

end Places

end Pdf.Xref
