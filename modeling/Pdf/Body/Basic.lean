import Pdf.Action.Basic
import Pdf.Body.Item
import Std.Data.ExtTreeMap

/-! # Bodies — numbered objects before they are written

    A body hands out object numbers 1, 2, 3, … and stores at most one item under
    each.  A number can be handed out before its item exists, so that objects
    may refer to each other in any order.  `share` stores equal items once: it
    remembers the number that it gave to each fingerprint.

    An operation that fails leaves the body as it was. -/

namespace Pdf

/-- Numbered objects, and how many numbers were handed out. -/
structure Body where
  items : Std.ExtTreeMap Ref Item := .empty
  /-- The reference given to each fingerprint. -/
  known : Std.ExtTreeMap Digest Ref := .empty
  /-- How many numbers were handed out. -/
  issued : Nat := 0

namespace Body

/-- The highest object number that a file may use. -/
def highestNumber : Nat := 8388607

/-- The body without objects. -/
def empty : Body := {}

/-- The number of objects that have an item. -/
def size (b : Body) : Nat := b.items.size

/-- Whether no object has an item. -/
def isEmpty (b : Body) : Bool := b.items.isEmpty

/-- Whether an item is stored under a reference. -/
def holds (b : Body) (r : Ref) : Bool := b.items.contains r

/-- The reference that is handed out next. -/
def nextRef (b : Body) : Ref := ⟨(b.issued + 1).toUInt32, 0⟩

/-- Whether a reference was handed out. -/
def hasIssued (b : Body) (r : Ref) : Bool :=
  r.number != 0 && r.number.toNat ≤ b.issued && r.generation == 0

/-- The body with an item under a reference. -/
def store (b : Body) (r : Ref) (item : Item) : Body :=
  { b with items := b.items.insert r item }

/-- The item under a reference. -/
def lookup (b : Body) (r : Ref) : Except Error Item :=
  match b.items[r]? with
  | some item => .ok item
  | none => .error (.danglingReference r none)

/-- Hands out the next reference. -/
def reserve : Action Body Ref := do
  let b ← Action.read
  if highestNumber ≤ b.issued then Action.fail .numbersExhausted
  else
    Action.change fun b => { b with issued := b.issued + 1 }
    return b.nextRef

/-- Hands out the next reference and stores an item under it. -/
def add (item : Item) : Action Body Ref := do
  let r ← reserve
  Action.change (·.store r item)
  return r

/-- Stores an item under a reference that was handed out and has none yet. -/
def fill (r : Ref) (item : Item) : Action Body Unit := do
  let b ← Action.read
  if ! b.hasIssued r then Action.fail (.danglingReference r none)
  else if b.holds r then Action.fail (.alreadyStored r)
  else Action.change (·.store r item)

/-- Stores an item once: the reference of an equal item that was stored in this
    way before, or else a new one. -/
def share (item : Item) : Action Body Ref := do
  let b ← Action.read
  match b.known[item.fingerprint]? with
  | some r => return r
  | none =>
      let r ← add item
      Action.change fun b =>
        { b with known := b.known.insert item.fingerprint r }
      return r

/-- Changes the item under a reference. -/
def edit (r : Ref) (f : Item → Item) : Action Body Unit := do
  let b ← Action.read
  let item ← Action.ofExcept (b.lookup r)
  Action.change (·.store r (f item))

theorem getElem?_store (b : Body) (r r' : Ref) (item : Item) :
    (b.store r item).items[r']?
      = if r' = r then some item else b.items[r']? := by
  rw [store, Std.ExtTreeMap.getElem?_insert]
  by_cases h : r' = r
  · subst h; rw [if_pos (Std.ReflCmp.compare_self), if_pos rfl]
  · rw [if_neg h, if_neg fun e => h (Std.LawfulEqCmp.eq_of_compare e).symm]

/-- A reference leads to the item that was last stored under it. -/
theorem lookup_store (b : Body) (r r' : Ref) (item : Item) :
    (b.store r item).lookup r' = if r' = r then .ok item else b.lookup r' := by
  rw [lookup, getElem?_store]
  by_cases h : r' = r
  · simp only [h, if_true]
  · simp only [h, if_false]; rfl

/-! ## Checks -/

/-- The first of some references under which nothing is stored. -/
def firstDangling (b : Body) (refs : List Ref) : Option Ref :=
  refs.find? fun r => ! b.holds r

/-- The error of an object that refers to nothing. -/
def danglingFrom (b : Body) : Ref × Item → Option Error
  | (r, item) =>
      (b.firstDangling item.refs).map
        fun target => .danglingReference target (some r)

/-- The error of the first reference to nothing: in the objects, in ascending
    order, and then in some references from outside. -/
def danglingError (b : Body) (roots : List Ref) : Option Error :=
  match b.items.toList.findSome? b.danglingFrom with
  | some e => some e
  | none =>
      (b.firstDangling roots).map fun target => .danglingReference target none

end Body

end Pdf
