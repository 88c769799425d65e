import Pdf.Object.Basic

/-! # Equality of objects — decided part by part

    Two objects are equal if they are of one kind with equal parts: strings of
    one form, dictionaries with the same entries in the same order, real numbers
    with the same bits. -/

namespace Pdf.Object

mutual

/-- Whether two objects are equal. -/
def equals : Object → Object → Bool
  | null, null => true
  | bool a, bool b => a == b
  | integer a, integer b => a == b
  | real a, real b => a == b
  | name a, name b => a == b
  | string f a, string g b => f == g && a == b
  | verbatim a, verbatim b => a == b
  | array a, array b => equalItems a b
  | dictionary a, dictionary b => equalDicts a b
  | reference a, reference b => a == b
  | _, _ => false

/-- Whether two lists of objects are equal. -/
def equalItems : List Object → List Object → Bool
  | [], [] => true
  | a :: as, b :: bs => a.equals b && equalItems as bs
  | _, _ => false

/-- Whether two dictionaries are equal. -/
def equalDicts : Dictionary Object → Dictionary Object → Bool
  | ⟨as⟩, ⟨bs⟩ => equalEntries as bs

/-- Whether two lists of entries are equal. -/
def equalEntries : List (Name × Object) → List (Name × Object) → Bool
  | [], [] => true
  | a :: as, b :: bs => equalEntry a b && equalEntries as bs
  | _, _ => false

/-- Whether two entries are equal. -/
def equalEntry : Name × Object → Name × Object → Bool
  | (k, a), (l, b) => k == l && a.equals b

end

mutual

theorem equals_iff : ∀ a b : Object, a.equals b = true ↔ a = b
  | null, b => by cases b <;> simp [equals]
  | bool _, b => by cases b <;> simp [equals]
  | integer _, b => by cases b <;> simp [equals]
  | real _, b => by cases b <;> simp [equals]
  | name _, b => by cases b <;> simp [equals]
  | string _ _, b => by cases b <;> simp [equals]
  | verbatim _, b => by cases b <;> simp [equals]
  | array as, b => by cases b <;> simp [equals, equalItems_iff as]
  | dictionary d, b => by cases b <;> simp [equals, equalDicts_iff d]
  | reference _, b => by cases b <;> simp [equals]

theorem equalItems_iff :
    ∀ as bs : List Object, equalItems as bs = true ↔ as = bs
  | [], bs => by cases bs <;> simp [equalItems]
  | a :: as, bs => by
      cases bs <;> simp [equalItems, equals_iff a, equalItems_iff as]

theorem equalDicts_iff :
    ∀ a b : Dictionary Object, equalDicts a b = true ↔ a = b
  | ⟨as⟩, b => by cases b; simp [equalDicts, equalEntries_iff as]

theorem equalEntries_iff :
    ∀ as bs : List (Name × Object), equalEntries as bs = true ↔ as = bs
  | [], bs => by cases bs <;> simp [equalEntries]
  | a :: as, bs => by
      cases bs <;> simp [equalEntries, equalEntry_iff a, equalEntries_iff as]

theorem equalEntry_iff : ∀ a b : Name × Object, equalEntry a b = true ↔ a = b
  | (_, a), b => by cases b; simp [equalEntry, equals_iff a]

end

instance : DecidableEq Object := fun a b => decidable_of_iff _ (equals_iff a b)

end Pdf.Object

namespace Pdf

instance : DecidableEq (Dictionary Object) := fun a b =>
  decidable_of_iff _ (Object.equalDicts_iff a b)

end Pdf
