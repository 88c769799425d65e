import Pdf.Object.Name

/-! # Dictionaries — values under names, in the order of insertion

    A dictionary is a list of entries.  Inserting under a new name adds an entry
    at the end; inserting under a name that is present replaces the value where
    it stands.  Removing an entry closes the gap.  Built this way a dictionary
    never holds a name twice, and its written form depends on nothing but the
    calls that built it. -/

namespace Pdf

/-- Values under names, in the order of insertion. -/
structure Dictionary (α : Type) where
  entries : List (Name × α) := []

namespace Dictionary

variable {α : Type}

/-- The dictionary without entries. -/
def empty : Dictionary α := ⟨[]⟩

/-- The number of entries. -/
def size (d : Dictionary α) : Nat := d.entries.length

/-- Whether there is no entry. -/
def isEmpty (d : Dictionary α) : Bool := d.entries.isEmpty

/-- The names of the entries, in order. -/
def keys (d : Dictionary α) : List Name := d.entries.map Prod.fst

/-- The value under a name. -/
def get? (d : Dictionary α) (key : Name) : Option α := d.entries.lookup key

/-- A list of entries with a value put under a name: in place if the name is
    there, at the end if not. -/
def put (key : Name) (value : α) : List (Name × α) → List (Name × α)
  | [] => [(key, value)]
  | entry :: entries =>
      if entry.1 = key then (key, value) :: entries
      else entry :: put key value entries

/-- The dictionary with a value put under a name. -/
def insert (d : Dictionary α) (key : Name) (value : α) : Dictionary α :=
  ⟨put key value d.entries⟩

/-- The dictionary without the entry of a name. -/
def erase (d : Dictionary α) (key : Name) : Dictionary α :=
  ⟨d.entries.eraseP (·.1 == key)⟩

/-- The value under a name, and the dictionary with another value put in its
    place. -/
def getThenInsert? (d : Dictionary α) (key : Name) (value : α) :
    Option α × Dictionary α :=
  (d.get? key, d.insert key value)

/-- The value under a name, and the dictionary without it. -/
def getThenErase? (d : Dictionary α) (key : Name) : Option α × Dictionary α :=
  (d.get? key, d.erase key)

/-- The dictionary with some entries inserted one after the other. -/
def insertMany (d : Dictionary α) (entries : List (Name × α)) : Dictionary α :=
  entries.foldl (fun d entry => d.insert entry.1 entry.2) d

/-- The dictionary that inserting some entries one after the other builds. -/
def ofList (entries : List (Name × α)) : Dictionary α :=
  empty.insertMany entries

/-- The dictionary with a value put under a name, if there is a value. -/
def insertIfSome (d : Dictionary α) (key : Name) : Option α → Dictionary α
  | some value => d.insert key value
  | none => d

/-! ## Names -/

theorem map_fst_put (key : Name) (value : α) (entries : List (Name × α)) :
    (put key value entries).map Prod.fst =
      if key ∈ entries.map Prod.fst then entries.map Prod.fst
      else entries.map Prod.fst ++ [key] := by
  induction entries with
  | nil => rfl
  | cons entry entries ih =>
      by_cases h : entry.1 = key
      · simp [put, h]
      · have h' : ¬ key = entry.1 := fun e => h e.symm
        simp only [put, h, if_false, List.map_cons, ih, List.mem_cons, h',
          false_or]
        split <;> simp

/-- Inserting keeps the names in order and adds a new one at the end. -/
theorem keys_insert (d : Dictionary α) (key : Name) (value : α) :
    (d.insert key value).keys
      = if key ∈ d.keys then d.keys else d.keys ++ [key] :=
  map_fst_put key value d.entries

theorem lookup_entry (key key' : Name) (value : α) (entries : List (Name × α)) :
    ((key, value) :: entries).lookup key' =
      if key' = key then some value else entries.lookup key' := by
  by_cases h : key' = key
  · simp [h]
  · simp [List.lookup_cons, h, beq_false_of_ne h]

theorem lookup_put (key key' : Name) (value : α) (entries : List (Name × α)) :
    (put key value entries).lookup key' =
      if key' = key then some value else entries.lookup key' := by
  induction entries with
  | nil => exact lookup_entry key key' value []
  | cons entry entries ih =>
      obtain ⟨k, v⟩ := entry
      by_cases h : k = key
      · subst h
        simp only [put, if_true, lookup_entry]
        split <;> rfl
      · simp only [put, h, if_false, lookup_entry, ih]
        by_cases h' : key' = k
        · subst h'; simp [h]
        · simp [h']

/-- A name leads to the value that was last inserted under it. -/
theorem get?_insert (d : Dictionary α) (key key' : Name) (value : α) :
    (d.insert key value).get? key'
      = if key' = key then some value else d.get? key' :=
  lookup_put key key' value d.entries

end Dictionary

end Pdf
