import Mathlib.Data.List.Forall2
import Pdf.Proofs.Filter.Undo
import Pdf.Proofs.Syntax.Numbered

/-! # Sealing — strings and data replaced, and nothing else

    Sealing replaces the strings of an object, at any depth, and the data of a
    stream.  What that means is said here without the functions that do it, as
    a relation between an object and what becomes of it (`Replaced`): the form
    of a string is kept, so are the names of entries and their order, and every
    other value is the same.

    A function that undoes the replacement of bytes undoes the one of objects,
    by induction on the relation.  For a stream the length has to be put back
    as well, and that needs nothing but the length of the data that was
    found. -/

namespace Pdf

/-! ## Insertion, repeated and undone -/

namespace Dictionary

variable {α : Type}

/-- Of two values that are put under a key the later one stays. -/
theorem put_put (key : Name) (value value' : α) (entries : List (Name × α)) :
    put key value' (put key value entries) = put key value' entries := by
  induction entries with
  | nil => exact if_pos rfl
  | cons entry entries ih =>
      rw [put]
      by_cases he : entry.1 = key
      · rw [if_pos he, put, put, if_pos rfl, if_pos he]
      · rw [if_neg he, put, put, if_neg he, if_neg he, ih]

/-- Putting what is there already changes nothing. -/
theorem put_of_lookup {key : Name} {value : α} {entries : List (Name × α)}
    (h : entries.lookup key = some value) :
    put key value entries = entries := by
  induction entries with
  | nil => exact nomatch h
  | cons entry entries ih =>
      obtain ⟨k, v⟩ := entry
      rw [lookup_entry] at h
      rw [put]
      by_cases he : k = key
      · rw [if_pos he.symm] at h
        rw [if_pos he, he, Option.some.inj h]
      · rw [if_neg (Ne.symm he)] at h
        rw [if_neg he, ih h]

end Dictionary

/-! ## Objects -/

namespace Object

/-- Whether an object is a string or may hold one. -/
def mayHoldString : Object → Bool
  | string _ _ => true
  | array _ => true
  | dictionary _ => true
  | _ => false

mutual

/-- The second object is the first one with every string in it replaced once,
    and with no other change. -/
inductive Replaced (f : Bytes → Bytes) : Object → Object → Prop where
  | string (form : StringForm) (bytes : Bytes) :
      Replaced f (.string form bytes) (.string form (f bytes))
  | array {items items' : List Object} : ReplacedItems f items items' →
      Replaced f (.array items) (.array items')
  | dictionary {entries entries' : List (Name × Object)} :
      ReplacedEntries f entries entries' →
      Replaced f (.dictionary ⟨entries⟩) (.dictionary ⟨entries'⟩)
  | other {o : Object} : o.mayHoldString = false → Replaced f o o

/-- The items of an array with their strings replaced. -/
inductive ReplacedItems (f : Bytes → Bytes) :
    List Object → List Object → Prop where
  | nil : ReplacedItems f [] []
  | cons {item item' : Object} {items items' : List Object} :
      Replaced f item item' → ReplacedItems f items items' →
      ReplacedItems f (item :: items) (item' :: items')

/-- Entries with the strings in their values replaced, under the same names and
    in the same order. -/
inductive ReplacedEntries (f : Bytes → Bytes) :
    List (Name × Object) → List (Name × Object) → Prop where
  | nil : ReplacedEntries f [] []
  | cons {key : Name} {value value' : Object}
      {entries entries' : List (Name × Object)} :
      Replaced f value value' → ReplacedEntries f entries entries' →
      ReplacedEntries f ((key, value) :: entries) ((key, value') :: entries')

end

mutual

/-- To map the strings of an object is to replace each of them once. -/
theorem replaced_mapStrings (f : Bytes → Bytes) :
    ∀ o : Object, Replaced f o (o.mapStrings f)
  | .null => .other rfl
  | .bool _ => .other rfl
  | .integer _ => .other rfl
  | .real _ => .other rfl
  | .name _ => .other rfl
  | .string form bytes => .string form bytes
  | .verbatim _ => .other rfl
  | .array items => .array (replacedItems_mapStrings f items)
  | .dictionary ⟨entries⟩ =>
      .dictionary (replacedEntries_mapStrings f entries)
  | .reference _ => .other rfl

/-- To map the strings of items is to replace each of them once. -/
theorem replacedItems_mapStrings (f : Bytes → Bytes) :
    ∀ items : List Object,
      ReplacedItems f items (mapStringsOfItems f items)
  | [] => .nil
  | item :: items =>
      .cons (replaced_mapStrings f item) (replacedItems_mapStrings f items)

/-- To map the strings of entries is to replace each of them once. -/
theorem replacedEntries_mapStrings (f : Bytes → Bytes) :
    ∀ entries : List (Name × Object),
      ReplacedEntries f entries (mapStringsOfEntries f entries)
  | [] => .nil
  | (_, value) :: entries =>
      .cons (replaced_mapStrings f value)
        (replacedEntries_mapStrings f entries)

end

mutual

/-- **REPLACED STRINGS ARE PUT BACK** by a function that undoes the replacement
    of their bytes. -/
theorem Replaced.undone {f g : Bytes → Bytes} (h : ∀ x, g (f x) = x) :
    ∀ {o o' : Object}, Replaced f o o' → o'.mapStrings g = o
  | _, _, .string form bytes => by rw [mapStrings, h]
  | _, _, .array hitems => by rw [mapStrings, hitems.undone h]
  | _, _, .dictionary hentries => by
      rw [mapStrings, mapStringsOfDict, hentries.undone h]
  | o, _, .other ho => by
      cases o with
      | string | array | dictionary => exact nomatch ho
      | _ => rfl

/-- Items are got back by what undoes the replacement. -/
theorem ReplacedItems.undone {f g : Bytes → Bytes} (h : ∀ x, g (f x) = x) :
    ∀ {items items' : List Object}, ReplacedItems f items items' →
      mapStringsOfItems g items' = items
  | _, _, .nil => rfl
  | _, _, .cons hitem hitems => by
      rw [mapStringsOfItems, hitem.undone h, hitems.undone h]

/-- Entries are got back by what undoes the replacement. -/
theorem ReplacedEntries.undone {f g : Bytes → Bytes} (h : ∀ x, g (f x) = x) :
    ∀ {entries entries' : List (Name × Object)},
      ReplacedEntries f entries entries' →
      mapStringsOfEntries g entries' = entries
  | _, _, .nil => rfl
  | _, _, .cons hvalue hentries => by
      rw [mapStringsOfEntries, mapStringsOfEntry, hvalue.undone h,
        hentries.undone h]

end

mutual

/-- A string is as plain as any other. -/
theorem Replaced.isPlain {f : Bytes → Bytes} :
    ∀ {o o' : Object}, Replaced f o o' → o'.isPlain = o.isPlain
  | _, _, .string _ _ => rfl
  | _, _, .array hitems => hitems.isPlain
  | _, _, .dictionary hentries => hentries.isPlain
  | _, _, .other _ => rfl

/-- Replaced items are as plain as they were. -/
theorem ReplacedItems.isPlain {f : Bytes → Bytes} :
    ∀ {items items' : List Object}, ReplacedItems f items items' →
      (array items').isPlain = (array items).isPlain
  | _, _, .nil => rfl
  | _, _, .cons hitem hitems => by
      rw [isPlain_array_cons, isPlain_array_cons, hitem.isPlain,
        hitems.isPlain]

/-- Replaced entries are as plain as they were. -/
theorem ReplacedEntries.isPlain {f : Bytes → Bytes} :
    ∀ {entries entries' : List (Name × Object)},
      ReplacedEntries f entries entries' →
      (dictionary ⟨entries'⟩).isPlain = (dictionary ⟨entries⟩).isPlain
  | _, _, .nil => rfl
  | _, _, .cons hvalue hentries => by
      rw [isPlain_dictionary_cons, isPlain_dictionary_cons, hvalue.isPlain,
        hentries.isPlain]

end

theorem mapStringsOfEntries_put (g : Bytes → Bytes) (key : Name)
    (value : Object) (entries : List (Name × Object)) :
    mapStringsOfEntries g (Dictionary.put key value entries)
      = Dictionary.put key (value.mapStrings g)
        (mapStringsOfEntries g entries) := by
  induction entries with
  | nil => rfl
  | cons entry entries ih =>
      obtain ⟨k, v⟩ := entry
      rw [Dictionary.put, mapStringsOfEntries, mapStringsOfEntry,
        Dictionary.put]
      by_cases he : k = key
      · rw [if_pos he, if_pos he]
        rfl
      · rw [if_neg he, if_neg he, ← ih]
        rfl

end Object

/-- Keys are not strings that are mapped. -/
theorem Dict.keys_mapStrings (f : Bytes → Bytes) (d : Dict) :
    (d.mapStrings f).keys = d.keys := by
  obtain ⟨entries⟩ := d
  show (Object.mapStringsOfEntries f entries).map Prod.fst
    = entries.map Prod.fst
  rw [Object.mapStringsOfEntries_eq, List.map_map]
  rfl

/-- Under each name stands what stood there, with its strings changed. -/
theorem Dict.get?_mapStrings (f : Bytes → Bytes) (d : Dict) (key : Name) :
    (d.mapStrings f).get? key = (d.get? key).map (·.mapStrings f) := by
  obtain ⟨entries⟩ := d
  show (Object.mapStringsOfEntries f entries).lookup key
    = (entries.lookup key).map _
  rw [Object.mapStringsOfEntries_eq]
  induction entries with
  | nil => rfl
  | cons e entries ih =>
      obtain ⟨name, value⟩ := e
      rw [List.map_cons, Dictionary.lookup_entry, Dictionary.lookup_entry]
      by_cases h : key = name
      · rw [if_pos h, if_pos h]
        rfl
      · rw [if_neg h, if_neg h]
        exact ih

/-! ## Contents -/

namespace Content

open Syntax

/-- An entry of a stream's dictionary with the strings in its value replaced,
    under the same name.  The length is spoken of apart. -/
def ReplacedEntry (f : Bytes → Bytes) (e e' : Name × Object) : Prop :=
  e'.1 = e.1 ∧ (Object.Replaced f e.2 e'.2 ∨ e.1 = .key "Length")

/-- The second content is the first one with every string and the data of a
    stream replaced once.  The length of a stream is the one of its new data;
    all other entries are the same but for their strings, in the same
    order. -/
inductive Replaced (f : Bytes → Bytes) : Content → Content → Prop where
  | value {o o' : Object} : Object.Replaced f o o' →
      Replaced f (.value o) (.value o')
  | stream {d d' : Dict} (data : Bytes) :
      List.Forall₂ (ReplacedEntry f) d.entries d'.entries →
      d'.get? (.key "Length") = some (.integer (f data).length) →
      Replaced f (.stream ⟨d, data⟩) (.stream ⟨d', f data⟩)

/-- The length of a stream is the one of its data. -/
def IsMeasured : Content → Prop
  | .value _ => True
  | .stream s => s.dict.get? (.key "Length") = some (.integer s.data.length)

/-- Replaced entries correspond one by one. -/
theorem forall₂_of_replacedEntries {f : Bytes → Bytes}
    {entries entries' : List (Name × Object)}
    (h : Object.ReplacedEntries f entries entries') :
    List.Forall₂ (ReplacedEntry f) entries entries' := by
  induction entries generalizing entries' with
  | nil =>
      cases h
      exact .nil
  | cons entry entries ih =>
      cases h with
      | cons hvalue hentries =>
          exact .cons ⟨rfl, Or.inl hvalue⟩ (ih hentries)

/-- Putting a length where one stands leaves all other entries alone. -/
theorem forall₂_put_length {f : Bytes → Bytes} (value : Object)
    {entries entries' : List (Name × Object)}
    (h : Object.ReplacedEntries f entries entries')
    (hkey : Name.key "Length" ∈ entries.map Prod.fst) :
    List.Forall₂ (ReplacedEntry f) entries
      (Dictionary.put (.key "Length") value entries') := by
  induction entries generalizing entries' with
  | nil => exact nomatch hkey
  | cons entry entries ih =>
      cases h with
      | @cons key v v' _ entries' hvalue hentries =>
          rw [Dictionary.put]
          by_cases he : key = .key "Length"
          · rw [if_pos he]
            exact .cons ⟨he.symm, Or.inr he⟩
              (forall₂_of_replacedEntries hentries)
          · rw [if_neg he]
            have hrest := (List.mem_cons.mp hkey).resolve_left (Ne.symm he)
            exact .cons ⟨rfl, Or.inl hvalue⟩ (ih hentries hrest)

/-- To seal a content is to replace its strings and its data once. -/
theorem replaced_sealed (f : Bytes → Bytes) {c : Content}
    (h : c.IsMeasured) : c.Replaced f (c.sealed f) := by
  cases c with
  | value o => exact .value (Object.replaced_mapStrings f o)
  | stream s =>
      obtain ⟨⟨entries⟩, data⟩ := s
      refine .stream data ?_ ?_
      · exact forall₂_put_length _
          (Object.replacedEntries_mapStrings f entries)
          (Dictionary.mem_keys_of_get? h)
      · show Dictionary.get? (Dict.withLength _ _) _ = _
        rw [Dict.get?_withLength, if_pos rfl]

/-- **SEALED CONTENTS ARE OPENED** by a function that undoes the sealing of
    bytes. -/
theorem sealed_sealed {f g : Bytes → Bytes} (h : ∀ x, g (f x) = x)
    {c : Content} (hc : c.IsMeasured) : (c.sealed f).sealed g = c := by
  cases c with
  | value o =>
      exact congrArg value ((Object.replaced_mapStrings f o).undone h)
  | stream s =>
      obtain ⟨⟨entries⟩, data⟩ := s
      have hentries := (Object.replacedEntries_mapStrings f entries).undone h
      -- the length of the sealed data is replaced by the one of the data
      have hput : Dictionary.put (.key "Length")
          (.integer (g (f data)).length) (Object.mapStringsOfEntries g
            (Dictionary.put (.key "Length") (.integer (f data).length)
              (Object.mapStringsOfEntries f entries))) = entries := by
        rw [Object.mapStringsOfEntries_put, Dictionary.put_put, hentries, h]
        exact Dictionary.put_of_lookup hc
      exact congrArg₂ (fun entries data => stream ⟨⟨entries⟩, data⟩) hput
        (h data)

/-- A sealed content is as recognisable as it was. -/
theorem recognisable_sealed (f : Bytes → Bytes) {c : Content}
    (h : Recognisable c) : Recognisable (c.sealed f) := by
  cases c with
  | value o => exact (Object.replaced_mapStrings f o).isPlain.trans h
  | stream s =>
      obtain ⟨⟨entries⟩, data⟩ := s
      have hmapped : (Dict.mapStrings f ⟨entries⟩).isPlain = true :=
        (Object.replacedEntries_mapStrings f entries).isPlain.trans h.1
      refine ⟨Dict.every_insert _ hmapped rfl, ?_⟩
      show Dictionary.get? (Dict.withLength _ _) _ = _
      rw [Dict.get?_withLength, if_pos rfl]

end Content

end Pdf
