import Pdf.Proofs.Object.Entries
import Pdf.Object.Basic

/-! # Leaves — what is asked of every part of an object

    Many questions about an object are asked of its leaves: whether they can be
    read back, whether they lead anywhere, whether they are ASCII.  A container
    passes such a test exactly if its parts do, and whatever is built by
    inserting and erasing passes it if its values do.

    What has to be followed through the nesting itself is proved by induction
    on the parts of an object, which is stated once (`byParts`). -/

namespace Pdf

namespace Object

/-! ## Induction on parts -/

/-- Whether an object has parts. -/
def isContainer : Object → Bool
  | array _ => true
  | dictionary _ => true
  | _ => false

/-- What holds of leaves, and of a container if it holds of its parts, holds of
    every object. -/
@[elab_as_elim]
theorem byParts {P : Object → Prop}
    (leaf : ∀ o, o.isContainer = false → P o)
    (array : ∀ items, (∀ o ∈ items, P o) → P (.array items))
    (dictionary : ∀ entries : List (Name × Object),
      (∀ e ∈ entries, P e.2) → P (.dictionary ⟨entries⟩)) (o : Object) : P o :=
  match o with
  | .array items =>
      array items fun part _ => byParts leaf array dictionary part
  | .dictionary ⟨entries⟩ =>
      dictionary entries fun e _ => byParts leaf array dictionary e.2
  | .null | .bool _ | .integer _ | .real _ | .name _ | .string _ _
  | .verbatim _ | .reference _ => leaf _ rfl
termination_by sizeOf o
decreasing_by
  · have hlt := List.sizeOf_lt_of_mem ‹part ∈ items›
    simp only [Object.array.sizeOf_spec]
    omega
  · -- an entry is its name and its value
    have hlt := List.sizeOf_lt_of_mem ‹e ∈ entries›
    obtain ⟨key, value⟩ := e
    simp only [Prod.mk.sizeOf_spec] at hlt
    simp only [Object.dictionary.sizeOf_spec, Dictionary.mk.sizeOf_spec]
    omega

/-! ## Tests -/

/-- Whether all leaves of an object pass a test. -/
def every (q : Object → Bool) (o : Object) : Bool := o.leaves.all q

variable {q : Object → Bool}

theorem every_array_cons (item : Object) (items : List Object) :
    every q (array (item :: items)) = (item.every q && every q (array items)) :=
  List.all_append

theorem every_dictionary_cons (key : Name) (value : Object)
    (entries : List (Name × Object)) :
    every q (dictionary ⟨(key, value) :: entries⟩)
      = (value.every q && every q (dictionary ⟨entries⟩)) :=
  List.all_append

/-- The leaves of an array are the leaves of its items. -/
theorem every_array (items : List Object) :
    every q (array items) = true ↔ ∀ o ∈ items, o.every q = true := by
  induction items with
  | nil => exact iff_of_true rfl (fun _ h => nomatch h)
  | cons item items ih =>
      rw [every_array_cons, Bool.and_eq_true, ih, List.forall_mem_cons]

/-- The leaves of a dictionary are the leaves of its values. -/
theorem every_dictionary (d : Dict) :
    every q (dictionary d) = true ↔ ∀ e ∈ d.entries, e.2.every q = true := by
  obtain ⟨entries⟩ := d
  induction entries with
  | nil => exact iff_of_true rfl (fun _ h => nomatch h)
  | cons entry entries ih =>
      obtain ⟨key, value⟩ := entry
      rw [every_dictionary_cons, Bool.and_eq_true, ih, List.forall_mem_cons]

/-- A test that does not look into strings does not see them replaced. -/
theorem every_mapStrings {f : Bytes → Bytes}
    (hq : ∀ form bytes, q (string form (f bytes)) = q (string form bytes))
    (o : Object) : (o.mapStrings f).every q = o.every q := by
  induction o using byParts with
  | leaf o ho =>
      cases o with
      | array | dictionary => exact nomatch ho
      | string form bytes => exact congrArg (· && true) (hq form bytes)
      | _ => rfl
  | array items ih =>
      rw [mapStrings, mapStringsOfItems_eq, Bool.eq_iff_iff, every_array,
        every_array, List.forall_mem_map]
      exact forall₂_congr fun o ho => iff_of_eq (congrArg (· = true) (ih o ho))
  | dictionary entries ih =>
      rw [mapStrings, mapStringsOfDict, mapStringsOfEntries_eq,
        Bool.eq_iff_iff, every_dictionary, every_dictionary,
        List.forall_mem_map]
      exact forall₂_congr fun e he => iff_of_eq (congrArg (· = true) (ih e he))

end Object

namespace Dict

variable {q : Object → Bool}

/-- Whether all leaves of a dictionary pass a test. -/
def every (q : Object → Bool) (d : Dict) : Bool :=
  (Object.dictionary d).every q

theorem every_iff (d : Dict) :
    d.every q = true ↔ ∀ e ∈ d.entries, e.2.every q = true :=
  Object.every_dictionary d

/-- An entry may be inserted if its leaves have the property. -/
theorem every_insert {d : Dict} {value : Object} (key : Name)
    (h : d.every q = true) (hvalue : value.every q = true) :
    every q (d.insert key value) = true := by
  refine (every_iff _).mpr ?_
  intro e he
  rcases Dictionary.mem_put he with rfl | hmem
  · exact hvalue
  · exact (every_iff d).mp h e hmem

/-- An entry may be inserted, or not. -/
theorem every_insertIfSome {d : Dict} {value : Option Object} (key : Name)
    (h : d.every q = true) (hvalue : ∀ v ∈ value, v.every q = true) :
    every q (d.insertIfSome key value) = true := by
  cases value with
  | none => exact h
  | some value => exact every_insert key h (hvalue value rfl)

/-- Entries may be inserted if all of their leaves have the property. -/
theorem every_insertMany {d : Dict} {entries : List (Name × Object)}
    (h : d.every q = true) (hentries : ∀ e ∈ entries, e.2.every q = true) :
    every q (d.insertMany entries) = true := by
  induction entries generalizing d with
  | nil => exact h
  | cons entry entries ih =>
      have htail : ∀ e ∈ entries, e.2.every q = true :=
        fun e he => hentries e (List.mem_cons_of_mem _ he)
      exact ih (every_insert entry.1 h
        (hentries entry List.mem_cons_self)) htail

/-- Erasing an entry leaves no new leaves. -/
theorem every_erase {d : Dict} (key : Name) (h : d.every q = true) :
    every q (d.erase key) = true :=
  (every_iff _).mpr fun e he =>
    (every_iff d).mp h e (Dictionary.mem_erase he)

/-- The value under a name is one of the parts. -/
theorem every_of_get? {d : Dict} {key : Name} {value : Object}
    (h : d.every q = true) (hvalue : d.get? key = some value) :
    value.every q = true :=
  (every_iff d).mp h _ (Dictionary.mem_of_get? hvalue)

end Dict

end Pdf
