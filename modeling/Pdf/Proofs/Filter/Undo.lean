import Pdf.Body.Stream
import Pdf.Proofs.Bytes.Spelling
import Pdf.Proofs.Object.Plain

/-! # Filters, undone

    A reader takes the filters of a stream from its dictionary and undoes them
    in the order in which they are listed.  How compressed data is expanded is
    not said here: any program will do that gives back what was compressed
    (`Inverts`).

    Filters are listed in front of those that a dictionary lists already, in
    whichever form, and the length is the one of the data.  All other entries
    stay as they are. -/

namespace Pdf

open Bytes (byte)

/-- A program that expands compressed data. -/
abbrev Inflater : Type := Bytes → Option Bytes

/-- What was compressed is expanded to the data that it was. -/
def Inverts (inflate : Inflater) (compressor : Compressor) : Prop :=
  ∀ data packed, compressor data = .ok packed → inflate packed = some data

namespace Filter

/-- The data that a filter was applied to. -/
def undo? (inflate : Inflater) : Filter → Bytes → Option Bytes
  | flate, data => inflate data
  | asciiHex, data => ofHexLines? data
  | dct, _ => none

/-- The data that some filters were applied to, the first of them last. -/
def undoAll? (inflate : Inflater) : List Filter → Bytes → Option Bytes
  | [], data => some data
  | f :: fs, data => (f.undo? inflate data).bind (undoAll? inflate fs)

/-- The filter that is called by an object. -/
def named? : Object → Option Filter
  | .name n =>
      if n = label flate then some flate
      else if n = label asciiHex then some asciiHex
      else if n = label dct then some dct
      else none
  | _ => none

/-- The filter as a dictionary lists it. -/
def listed (f : Filter) : Object := .name f.label

/-- A filter is known by the name that lists it. -/
theorem named?_listed (f : Filter) : named? f.listed = some f := by
  cases f <;> decide

/-- Filters are undone in two parts one after the other. -/
theorem undoAll?_append (inflate : Inflater) (fs gs : List Filter)
    (data : Bytes) :
    undoAll? inflate (fs ++ gs) data
      = (undoAll? inflate fs data).bind (undoAll? inflate gs) := by
  induction fs generalizing data with
  | nil => rfl
  | cons f fs ih =>
      show (f.undo? inflate data).bind (undoAll? inflate (fs ++ gs))
        = ((f.undo? inflate data).bind (undoAll? inflate fs)).bind _
      rw [Option.bind_assoc]
      exact congrArg _ (funext ih)

end Filter

/-! ## Hexadecimal lines -/

/-- There is no line feed among hexadecimal digits. -/
theorem filter_hexPair (b : UInt8) :
    (Bytes.hexPair b).filter (· != byte '\n') = Bytes.hexPair b := by
  revert b
  exact forall_byte (by decide +kernel)

/-- Without its line ends, hexadecimal data is the digits of its bytes. -/
theorem filter_hexLines (data : Bytes) :
    (hexLines data).filter (· != byte '\n')
      = data.flatMap Bytes.hexPair := by
  rw [hexLines]
  -- the place of a byte decides about the line end behind it and no more
  generalize 0 = start
  induction data generalizing start with
  | nil => rfl
  | cons b data ih =>
      rw [List.zipIdx_cons, List.flatMap_cons, List.flatMap_cons,
        List.filter_append, ih]
      congr 1
      show List.filter _ (if start % 35 = 34
        then Bytes.hexPair b ++ [byte '\n'] else Bytes.hexPair b) = _
      by_cases hb : start % 35 = 34
      · rw [if_pos hb, List.filter_append, filter_hexPair]
        exact List.append_nil _
      · rw [if_neg hb]
        exact filter_hexPair b

/-- **HEXADECIMAL LINES** are read back as the data. -/
theorem ofHexLines?_hexLines (data : Bytes) :
    ofHexLines? (hexLines data) = some data := by
  rw [ofHexLines?, filter_hexLines, Bytes.ofHexPairs?_flatMap_hexPair]

/-! ## Filtered data -/

namespace Filtered

/-- The hexadecimal digits around filtered data are undone first. -/
theorem armored_eq (inflate : Inflater) (asciiOnly : Bool) (f : Filtered) :
    ∃ armor, (f.armored asciiOnly).filters = armor ++ f.filters
      ∧ Filter.undoAll? inflate armor (f.armored asciiOnly).data
        = some f.data := by
  rw [armored]
  by_cases h : (asciiOnly && f.isBinary) = true
  · rw [if_pos h]
    refine ⟨[.asciiHex], rfl, ?_⟩
    show (ofHexLines? (hexLines f.data)).bind some = some f.data
    rw [ofHexLines?_hexLines]
    rfl
  · rw [if_neg h]
    exact ⟨[], rfl, rfl⟩

end Filtered

/-! ## Dictionaries -/

/-- A test that everything passes which says how data is coded: the names of
    filters, and the length. -/
structure Object.PassesCoding (q : Object → Bool) : Prop where
  name : ∀ n, (Object.name n).every q = true
  integer : ∀ i, (Object.integer i).every q = true

theorem Object.passesCoding_isReadable : PassesCoding isReadable :=
  ⟨fun _ => rfl, fun _ => rfl⟩

namespace Dict

/-- The entries that do not say how the data of a stream is coded. -/
def uncoded (d : Dict) : List (Name × Object) :=
  d.entries.filter fun e => e.1 != .key "Filter" && e.1 != .key "Length"

/-- Filters that are entered are listed. -/
theorem filterList_filterEntry (d : Dict) (f : Filter)
    (objects : List Object) :
    filterList (d.insert (.key "Filter") (filterEntry (f.listed :: objects)))
      = f.listed :: objects := by
  rw [filterList, Dictionary.get?_insert, if_pos rfl]
  cases objects with
  | nil => rfl
  | cons object objects => rfl

/-- New filters are listed in front of the old ones. -/
theorem filterList_withFilters (d : Dict) (fs : List Filter) :
    filterList (d.withFilters fs) = fs.map Filter.listed ++ d.filterList := by
  cases fs with
  | nil => rfl
  | cons f fs => exact filterList_filterEntry _ f _

/-- The length is entered under its own name and changes no other entry. -/
theorem get?_withLength (d : Dict) (data : Bytes) (key : Name) :
    (d.withLength data).get? key
      = if key = .key "Length" then some (.integer data.length)
        else d.get? key :=
  Dictionary.get?_insert d _ key _

/-- The length does not touch the filters. -/
theorem filterList_withLength (d : Dict) (data : Bytes) :
    filterList (d.withLength data) = d.filterList := by
  rw [filterList, get?_withLength, if_neg (by decide)]
  rfl

/-- The length belongs to the coding of the data. -/
theorem uncoded_withLength (d : Dict) (data : Bytes) :
    uncoded (d.withLength data) = d.uncoded :=
  Dictionary.filter_insert d _ fun _ => rfl

/-- The filters belong to the coding of the data. -/
theorem uncoded_withFilters (d : Dict) (fs : List Filter) :
    uncoded (d.withFilters fs) = d.uncoded := by
  cases fs with
  | nil => rfl
  | cons f fs =>
      exact (Dictionary.filter_insert _ _ fun _ => rfl).trans
        (Dictionary.filter_erase d fun _ => rfl)

theorem nodup_keys_withFilters {d : Dict} (fs : List Filter)
    (h : d.keys.Nodup) : (d.withFilters fs).keys.Nodup := by
  cases fs with
  | nil => exact h
  | cons f fs =>
      exact Dictionary.nodup_keys_insert _ _ (Dictionary.nodup_keys_erase _ h)

section Tests

variable {q : Object → Bool}

/-- A listed filter is the value of an entry or an item of such a value. -/
theorem every_of_mem_filterList {d : Dict} {o : Object}
    (h : d.every q = true) (ho : o ∈ d.filterList) : o.every q = true := by
  rw [filterList] at ho
  split at ho
  · next filters hf =>
      exact (Object.every_array filters).mp (every_of_get? h hf) o ho
  · next filter hf =>
      rw [List.mem_singleton.mp ho]
      exact every_of_get? h hf
  · exact nomatch ho

theorem every_filterEntry {objects : List Object}
    (h : ∀ o ∈ objects, o.every q = true) :
    (filterEntry objects).every q = true := by
  rw [filterEntry.eq_def]
  split
  · exact h _ List.mem_cons_self
  · exact (Object.every_array _).mpr h

/-- Entering filters keeps a test of the leaves that coding passes. -/
theorem every_withFilters (hq : Object.PassesCoding q) {d : Dict}
    (fs : List Filter) (h : d.every q = true) :
    every q (d.withFilters fs) = true := by
  cases fs with
  | nil => exact h
  | cons f fs =>
      refine every_insert _ (every_erase _ h) (every_filterEntry ?_)
      intro o ho
      rcases List.mem_append.mp ho with hl | hr
      · obtain ⟨g, -, rfl⟩ := List.mem_map.mp hl
        exact hq.name g.label
      · exact every_of_mem_filterList h hr

end Tests

end Dict

/-- What describes the coding passes, and the rest was there before. -/
theorem Filtered.every_behind {q : Object → Bool}
    (hq : Object.PassesCoding q) {d : Dict} (f : Filtered)
    (h : d.every q = true) : (f.behind d).dict.every q = true :=
  Dict.every_insert _ (Dict.every_withFilters hq _ h) (hq.integer _)

/-- Describing its coding leaves the other entries of a dictionary alone. -/
theorem Filtered.get?_behind {d : Dict} {key : Name} (f : Filtered)
    (hfilter : key ≠ .key "Filter") (hlength : key ≠ .key "Length") :
    (f.behind d).dict.get? key = d.get? key := by
  show ((d.withFilters f.filters).withLength f.data).get? key = _
  rw [Dict.get?_withLength, if_neg hlength]
  cases f.filters with
  | nil => rfl
  | cons filter filters =>
      show ((d.erase _).insert _ _).get? key = _
      rw [Dictionary.get?_insert, if_neg hfilter,
        Dictionary.get?_erase d hfilter]

end Pdf
