import Pdf.Object.Dictionary

/-! # Entries — what inserting and erasing leave alone

    Inserting or erasing under a name touches no entry of another name: a
    selection of entries that leaves the name out is the same before and after,
    in the same order.

    A dictionary that was built by insertion has no name twice.  For such a
    list it does not matter in which order it is searched, so inserting it
    into another dictionary puts its values in front of what was there. -/

namespace Pdf.Dictionary

variable {α : Type}

/-! ## Other entries -/

/-- A key that is filtered out may be put without a trace. -/
theorem filter_put {p : Name × α → Bool} {key : Name} (value : α)
    (entries : List (Name × α)) (h : ∀ v, p (key, v) = false) :
    (put key value entries).filter p = entries.filter p := by
  have hnot : ∀ v, ¬ p (key, v) = true := by
    intro v
    rw [h v]
    exact Bool.false_ne_true
  induction entries with
  | nil => exact List.filter_cons_of_neg (hnot value)
  | cons entry entries ih =>
      obtain ⟨k, v⟩ := entry
      rw [put]
      by_cases he : k = key
      · rw [if_pos he, he, List.filter_cons_of_neg (hnot value),
          List.filter_cons_of_neg (hnot v)]
      · rw [if_neg he, List.filter_cons, List.filter_cons, ih]

/-- A key that is filtered out may be inserted without a trace. -/
theorem filter_insert {p : Name × α → Bool} {key : Name} (d : Dictionary α)
    (value : α) (h : ∀ v, p (key, v) = false) :
    (d.insert key value).entries.filter p = d.entries.filter p :=
  filter_put value d.entries h

/-- A key that is filtered out may be erased without a trace. -/
theorem filter_erase {p : Name × α → Bool} {key : Name} (d : Dictionary α)
    (h : ∀ v, p (key, v) = false) :
    (d.erase key).entries.filter p = d.entries.filter p := by
  show (d.entries.eraseP (·.1 == key)).filter p = d.entries.filter p
  induction d.entries with
  | nil => rfl
  | cons entry entries ih =>
      obtain ⟨k, v⟩ := entry
      rw [List.eraseP_cons]
      cases he : k == key with
      | true =>
          -- the erased entry was not selected anyway
          have hentry : ¬ p (k, v) = true := by
            rw [eq_of_beq he, h v]
            exact Bool.false_ne_true
          exact (List.filter_cons_of_neg hentry).symm
      | false =>
          show ((k, v) :: entries.eraseP (·.1 == key)).filter p = _
          rw [List.filter_cons, List.filter_cons, ih]

theorem mem_put {key : Name} {value : α} {entries : List (Name × α)}
    {e : Name × α} (h : e ∈ put key value entries) :
    e = (key, value) ∨ e ∈ entries := by
  induction entries with
  | nil => exact Or.inl (List.mem_singleton.mp h)
  | cons entry entries ih =>
      rw [put] at h
      by_cases he : entry.1 = key
      · rw [if_pos he] at h
        rcases List.mem_cons.mp h with hhead | htail
        · exact Or.inl hhead
        · exact Or.inr (List.mem_cons_of_mem _ htail)
      · rw [if_neg he] at h
        rcases List.mem_cons.mp h with hhead | htail
        · rw [hhead]
          exact Or.inr List.mem_cons_self
        · exact (ih htail).imp id (List.mem_cons_of_mem _)

/-- Other keys keep their values. -/
theorem get?_insertIfSome {key key' : Name} (d : Dictionary α)
    (value : Option α) (h : key' ≠ key) :
    (d.insertIfSome key value).get? key' = d.get? key' := by
  cases value with
  | none => rfl
  | some value =>
      show (d.insert key value).get? key' = _
      rw [get?_insert, if_neg h]

/-- Under a new name there is the value, if there is one. -/
theorem get?_insertIfSome_self {key : Name} {d : Dictionary α}
    (value : Option α) (h : d.get? key = none) :
    (d.insertIfSome key value).get? key = value := by
  cases value with
  | none => exact h
  | some value =>
      show (d.insert key value).get? key = _
      rw [get?_insert, if_pos rfl]

/-- Where two dictionaries agree, they still do with the same value inserted. -/
theorem get?_insertIfSome_congr {key key' : Name} {d d' : Dictionary α}
    (value : Option α) (h : d.get? key' = d'.get? key') :
    (d.insertIfSome key value).get? key'
      = (d'.insertIfSome key value).get? key' := by
  cases value with
  | none => exact h
  | some value =>
      show (d.insert key value).get? key' = (d'.insert key value).get? key'
      rw [get?_insert, get?_insert, h]

/-- Erasing a key does not touch the other ones. -/
theorem get?_erase {key key' : Name} (d : Dictionary α) (h : key' ≠ key) :
    (d.erase key).get? key' = d.get? key' := by
  show (d.entries.eraseP (·.1 == key)).lookup key' = d.entries.lookup key'
  induction d.entries with
  | nil => rfl
  | cons entry entries ih =>
      obtain ⟨k, v⟩ := entry
      rw [List.eraseP_cons]
      cases he : k == key with
      | true =>
          have hk : key' ≠ k := by
            rw [eq_of_beq he]
            exact h
          rw [lookup_entry, if_neg hk]
          rfl
      | false =>
          show ((k, v) :: entries.eraseP (·.1 == key)).lookup key' = _
          rw [lookup_entry, lookup_entry, ih]

theorem mem_erase {key : Name} {d : Dictionary α} {e : Name × α}
    (h : e ∈ (d.erase key).entries) : e ∈ d.entries :=
  List.mem_of_mem_eraseP h

/-- A value that is found belongs to an entry. -/
theorem mem_of_get? {d : Dictionary α} {key : Name} {value : α}
    (h : d.get? key = some value) : (key, value) ∈ d.entries := by
  have hlookup : d.entries.lookup key = some value := h
  generalize d.entries = entries at hlookup ⊢
  induction entries with
  | nil => exact nomatch hlookup
  | cons entry entries ih =>
      obtain ⟨k, v⟩ := entry
      rw [lookup_entry] at hlookup
      by_cases hk : key = k
      · rw [if_pos hk] at hlookup
        rw [hk, Option.some.inj hlookup]
        exact List.mem_cons_self
      · rw [if_neg hk] at hlookup
        exact List.mem_cons_of_mem _ (ih hlookup)

/-! ## Names -/

theorem mem_keys_insert {d : Dictionary α} {key key' : Name} {value : α}
    (h : key' ∈ (d.insert key value).keys) : key' = key ∨ key' ∈ d.keys := by
  rw [keys_insert] at h
  by_cases hmem : key ∈ d.keys
  · rw [if_pos hmem] at h
    exact Or.inr h
  · rw [if_neg hmem] at h
    rcases List.mem_append.mp h with hd | hk
    · exact Or.inr hd
    · exact Or.inl (List.mem_singleton.mp hk)

theorem mem_keys_insertIfSome {d : Dictionary α} {key key' : Name}
    {value : Option α} (h : key' ∈ (d.insertIfSome key value).keys) :
    key' = key ∨ key' ∈ d.keys := by
  cases value with
  | none => exact Or.inr h
  | some value => exact mem_keys_insert h

theorem mem_keys_of_get? {d : Dictionary α} {key : Name} {value : α}
    (h : d.get? key = some value) : key ∈ d.keys :=
  List.mem_map.mpr ⟨(key, value), mem_of_get? h, rfl⟩

/-- No key is repeated by an insertion. -/
theorem nodup_keys_insert {d : Dictionary α} (key : Name) (value : α)
    (h : d.keys.Nodup) : (d.insert key value).keys.Nodup := by
  rw [keys_insert]
  by_cases hmem : key ∈ d.keys
  · rw [if_pos hmem]
    exact h
  · rw [if_neg hmem]
    refine List.nodup_append.mpr ⟨h, List.pairwise_singleton _ _, ?_⟩
    intro k hk k' hk' he
    rw [he, List.mem_singleton.mp hk'] at hk
    exact hmem hk

/-- No key is repeated when one is erased. -/
theorem nodup_keys_erase {d : Dictionary α} (key : Name)
    (h : d.keys.Nodup) : (d.erase key).keys.Nodup :=
  h.sublist (List.eraseP_sublist.map Prod.fst)

/-- Without repetitions, erasing a name leaves the other ones. -/
theorem keys_erase {d : Dictionary α} {key : Name} (h : d.keys.Nodup) :
    (d.erase key).keys = d.keys.filter (! · == key) := by
  have hkeys : (d.erase key).keys = d.keys.erase key := by
    rw [List.erase_eq_eraseP']
    show (d.entries.eraseP ((· == key) ∘ Prod.fst)).map Prod.fst = _
    exact List.eraseP_map.symm
  rw [hkeys, h.erase_eq_filter]
  rfl

/-- A key that was erased is not found any more. -/
theorem get?_erase_self {d : Dictionary α} {key : Name} (h : d.keys.Nodup) :
    (d.erase key).get? key = none := by
  refine Option.eq_none_iff_forall_ne_some.mpr fun value hvalue => ?_
  have hmem := mem_keys_of_get? hvalue
  rw [keys_erase h] at hmem
  simp at hmem

/-- No key is repeated, whether there is a value or not. -/
theorem nodup_keys_insertIfSome {d : Dictionary α} (key : Name)
    (value : Option α) (h : d.keys.Nodup) :
    (d.insertIfSome key value).keys.Nodup := by
  cases value with
  | none => exact h
  | some value => exact nodup_keys_insert key value h

/-- No key is repeated by any number of insertions. -/
theorem nodup_keys_insertMany {d : Dictionary α}
    (entries : List (Name × α)) (h : d.keys.Nodup) :
    (d.insertMany entries).keys.Nodup := by
  induction entries generalizing d with
  | nil => exact h
  | cons entry entries ih => exact ih (nodup_keys_insert entry.1 entry.2 h)

/-- An entry under a new name comes last. -/
theorem entries_insert {d : Dictionary α} {key : Name} (value : α)
    (h : key ∉ d.keys) :
    (d.insert key value).entries = d.entries ++ [(key, value)] := by
  show put key value d.entries = d.entries ++ [(key, value)]
  have hnot : key ∉ d.entries.map Prod.fst := h
  generalize d.entries = entries at hnot ⊢
  induction entries with
  | nil => rfl
  | cons entry entries ih =>
      obtain ⟨hne, hentries⟩ := not_or.mp (mt List.mem_cons.mpr hnot)
      rw [put, if_neg (Ne.symm hne), ih hentries, List.cons_append]

/-- New names keep the order in which they are inserted. -/
theorem entries_insertMany {d : Dictionary α} {entries : List (Name × α)}
    (h : (d.keys ++ entries.map Prod.fst).Nodup) :
    (d.insertMany entries).entries = d.entries ++ entries := by
  induction entries generalizing d with
  | nil => exact (List.append_nil d.entries).symm
  | cons entry entries ih =>
      obtain ⟨-, -, hnew⟩ := List.nodup_append.mp h
      have hkey : entry.1 ∉ d.keys := fun hmem =>
        hnew entry.1 hmem entry.1 List.mem_cons_self rfl
      have hinsert := entries_insert entry.2 hkey
      have hkeys : (d.insert entry.1 entry.2).keys = d.keys ++ [entry.1] := by
        rw [keys_insert, if_neg hkey]
      show ((d.insert entry.1 entry.2).insertMany entries).entries = _
      rw [ih, hinsert, List.append_assoc]
      · rfl
      · rw [hkeys, List.append_assoc]
        exact h

/-- A list of entries with distinct keys is kept as it is. -/
theorem entries_ofList {entries : List (Name × α)}
    (h : (entries.map Prod.fst).Nodup) :
    (ofList entries).entries = entries :=
  entries_insertMany h

/-- In a dictionary without repetitions each entry is found. -/
theorem get?_of_mem {d : Dictionary α} {key : Name} {value : α}
    (hd : d.keys.Nodup) (h : (key, value) ∈ d.entries) :
    d.get? key = some value := by
  have hnodup : (d.entries.map Prod.fst).Nodup := hd
  show d.entries.lookup key = some value
  generalize d.entries = entries at h hnodup ⊢
  induction entries with
  | nil => exact nomatch h
  | cons entry entries ih =>
      obtain ⟨k, v⟩ := entry
      obtain ⟨hk, hentries⟩ := List.nodup_cons.mp hnodup
      rw [lookup_entry]
      rcases List.mem_cons.mp h with he | hmem
      · obtain ⟨rfl, rfl⟩ := Prod.mk.inj he
        rw [if_pos rfl]
      · have hne : key ≠ k := by
          rintro rfl
          exact hk (List.mem_map.mpr ⟨_, hmem, rfl⟩)
        rw [if_neg hne, ih hmem hentries]

/-- Inserted entries hide the ones that were there. -/
theorem get?_insertMany (d : Dictionary α) {entries : List (Name × α)}
    (key : Name) (h : (entries.map Prod.fst).Nodup) :
    (d.insertMany entries).get? key
      = (entries.lookup key).or (d.get? key) := by
  induction entries generalizing d with
  | nil => rfl
  | cons entry entries ih =>
      obtain ⟨k, v⟩ := entry
      obtain ⟨hk, hentries⟩ := List.nodup_cons.mp h
      show ((d.insert k v).insertMany entries).get? key = _
      rw [ih _ hentries, get?_insert, lookup_entry]
      by_cases he : key = k
      · -- no later entry has this name
        have hnone : entries.lookup key = none := by
          refine List.lookup_eq_none_iff.mpr ?_
          intro e hmem
          refine bne_iff_ne.mpr ?_
          intro hkey
          exact hk (List.mem_map.mpr ⟨e, hmem, hkey.symm.trans he⟩)
        rw [hnone, if_pos he, if_pos he]
        rfl
      · rw [if_neg he, if_neg he]

end Pdf.Dictionary
