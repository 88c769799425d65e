import Pdf.Proofs.Filter.Undo
import Pdf.Xref.Section

/-! # Trailers in dictionaries

    The trailer stands in a dictionary of its own below a table and in the
    dictionary of a cross-reference stream.  The other entries of that
    dictionary describe the rows and their coding, and they have other names,
    so both dictionaries say the same about the trailer (`Carries`). -/

namespace Pdf

namespace Trailer

/-- The names of the entries of a trailer. -/
def names : List Name :=
  [.key "Size", .key "Root", .key "Info", .key "Encrypt", .key "ID",
    .key "Prev"]

/-- A trailer has entries under these names only. -/
theorem mem_names_of_mem_keys {t : Trailer} {size : Nat} {key : Name}
    (h : key ∈ (t.dict size).keys) : key ∈ names := by
  rcases Dictionary.mem_keys_insertIfSome h with rfl | h
  · decide
  rcases Dictionary.mem_keys_insertIfSome h with rfl | h
  · decide
  rcases Dictionary.mem_keys_insertIfSome h with rfl | h
  · decide
  rcases Dictionary.mem_keys_insertIfSome h with rfl | h
  · decide
  rcases Dictionary.mem_keys_insert h with rfl | h
  · show Name.key "Root" ∈ names
    decide
  rcases Dictionary.mem_keys_insert h with rfl | h
  · show Name.key "Size" ∈ names
    decide
  exact nomatch h

/-- A trailer has no entry under any other name. -/
theorem get?_dict_eq_none {key : Name} (t : Trailer) (size : Nat)
    (h : key ∉ names) : (t.dict size).get? key = none := by
  cases hget : (t.dict size).get? key with
  | none => rfl
  | some value =>
      exact absurd
        (mem_names_of_mem_keys (Dictionary.mem_keys_of_get? hget)) h

/-- No name occurs twice in a trailer. -/
theorem nodup_keys_dict (t : Trailer) (size : Nat) :
    (t.dict size).keys.Nodup :=
  Dictionary.nodup_keys_insertIfSome _ _
    (Dictionary.nodup_keys_insertIfSome _ _
      (Dictionary.nodup_keys_insertIfSome _ _
        (Dictionary.nodup_keys_insertIfSome _ _
          (Dictionary.nodup_keys_insert _ _
            (Dictionary.nodup_keys_insert _ _ List.nodup_nil)))))

/-- The size is always there. -/
theorem get?_dict_size (t : Trailer) (size : Nat) :
    (t.dict size).get? (.key "Size") = some (.integer size) := by
  rw [dict, Dictionary.get?_insertIfSome _ _ (by decide),
    Dictionary.get?_insertIfSome _ _ (by decide),
    Dictionary.get?_insertIfSome _ _ (by decide),
    Dictionary.get?_insertIfSome _ _ (by decide)]
  rfl

theorem get?_dict_root (t : Trailer) (size : Nat) :
    (t.dict size).get? (.key "Root") = some (.reference t.root) := by
  rw [dict, Dictionary.get?_insertIfSome _ _ (by decide),
    Dictionary.get?_insertIfSome _ _ (by decide),
    Dictionary.get?_insertIfSome _ _ (by decide),
    Dictionary.get?_insertIfSome _ _ (by decide)]
  rfl

theorem get?_dict_info (t : Trailer) (size : Nat) :
    (t.dict size).get? (.key "Info") = t.info.map .reference := by
  rw [dict, Dictionary.get?_insertIfSome _ _ (by decide),
    Dictionary.get?_insertIfSome _ _ (by decide),
    Dictionary.get?_insertIfSome _ _ (by decide),
    Dictionary.get?_insertIfSome_self _ rfl]

theorem get?_dict_encrypt (t : Trailer) (size : Nat) :
    (t.dict size).get? (.key "Encrypt") = t.encrypt.map .reference := by
  rw [dict, Dictionary.get?_insertIfSome _ _ (by decide),
    Dictionary.get?_insertIfSome _ _ (by decide)]
  refine Dictionary.get?_insertIfSome_self _ ?_
  rw [Dictionary.get?_insertIfSome _ _ (by decide)]
  rfl

theorem get?_dict_identifier (t : Trailer) (size : Nat) :
    (t.dict size).get? (.key "ID") = t.id.map idObject := by
  rw [dict, Dictionary.get?_insertIfSome _ _ (by decide)]
  refine Dictionary.get?_insertIfSome_self _ ?_
  rw [Dictionary.get?_insertIfSome _ _ (by decide),
    Dictionary.get?_insertIfSome _ _ (by decide)]
  rfl

theorem get?_dict_prev (t : Trailer) (size : Nat) :
    (t.dict size).get? (.key "Prev") = t.prev.map .ofUInt64 := by
  refine Dictionary.get?_insertIfSome_self _ ?_
  rw [Dictionary.get?_insertIfSome _ _ (by decide),
    Dictionary.get?_insertIfSome _ _ (by decide),
    Dictionary.get?_insertIfSome _ _ (by decide)]
  rfl

/-- Apart from the size and the identifier, a trailer depends on neither. -/
theorem get?_dict_of_ne {t : Trailer} {id : Option (Bytes × Bytes)}
    {key : Name} (size size' : Nat) (hsize : key ≠ .key "Size")
    (hid : key = .key "ID" → id = t.id) :
    (({ t with id } : Trailer).dict size').get? key
      = (t.dict size).get? key := by
  have hidentifier : ∀ {d d' : Dict}, d'.get? key = d.get? key →
      (d'.insertIfSome (.key "ID") (id.map idObject)).get? key
        = (d.insertIfSome (.key "ID") (t.id.map idObject)).get? key := by
    intro d d' h
    by_cases hkey : key = .key "ID"
    · rw [hid hkey]
      exact Dictionary.get?_insertIfSome_congr _ h
    · rw [Dictionary.get?_insertIfSome _ _ hkey,
        Dictionary.get?_insertIfSome _ _ hkey]
      exact h
  refine Dictionary.get?_insertIfSome_congr _ (hidentifier
    (Dictionary.get?_insertIfSome_congr _
      (Dictionary.get?_insertIfSome_congr _ ?_)))
  show ((Dictionary.insert _ _ _).insert _ _).get? key
    = ((Dictionary.insert _ _ _).insert _ _).get? key
  rw [Dictionary.get?_insert, Dictionary.get?_insert, Dictionary.get?_insert,
    Dictionary.get?_insert, if_neg hsize, if_neg hsize]

/-- What is asked of the leaves of a trailer is asked of its numbers, its
    references and its identifier. -/
theorem every_dict {q : Object → Bool} {t : Trailer} (size : Nat)
    (hinteger : ∀ i, (Object.integer i).every q = true)
    (href : ∀ r ∈ t.refs, (Object.reference r).every q = true)
    (hid : ∀ id, t.id = some id → (idObject id).every q = true) :
    (t.dict size).every q = true := by
  have hmap : ∀ {α : Type} (value : Option α) (f : α → Object),
      (∀ a, value = some a → (f a).every q = true) →
      ∀ v ∈ value.map f, v.every q = true := by
    intro α value f hf v hv
    obtain ⟨a, ha, rfl⟩ := Option.map_eq_some_iff.mp hv
    exact hf a ha
  have hinfo : ∀ r, t.info = some r → (Object.reference r).every q = true := by
    intro r hr
    exact href r (by simp [refs, hr])
  have hencrypt : ∀ r, t.encrypt = some r →
      (Object.reference r).every q = true := by
    intro r hr
    exact href r (by simp [refs, hr])
  refine Dict.every_insertIfSome _ ?_ (hmap t.prev _ fun _ _ => hinteger _)
  refine Dict.every_insertIfSome _ ?_ (hmap t.id _ hid)
  refine Dict.every_insertIfSome _ ?_ (hmap t.encrypt _ hencrypt)
  refine Dict.every_insertIfSome _ ?_ (hmap t.info _ hinfo)
  refine Dict.every_insert _ (Dict.every_insert _ rfl (hinteger _)) ?_
  exact href t.root List.mem_cons_self

/-- The dictionary of a trailer is plain. -/
theorem isPlain_dict (t : Trailer) (size : Nat) :
    (t.dict size).isPlain = true :=
  every_dict size (fun _ => rfl) (fun _ _ => rfl) (fun _ _ => rfl)

end Trailer

namespace Xref

/-- A dictionary says all that a trailer says. -/
def Carries (d : Dict) (t : Trailer) (size : Nat) : Prop :=
  ∀ key value, (t.dict size).get? key = some value →
    d.get? key = some value

/-- The dictionary of the stream names no filters of its own. -/
theorem filterList_streamDict (entries : List Entry) (t : Trailer) :
    (streamDict entries t).filterList = [] := by
  have hnone : (streamDict entries t).get? (.key "Filter") = none := by
    rw [streamDict, Dictionary.get?_insert, if_neg (by decide),
      Dictionary.get?_insert, if_neg (by decide),
      Dictionary.get?_insertMany _ _ (t.nodup_keys_dict _)]
    show ((t.dict entries.length).get? (.key "Filter")).or _ = none
    rw [t.get?_dict_eq_none _ (by decide)]
    rfl
  rw [Dict.filterList, hnone]

/-- What holds of the leaves of a trailer holds of those of its stream. -/
theorem every_streamDict {q : Object → Bool} (hq : Object.PassesCoding q)
    {entries : List Entry} {t : Trailer}
    (h : (t.dict entries.length).every q = true) :
    (streamDict entries t).every q = true := by
  have hintegers : ∀ values : List Int,
      (Object.integers values).every q = true := by
    intro values
    refine (Object.every_array _).mpr ?_
    intro o ho
    obtain ⟨i, -, rfl⟩ := List.mem_map.mp ho
    exact hq.integer i
  refine Dict.every_insert _ (Dict.every_insert _ ?_ (hintegers _))
    (hintegers _)
  exact Dict.every_insertMany (Dict.every_insert _ rfl (hq.name _))
    ((Dict.every_iff _).mp h)

/-- The dictionary of the stream is plain, too. -/
theorem isPlain_streamDict (entries : List Entry) (t : Trailer) :
    (streamDict entries t).isPlain = true :=
  every_streamDict Object.passesCoding_isReadable (t.isPlain_dict _)

/-! ## Both forms -/

/-- The dictionary with the trailer of a section, in one of its two forms. -/
inductive Heads (entries : List Entry) (t : Trailer) : Dict → Prop where
  | table : Heads entries t (t.dict entries.length)
  | stream (f : Filtered) :
      Heads entries t (f.behind (streamDict entries t)).dict

/-- The names of the entries that describe the rows and their coding. -/
def codingNames : List Name :=
  [.key "Type", .key "Index", .key "W", .key "Filter", .key "Length"]

/-- No entry of a trailer describes the rows or their coding. -/
theorem not_mem_names_of_mem_codingNames :
    ∀ key ∈ codingNames, key ∉ Trailer.names := by decide

/-- Under all other names there is what the trailer says. -/
theorem Heads.get? {entries : List Entry} {t : Trailer} {d : Dict}
    {key : Name} (h : Heads entries t d) (hkey : key ∉ codingNames) :
    d.get? key = (t.dict entries.length).get? key := by
  have hne : ∀ name ∈ codingNames, key ≠ name := by
    rintro name hname rfl
    exact hkey hname
  cases h with
  | table => rfl
  | stream f =>
      rw [f.get?_behind (hne _ (by decide)) (hne _ (by decide)), streamDict,
        Dictionary.get?_insert, if_neg (hne (.key "W") (by decide)),
        Dictionary.get?_insert, if_neg (hne (.key "Index") (by decide)),
        Dictionary.get?_insertMany _ _ (t.nodup_keys_dict _)]
      have htype : (Dict.ofType (.key "XRef")).get? key = none := by
        refine (Dictionary.lookup_entry _ _ _ _).trans ?_
        rw [if_neg (hne _ (by decide))]
        rfl
      rw [htype, Option.or_none]
      rfl

/-- The dictionary in front of a section carries the trailer. -/
theorem Heads.carries {entries : List Entry} {t : Trailer} {d : Dict}
    (h : Heads entries t d) : Carries d t entries.length := by
  intro key value hkey
  have hcoding : key ∉ codingNames := by
    intro hmem
    rw [t.get?_dict_eq_none _ (not_mem_names_of_mem_codingNames key hmem)]
      at hkey
    cases hkey
  rw [h.get? hcoding]
  exact hkey

/-- Besides the trailer such a dictionary has names and numbers only. -/
theorem Heads.every {q : Object → Bool} (hq : Object.PassesCoding q)
    {entries : List Entry} {t : Trailer} {d : Dict} (h : Heads entries t d)
    (ht : (t.dict entries.length).every q = true) : d.every q = true := by
  cases h with
  | table => exact ht
  | stream f => exact f.every_behind hq (every_streamDict hq ht)

end Xref

end Pdf
