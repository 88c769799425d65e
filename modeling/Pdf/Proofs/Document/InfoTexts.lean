import Pdf.Document.Info
import Pdf.Proofs.Text.Decoding
import Pdf.Proofs.Syntax.RoundTrip
import Pdf.Proofs.Body.Growth

/-! # Document information, read back — what is said is what is found

    The document information says something in up to six fields.  Each field
    that is set has one entry of its own, under a name that no other field has,
    and what stands there is a text string.  A reader of the file finds the
    same dictionary and decodes the text of each field from it. -/

namespace Pdf

namespace Info

/-! ## Fields -/

/-- The fields in which a document may say something about itself. -/
inductive Field where
  | title
  | authors
  | subject
  | keywords
  | creator
  | producer
  deriving DecidableEq

namespace Field

/-- The fields in the order of their entries. -/
def all : List Field := [title, authors, subject, keywords, creator, producer]

/-- The name of the entry of a field. -/
def name : Field → Name
  | title => .key "Title"
  | authors => .key "Author"
  | subject => .key "Subject"
  | keywords => .key "Keywords"
  | creator => .key "Creator"
  | producer => .key "Producer"

/-- No field is forgotten. -/
theorem mem_all (field : Field) : field ∈ all := by
  cases field <;> decide

/-- No two fields have one name. -/
theorem nodup_names : (all.map name).Nodup := by decide

end Field

/-- The text of a field; a list is joined by commas. -/
def text? (i : Info) : Field → Option String
  | .title => i.title
  | .authors => i.authors.map (String.intercalate ", ")
  | .subject => i.subject
  | .keywords => i.keywords.map (String.intercalate ", ")
  | .creator => i.creator
  | .producer => i.producer

/-- The fields that are set. -/
def given (i : Info) : List Field :=
  Field.all.filter fun field => (i.text? field).isSome

/-- The texts are those of the fields that are set, in the order of the
    fields. -/
theorem texts_eq (i : Info) : i.texts = Field.all.filterMap fun field =>
    (i.text? field).map (field.name, ·) := rfl

/-- A field that is set has its text among the texts. -/
theorem mem_texts {i : Info} {field : Field} {t : String}
    (h : i.text? field = some t) : (field.name, t) ∈ i.texts := by
  rw [texts_eq]
  refine List.mem_filterMap.mpr ⟨field, field.mem_all, ?_⟩
  rw [h, Option.map_some]

/-- There is a text under the name of each field that is set. -/
theorem map_fst_texts (i : Info) :
    i.texts.map Prod.fst = i.given.map Field.name := by
  rw [texts_eq, given]
  induction Field.all with
  | nil => rfl
  | cons field fields ih =>
      cases h : i.text? field with
      | none =>
          rw [List.filterMap_cons_none (by rw [h, Option.map_none]), ih,
            List.filter_cons_of_neg (by rw [h]; exact Bool.false_ne_true)]
      | some t =>
          rw [List.filterMap_cons_some (by rw [h, Option.map_some]),
            List.map_cons, ih, List.filter_cons_of_pos (by rw [h]; rfl),
            List.map_cons]

/-- No name is given twice. -/
theorem nodup_given (i : Info) : (i.given.map Field.name).Nodup :=
  Field.nodup_names.sublist (List.filter_sublist.map Field.name)

/-- Nothing is set exactly if no field has a text. -/
theorem isSet_eq_false_iff (i : Info) :
    i.isSet = false ↔ ∀ field, i.text? field = none := by
  rw [isSet, Bool.not_eq_false', List.isEmpty_iff]
  constructor
  · intro h field
    refine Option.eq_none_iff_forall_ne_some.mpr ?_
    intro t ht
    have hmem := mem_texts ht
    rw [h] at hmem
    exact nomatch hmem
  · intro h
    rw [texts_eq]
    refine List.filterMap_eq_nil_iff.mpr ?_
    intro field _
    rw [h field, Option.map_none]

/-! ## The dictionary -/

/-- Whether a dictionary says what the fields say: it has one entry for each
    field that is set, and no others, and the string in it is read as the text
    of the field. -/
structure Says (i : Info) (d : Dict) : Prop where
  keys : d.keys = i.given.map Field.name
  distinct : d.keys.Nodup
  texts : ∀ field t, i.text? field = some t → ∃ form bytes,
    d.get? field.name = some (.string form bytes)
      ∧ Text.decode? bytes = some t

/-- The entries of the dictionary are the texts in their order. -/
theorem entries_dictionary (i : Info) : i.dictionary.entries
    = i.texts.map fun entry => (entry.1, Object.text entry.2) := by
  refine Dictionary.entries_ofList ?_
  rw [List.map_map]
  show (i.texts.map Prod.fst).Nodup
  rw [map_fst_texts]
  exact nodup_given i

/-- The dictionary says what the information says. -/
theorem says_dictionary (i : Info) : i.Says i.dictionary := by
  have hkeys : i.dictionary.keys = i.given.map Field.name := by
    rw [Dictionary.keys, entries_dictionary, List.map_map, ← map_fst_texts]
    rfl
  have hdistinct : i.dictionary.keys.Nodup := by
    rw [hkeys]
    exact nodup_given i
  refine ⟨hkeys, hdistinct, ?_⟩
  intro field t ht
  obtain ⟨form, bytes, htext, hdecode⟩ := Object.exists_text_eq t
  refine ⟨form, bytes, ?_, hdecode⟩
  rw [← htext]
  refine Dictionary.get?_of_mem hdistinct ?_
  rw [entries_dictionary]
  exact List.mem_map_of_mem (mem_texts ht)

/-- Nothing in the dictionary stands in written form already. -/
theorem isPlain_dictionary (i : Info) :
    (Object.dictionary i.dictionary).isPlain = true := by
  refine (Object.every_dictionary i.dictionary).mpr ?_
  intro e he
  rw [entries_dictionary] at he
  obtain ⟨⟨key, t⟩, -, rfl⟩ := List.mem_map.mp he
  obtain ⟨form, bytes, htext, -⟩ := Object.exists_text_eq t
  show Object.every _ (Object.text t) = true
  rw [htext]
  rfl

/-! ## Storing -/

/-- Information without fields is not stored. -/
theorem run_store_of_not_isSet {i : Info} (b : Body) (h : i.isSet = false) :
    i.store.run b = ⟨.ok none, b, []⟩ := by
  rw [store, h]
  rfl

/-- Information with fields is stored as one new object. -/
theorem run_store_of_isSet {i : Info} {b : Body} (h : i.isSet = true)
    (hlt : b.issued < Body.highestNumber) : i.store.run b
      = ⟨.ok (some b.nextRef),
        b.adding (.value (.dictionary i.dictionary)), []⟩ := by
  rw [store, if_pos h, Action.run_bind_ok _ (Body.run_add_of_lt _ hlt)]
  rfl

/-- **WHAT A DOCUMENT SAYS ABOUT ITSELF IS READ BACK.**  Every text is read
    from its string, so different texts have different strings.  Nothing is
    stored exactly if no field is set.  If there is one, a single object is
    added under a new number; a reader gets the dictionary back, which has one
    entry for each field that is set, with a string that is read as the text of
    the field. -/
theorem store_legible {b : Body} (i : Info) (hb : b.Reachable)
    (hlt : b.issued < Body.highestNumber) :
    (∀ t, ∃ form bytes, Object.text t = .string form bytes
        ∧ Text.decode? bytes = some t)
      ∧ (∀ t u, Object.text t = Object.text u → t = u)
      ∧ (i.store.run b = ⟨.ok none, b, []⟩ ↔ ∀ field, i.text? field = none)
      ∧ ((∃ field, i.text? field ≠ none) → b.items[b.nextRef]? = none
        ∧ ∃ d, i.store.run b
            = ⟨.ok (some b.nextRef), b.adding (.value (.dictionary d)), []⟩
          ∧ Syntax.read? (Object.dictionary d).written
            = some (.dictionary d, [])
          ∧ i.Says d) := by
  refine ⟨Object.exists_text_eq, fun _ _ => Object.text_injective, ?_, ?_⟩
  · rw [← isSet_eq_false_iff]
    constructor
    · intro h
      refine Bool.eq_false_iff.mpr ?_
      intro hset
      rw [run_store_of_isSet hset hlt] at h
      cases congrArg Outcome.result h
    · exact run_store_of_not_isSet b
  · rintro ⟨field, hfield⟩
    have hset : i.isSet = true := by
      refine Bool.of_not_eq_false ?_
      intro hnone
      exact hfield ((isSet_eq_false_iff i).mp hnone field)
    have hread := @Syntax.read?_append_written _ [] [] rfl
      (isPlain_dictionary i) Syntax.follows_nil
    rw [List.nil_append, List.append_nil] at hread
    exact ⟨hb.sound.getElem?_nextRef, i.dictionary,
      run_store_of_isSet hset hlt, hread, says_dictionary i⟩

/-- A title beyond the basic plane, two authors and an empty list. -/
def sample : Info where
  title := some "𝄞 (a\\b)"
  authors := some ["Ada", "中"]
  keywords := some []

theorem store_legible_sample :
    Body.sample.Reachable ∧ Body.sample.issued < Body.highestNumber
      ∧ sample.given = [.title, .authors, .keywords]
      ∧ sample.text? .authors = some "Ada, 中"
      ∧ ∃ d, sample.store.run Body.sample
          = ⟨.ok (some Body.sample.nextRef),
            Body.sample.adding (.value (.dictionary d)), []⟩
        ∧ Syntax.read? (Object.dictionary d).written
          = some (.dictionary d, [])
        ∧ sample.Says d := by
  have hlt : Body.sample.issued < Body.highestNumber := by decide
  obtain ⟨-, -, -, hset⟩ := store_legible sample Body.reachable_sample hlt
  obtain ⟨-, hstored⟩ := hset ⟨.title, Option.some_ne_none _⟩
  exact ⟨Body.reachable_sample, hlt, rfl, rfl, hstored⟩

end Info

end Pdf
