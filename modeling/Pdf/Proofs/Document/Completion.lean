import Pdf.Proofs.Document.Storing
import Pdf.Proofs.File.Forms
import Pdf.Proofs.File.Sealing

/-! # Completion — documents, written and found in their files

    When a document is written, everything that it still has to store is stored
    and then the body is written like any other.  So a file has the objects
    that were registered, each under its reference, and for each font that was
    added a composite font under the reference that adding it gave; from there
    a reader gets to the descendant font and to the descriptor.

    A cipher changes strings and data of streams only, so it does not stand in
    the way: types, references and the arrays of widths are no strings. -/

namespace Pdf

/-! ## Dictionaries with some entries -/

namespace Dict

/-- Whether a dictionary has some entries, maybe among others. -/
def Has (d : Dict) (entries : List (Name × Object)) : Prop :=
  ∀ e ∈ entries, d.get? e.1 = some e.2

/-- A dictionary as it may stand in a file: another one, or the same but for
    its strings. -/
def IsFormOf (t d : Dict) : Prop := t = d ∨ ∃ f, t = d.mapStrings f

/-- Entries without strings are the same in all forms. -/
theorem Has.of_isFormOf {t d : Dict} {entries : List (Name × Object)}
    (h : d.Has entries) (hstrings : ∀ f, ∀ e ∈ entries, e.2.mapStrings f = e.2)
    (ht : t.IsFormOf d) : t.Has entries := by
  rcases ht with rfl | ⟨f, rfl⟩
  · exact h
  · intro e he
    rw [get?_mapStrings, h e he, Option.map_some, hstrings f e he]

end Dict

namespace CompositeFont

variable {f : CompositeFont} {descriptor : Ref} {d : Dict}

/-- The entries of a composite font by which a reader goes on. -/
def compositeEntries (f : CompositeFont) (descendant : Ref) :
    List (Name × Object) :=
  [(.key "Type", .name (.key "Font")), (.key "Subtype", .name (.key "Type0")),
    (.key "Encoding", .name (.ofString f.encoding)),
    (.key "DescendantFonts", .array [.reference descendant])]

/-- The entries of a descendant font by which a reader goes on. -/
def descendantEntries (f : CompositeFont) (descriptor : Ref) :
    List (Name × Object) :=
  [(.key "Type", .name (.key "Font")),
    (.key "Subtype", .name (.key "CIDFontType0")),
    (.key "BaseFont", .name (.ofString f.baseName)),
    (.key "FontDescriptor", .reference descriptor)]

/-- The entries of a descriptor that say what it describes. -/
def descriptorEntries (f : CompositeFont) : List (Name × Object) :=
  [(.key "Type", .name (.key "FontDescriptor")),
    (.key "FontName", .name (.ofString f.baseName))]

/-- Every form of a composite font has its entries. -/
theorem has_compositeDict {t : Dict} {descendant : Ref}
    (ht : t.IsFormOf (f.compositeDict descendant)) :
    t.Has (f.compositeEntries descendant) := by
  refine Dict.Has.of_isFormOf ?_ ?_ ht
  · simp only [Dict.Has, compositeEntries, List.forall_mem_cons]
    exact ⟨rfl, rfl, rfl, rfl, List.forall_mem_nil _⟩
  · intro g
    simp only [compositeEntries, List.forall_mem_cons]
    exact ⟨rfl, rfl, rfl, rfl, List.forall_mem_nil _⟩

/-- Every form of a descriptor has its entries. -/
theorem has_descriptorDict {t : Dict} (ht : t.IsFormOf f.descriptorDict) :
    t.Has f.descriptorEntries := by
  refine Dict.Has.of_isFormOf ?_ ?_ ht
  · simp only [Dict.Has, descriptorEntries, List.forall_mem_cons]
    exact ⟨rfl, rfl, List.forall_mem_nil _⟩
  · intro g
    simp only [descriptorEntries, List.forall_mem_cons]
    exact ⟨rfl, rfl, List.forall_mem_nil _⟩

/-- Every form of a descendant font has its entries, the two arrays included. -/
theorem has_descendantDict {t : Dict}
    (h : f.descendantDict descriptor = .ok d) (ht : t.IsFormOf d) :
    t.Has (f.descendantEntries descriptor) := by
  obtain ⟨vertical, -, rfl⟩ := descendantDict_eq h
  have hbase : ∀ key, key ≠ .key "CIDSystemInfo" → key ≠ .key "W2" →
      key ≠ .key "W" → ∀ d : Dict,
      (d.insertIfSome (.key "W") (f.horizontalArray.map .verbatim)
        |>.insertIfSome (.key "W2") (vertical.map .verbatim)
        |>.insert (.key "CIDSystemInfo") (.dictionary f.collectionDict)).get?
          key = d.get? key := by
    intro key hinfo hw2 hw d
    rw [Dictionary.get?_insert, if_neg hinfo,
      Dictionary.get?_insertIfSome _ _ hw2, Dictionary.get?_insertIfSome _ _ hw]
  refine Dict.Has.of_isFormOf ?_ ?_ ht
  · simp only [Dict.Has, descendantEntries, List.forall_mem_cons]
    refine ⟨?_, ?_, ?_, ?_, List.forall_mem_nil _⟩
    · exact hbase _ (by decide) (by decide) (by decide) _
    · exact hbase _ (by decide) (by decide) (by decide) _
    · exact hbase _ (by decide) (by decide) (by decide) _
    · exact hbase _ (by decide) (by decide) (by decide) _
  · intro g
    simp only [descendantEntries, List.forall_mem_cons]
    exact ⟨rfl, rfl, rfl, rfl, List.forall_mem_nil _⟩

/-- The arrays of advances are no strings either. -/
theorem viewedAdvances?_of_isFormOf {t : Dict} (vertical : Bool)
    (h : f.descendantDict descriptor = .ok d) (ht : t.IsFormOf d) :
    viewedAdvances? vertical t = viewedAdvances? vertical d := by
  rcases ht with rfl | ⟨g, rfl⟩
  · rfl
  · obtain ⟨array, -, hw, hw2⟩ := get?_descendantDict h
    have hverbatim : ∀ text : Option Bytes,
        (text.map Object.verbatim).map (Object.mapStrings g)
          = text.map Object.verbatim := by
      intro text
      cases text with
      | none => rfl
      | some bytes => rfl
    rw [viewedAdvances?, viewedAdvances?, Dict.get?_mapStrings,
      Dict.get?_mapStrings, hw, hw2, hverbatim, hverbatim]

end CompositeFont

namespace Body

/-! ## Objects that are found -/

/-- Whether the entries of a file lead to a content under a reference. -/
def Located (file : Bytes) (entries : List Xref.Entry) (r : Ref)
    (c : Content) : Prop :=
  ∃ offset, entries[r.number.toNat]? = some (.inUse offset 0)
    ∧ c.numbered r <+: file.drop offset

/-- A complete file of a fresh writer leads to each item, encoded. -/
theorem Complete.located {b : Body} {request : Request} {device : Device}
    {w : Writer} {contents : List (Ref × Content)} {bytes : Bytes}
    {entries : List Xref.Entry} {t : Dict}
    (h : Complete b request { sink := { device } } w contents bytes entries t)
    {r : Ref} {item : Item} (hitem : b.items[r]? = some item) :
    ∃ c, encodeObject request (b.encryptionTrailer request) r item = .ok c
      ∧ Located w.sink.content entries r c := by
  obtain ⟨c, hc, hencode⟩ := h.encodes.of_item hitem
  have hposition : 0 + request.settings.preamble.length
      = request.settings.preamble.length := Nat.zero_add _
  have hleads := h.leads
  rw [hposition] at hleads
  obtain ⟨offset, hentry, hprefix⟩ := hleads.found bytes hc
  have hcontent : w.sink.content = request.settings.preamble
      ++ (writtenObjects contents).flatMap Prod.snd ++ bytes := h.wrote.content
  refine ⟨c, hencode, offset, hentry, ?_⟩
  rw [hcontent]
  exact hprefix

/-- No writing of a body stores anything, so nothing is stored twice. -/
theorem result_write_ne_alreadyStored (b : Body) (request : Request)
    (w : Writer) (r : Ref) :
    ((b.write request).run w).result ≠ .error (.alreadyStored r) := by
  intro hresult
  have hends := ends_write b request w
  generalize (b.write request).run w = o at hresult hends
  cases hends with
  | blocked hblocks =>
      rw [Except.error.inj hresult] at hblocks
      cases hblocks
  | broken => cases hresult
  | unfinished _ hsection _ =>
      rw [Except.error.inj hresult] at hsection
      rcases xrefSection_error hsection with ⟨-, message, he⟩
        | ⟨object, offset, he⟩
      · cases he
      · cases he
  | finished => cases hresult

end Body

namespace Document

variable {d : Document}

/-- A content as it stands in the file of a document with some identifier. -/
def sealedFor (d : Document) (id : Bytes) (r : Ref) (c : Content) : Content :=
  match d.encryption with
  | some e => c.sealed (e.cipher r id)
  | none => c

/-- A dictionary is sealed into a form of itself. -/
theorem sealedFor_dictionary (d : Document) (id : Bytes) (r : Ref)
    (dict : Dict) :
    ∃ t : Dict,
      d.sealedFor id r (.value (.dictionary dict)) = .value (.dictionary t)
        ∧ t.IsFormOf dict := by
  rw [sealedFor]
  cases d.encryption with
  | none => exact ⟨dict, rfl, Or.inl rfl⟩
  | some e => exact ⟨_, rfl, Or.inr ⟨e.cipher r id, rfl⟩⟩

/-- A font as a reader of a file comes from one of its objects to the next. -/
structure HasFont (file : Bytes) (entries : List Xref.Entry)
    (p : FontObjects) : Prop where
  composite : ∃ t : Dict, Body.Located file entries p.composite
      (.value (.dictionary t))
    ∧ t.Has (p.font.compositeEntries p.descendant)
  /-- The arrays list the advances of exactly the characters used. -/
  descendant : ∃ t : Dict, Body.Located file entries p.descendant
      (.value (.dictionary t))
    ∧ t.Has (p.font.descendantEntries p.descriptor)
    ∧ viewedAdvances? false t
      = some (p.font.metrics.widths.listed p.font.used)
    ∧ viewedAdvances? p.font.isVertical t
      = some (p.font.advances.listed p.font.used)
  descriptor : ∃ t : Dict, Body.Located file entries p.descriptor
      (.value (.dictionary t))
    ∧ t.Has p.font.descriptorEntries

/-- A document in its file: a section that leads to the catalog, to the objects
    that were registered and to the fonts. -/
structure Written (d : Document) (root : Ref) (file : Bytes)
    (objects : List FontObjects) (entries : List Xref.Entry) (trailer : Dict)
    (id : Bytes) : Prop where
  opened : ∃ start, Xref.start? file = some start
    ∧ ∀ inflate, (d.settings.xrefAsStream = true →
        Inverts inflate d.compressor) →
      Xref.readSection? inflate (file.drop start) = some (entries, trailer)
  root : trailer.get? (.key "Root") = some (.reference root)
  /-- An encrypted file tells its identifier, the one that was given if there
      was one. -/
  identified : ∀ e ∈ d.encryption, identifier? file = some id
    ∧ ∀ given ∈ e.fileId, id = given
  registered : ∀ (r : Ref) item, d.body.items[r]? = some item →
    ∃ c, item.encode d.settings d.compressor r = .ok c
      ∧ Body.Located file entries r (d.sealedFor id r c)
      ∧ ∀ inflate, Inverts inflate d.compressor → item.isPlain = true →
        Recovers inflate item c
  /-- The fonts that were added and no others, each under its reference. -/
  fonts : objects.map (fun p => (p.composite, p.font)) = d.fonts.toList
  found : ∀ p ∈ objects, HasFont file entries p
  /-- All their other objects are different ones, and none of them was there
      before. -/
  distinct : (objects.flatMap (·.added)).Nodup
  fresh : ∀ r ∈ objects.flatMap (·.added), d.body.hasIssued r = false

/-- What is written for the objects of a document, but for the encryption
    dictionary: they are encoded, and sealed if the document is encrypted. -/
structure SealsFor (d : Document) (b : Body) (trailer : Trailer)
    (id : Bytes × Bytes) : Prop where
  identified : ∀ e ∈ d.encryption, b.encryptionTrailer (d.request trailer)
      = { trailer with id := some id }
    ∧ ∀ given ∈ e.fileId, id.1 = given
  encoded : ∀ r item, trailer.encrypt ≠ some r →
    Body.encodeObject (d.request trailer)
        (b.encryptionTrailer (d.request trailer)) r item
      = (item.encode d.settings d.compressor r).map (d.sealedFor id.1 r)

/-- Each document seals its objects in one way. -/
theorem exists_sealsFor (b : Body) {trailer : Trailer}
    (h : trailer.id = d.suppliedId) : ∃ id, d.SealsFor b trailer id := by
  cases hencryption : d.encryption with
  | none =>
      have hcipher : (d.request trailer).cipher = none := by
        rw [request, hencryption]
        rfl
      have hsealed : ∀ r, d.sealedFor [] r = id := by
        intro r
        funext c
        rw [sealedFor, hencryption]
        rfl
      refine ⟨([], []), ?_, ?_⟩
      · rw [hencryption]
        intro e he
        cases he
      · intro r item _
        rw [Body.encodeObject_of_not_sealed hcipher, hsealed]
        exact (id_map _).symm
  | some e =>
      have hcipher : (d.request trailer).cipher = some e.cipher := by
        rw [request, hencryption]
        rfl
      obtain ⟨id, hgiven, hid⟩ := b.encryptionTrailer_of_sealed hcipher
      refine ⟨id, ?_, ?_⟩
      · rw [hencryption]
        rintro _ ⟨⟩
        refine ⟨hid, ?_⟩
        intro given hfile
        have hsupplied : trailer.id = some (given, given) := by
          rw [h, suppliedId, hencryption]
          exact congrArg (Option.map _) hfile
        rw [hgiven _ hsupplied]
      · intro r item hr
        rw [hid, Body.encodeObject_of_sealed hcipher rfl]
        have hsealed : ∀ c, (Body.sealedObject e.cipher id.1 trailer.encrypt
            (r, c)).2 = d.sealedFor id.1 r c := by
          intro c
          rw [Body.sealedObject, if_neg hr, sealedFor, hencryption]
        exact congrArg (Except.map · _) (funext hsealed)

/-! ## From the body to the file -/

section

variable {b : Body} {root : Ref} {objects : List FontObjects}
  {trailer : Trailer} {id : Bytes × Bytes} {device : Device} {w : Writer}
  {contents : List (Ref × Content)} {bytes : Bytes}
  {entries : List Xref.Entry} {t : Dict}

/-- The encryption dictionary has a reference of its own. -/
theorem Completed.encrypt_ne (h : d.Completed root objects trailer b) {r : Ref}
    (hr : d.body.hasIssued r = true ∨ r ∈ objects.flatMap (·.added)) :
    trailer.encrypt ≠ some r := by
  intro he
  have hmem : r ∈ trailer.encrypt.toList := Option.mem_toList.mpr he
  rcases hr with hissued | hadded
  · have hfresh := h.adds.fresh r (List.mem_append_right _ hmem)
    rw [hissued] at hfresh
    cases hfresh
  · exact (List.nodup_append.mp h.adds.distinct).2.2 r
      (List.mem_append_left _ hadded) r hmem rfl

/-- What is stored under a reference is found in the file, sealed as it has to
    be. -/
theorem SealsFor.located (h : d.SealsFor b trailer id)
    (hcomplete : Body.Complete b (d.request trailer) { sink := { device } } w
      contents bytes entries t)
    {r : Ref} {item : Item} (hitem : b.items[r]? = some item)
    (hr : trailer.encrypt ≠ some r) :
    ∃ c, item.encode d.settings d.compressor r = .ok c
      ∧ Body.Located w.sink.content entries r (d.sealedFor id.1 r c) := by
  obtain ⟨c', hencode, hlocated⟩ := hcomplete.located hitem
  rw [h.encoded r item hr] at hencode
  cases hc : item.encode d.settings d.compressor r with
  | error e =>
      rw [hc] at hencode
      cases hencode
  | ok c =>
      rw [hc] at hencode
      refine ⟨c, rfl, ?_⟩
      rw [show d.sealedFor id.1 r c = c' from Except.ok.inj hencode]
      exact hlocated

/-- A dictionary that is stored is found in the file in a form of itself. -/
theorem SealsFor.located_dictionary (h : d.SealsFor b trailer id)
    (hcomplete : Body.Complete b (d.request trailer) { sink := { device } } w
      contents bytes entries t)
    {r : Ref} {dict : Dict}
    (hitem : b.items[r]? = some (.value (.dictionary dict)))
    (hr : trailer.encrypt ≠ some r) :
    ∃ dict' : Dict,
      Body.Located w.sink.content entries r (.value (.dictionary dict'))
        ∧ dict'.IsFormOf dict := by
  obtain ⟨c, hc, hlocated⟩ := h.located hcomplete hitem hr
  obtain ⟨dict', hsealed, hdict'⟩ := d.sealedFor_dictionary id.1 r dict
  rw [← Except.ok.inj hc, hsealed] at hlocated
  exact ⟨dict', hlocated, hdict'⟩

/-- The three objects of a font are found in the file. -/
theorem SealsFor.hasFont (h : d.SealsFor b trailer id)
    (hcomplete : Body.Complete b (d.request trailer) { sink := { device } } w
      contents bytes entries t)
    (hc : d.Completed root objects trailer b) (hp : d.Prepared)
    {p : FontObjects} (hmem : p ∈ objects) :
    HasFont w.sink.content entries p := by
  have hadded : ∀ r ∈ p.added, trailer.encrypt ≠ some r := fun r hr =>
    hc.encrypt_ne (Or.inr (List.mem_flatMap.mpr ⟨p, hmem, hr⟩))
  have hcomposite : trailer.encrypt ≠ some p.composite := by
    refine hc.encrypt_ne (Or.inl (hp.reserved _ p.font ?_))
    rw [← mem_fonts_iff, ← hc.listed]
    exact List.mem_map_of_mem hmem
  have hheld := hc.held p hmem
  obtain ⟨dict, hdict, hdescendant⟩ := hheld.descendant
  obtain ⟨t, ht, hform⟩ :=
    h.located_dictionary hcomplete hheld.composite hcomposite
  obtain ⟨t', ht', hform'⟩ := h.located_dictionary hcomplete hdescendant
    (hadded _ (List.mem_cons_of_mem _ List.mem_cons_self))
  obtain ⟨t'', ht'', hform''⟩ := h.located_dictionary hcomplete
    hheld.descriptor (hadded _ List.mem_cons_self)
  refine ⟨⟨t, ht, CompositeFont.has_compositeDict hform⟩,
    ⟨t', ht', CompositeFont.has_descendantDict hdict hform', ?_, ?_⟩,
    ⟨t'', ht'', CompositeFont.has_descriptorDict hform''⟩⟩
  · rw [CompositeFont.viewedAdvances?_of_isFormOf _ hdict hform']
    exact CompositeFont.viewedAdvances?_widths hdict
  · rw [CompositeFont.viewedAdvances?_of_isFormOf _ hdict hform']
    exact CompositeFont.viewedAdvances?_descendantDict hdict

/-- The trailer of an encrypted document tells its identifier. -/
theorem SealsFor.get?_id (h : d.SealsFor b trailer id)
    (hcomplete : Body.Complete b (d.request trailer) { sink := { device } } w
      contents bytes entries t)
    {e : Encryption} (he : d.encryption = some e) :
    t.get? (.key "ID") = some (Trailer.idObject id) := by
  have hheads := hcomplete.heads
  rw [Body.closingTrailer_of_sealed _ _ (h.identified e he).1] at hheads
  exact hheads.carries _ _ (Trailer.get?_dict_id _ rfl)

/-- The identifier of the file is the one that its objects are sealed with. -/
theorem SealsFor.identifier? (h : d.SealsFor b trailer id)
    (hcomplete : Body.Complete b (d.request trailer) { sink := { device } } w
      contents bytes entries t)
    {e : Encryption} (he : d.encryption = some e) :
    Pdf.identifier? w.sink.content = some id.1 := by
  obtain ⟨hfile, -, -, -, hcloses⟩ := hcomplete.section_eq
  rw [hfile]
  exact hcloses.identifier? (h.get?_id hcomplete he)

/-- The section of a file is found and read. -/
theorem exists_start_of_complete
    (hcomplete : Body.Complete b (d.request trailer) { sink := { device } } w
      contents bytes entries t) :
    ∃ start, Xref.start? w.sink.content = some start
      ∧ ∀ inflate, (d.settings.xrefAsStream = true →
          Inverts inflate d.compressor) →
        Xref.readSection? inflate (w.sink.content.drop start)
          = some (entries, t) := by
  obtain ⟨-, hstart, hdrop, -, hcloses⟩ := hcomplete.section_eq
  refine ⟨_, hstart, ?_⟩
  intro inflate hinverts
  rw [hdrop]
  cases hx : d.settings.xrefAsStream with
  | false =>
      refine hcloses.readSection?_table ?_ inflate
      rw [show (d.request trailer).settings = d.settings from rfl, hx]
      exact Bool.false_ne_true
  | true => exact hcloses.readSection? (hinverts hx)

theorem get?_root (hcomplete : Body.Complete b (d.request trailer)
    { sink := { device } } w contents bytes entries t) :
    t.get? (.key "Root") = some (.reference trailer.root) := by
  obtain ⟨given, -, htrailer⟩ := Body.exists_closingTrailer_eq b
    (d.request trailer) (Body.place d.settings contents 0) .empty
  have hheads : Xref.Heads entries { trailer with id := given } t :=
    htrailer ▸ hcomplete.heads
  exact hheads.carries _ _ (Trailer.get?_dict_root _ _)

/-- A file that is complete holds all that the document was completed with. -/
theorem written_of_complete (hp : d.Prepared)
    (hc : d.Completed root objects trailer b)
    (hcomplete : Body.Complete b (d.request trailer) { sink := { device } } w
      contents bytes entries t) :
    ∃ id, d.Written root w.sink.content objects entries t id := by
  obtain ⟨id, h⟩ := exists_sealsFor b hc.id
  refine ⟨id.1, exists_start_of_complete hcomplete, ?_, ?_, ?_, hc.listed, ?_,
    ?_, ?_⟩
  · rw [get?_root hcomplete, hc.root]
  · intro e he
    exact ⟨h.identifier? hcomplete he, (h.identified e he).2⟩
  · intro r item hitem
    have hissued : d.body.hasIssued r = true :=
      hp.sound.issued r (by rw [hitem, Option.isSome_some])
    obtain ⟨c, hencode, hlocated⟩ := h.located hcomplete
      (hc.adds.kept r item hitem) (hc.encrypt_ne (Or.inl hissued))
    refine ⟨c, hencode, hlocated, ?_⟩
    intro inflate hinverts hplain
    exact (recovers_encode hinverts hplain hencode).1
  · exact fun p hmem => h.hasFont hcomplete hc hp hmem
  · exact ((List.nodup_append.mp (List.nodup_append.mp
      hc.adds.distinct).1).1)
  · intro r hr
    exact hc.adds.fresh r
      (List.mem_append_left _ (List.mem_append_left _ hr))

end

/-! ## Documents that are built and written -/

/-- A document that cannot be completed is not written. -/
theorem run_write_of_error {root : Ref} {e : Error}
    (h : ((d.complete root).run d.body).result = .error e) (w : Writer) :
    ((d.write root).run w).result = .error e := by
  let o := (d.complete root).run d.body
  have hrun : (Action.onOwn d.body (d.complete root)).run w
      = ⟨.error e, w, o.events⟩ := by
    show (⟨o.result.map _, w, o.events⟩ : Outcome Writer _) = _
    rw [show o.result = .error e from h]
    rfl
  rw [write, Action.run_bind_error _ hrun]

/-- The completed body of a document is written and the sink is flushed. -/
theorem run_write_of_ok {root : Ref} {trailer : Trailer} {b : Body}
    {events : List Event}
    (h : (d.complete root).run d.body = ⟨.ok trailer, b, events⟩)
    (w : Writer) :
    (d.write root).run w = (Action.tell events >>= fun _ =>
      b.write (d.request trailer) >>= fun _ => Writer.flush).run w := by
  have hrun : (Action.onOwn d.body (d.complete root)).run w
      = ⟨.ok (trailer, b), w, events⟩ := by
    show Action.onOwn d.body (d.complete root) w = _
    rw [Action.onOwn, show d.complete root d.body = _ from h]
    rfl
  rw [write, Action.run_bind_ok _ hrun,
    Action.run_bind_ok _ (Action.run_tell events w)]

/-- Writing a document comes to what writing its completed body comes to,
    unless it cannot be completed or the sink cannot be flushed. -/
theorem run_write_cases {root : Ref} (hp : d.Prepared)
    (hc : d.Consistent root) (w : Writer) :
    (∃ e, ((d.write root).run w).result = .error e ∧ Body.FailsToStore e)
      ∨ ∃ trailer objects b, d.Completed root objects trailer b
        ∧ ((d.write root).run w).state
          = ((b.write (d.request trailer)).run w).state
        ∧ (((d.write root).run w).result
            = ((b.write (d.request trailer)).run w).result
          ∨ ∃ cause, ((d.write root).run w).result = .error (.io cause)) := by
  rcases stores_complete hp hc with ⟨e, he, hfails⟩
    | ⟨trailer, hok, objects, hcompleted⟩
  · exact Or.inl ⟨e, run_write_of_error he w, hfails⟩
  · generalize hrun : (d.complete root).run d.body = o at hok hcompleted
    obtain ⟨result, b, events⟩ := o
    obtain rfl : result = .ok trailer := hok
    rw [run_write_of_ok hrun, Action.run_bind_ok _ (Action.run_tell events w)]
    refine Or.inr ⟨trailer, objects, b, hcompleted, ?_⟩
    rcases Action.run_bind_cases (b.write (d.request trailer))
        (fun _ => Writer.flush) w
      with ⟨e, he, hresult, hstate⟩ | ⟨u, hu, hresult, hstate⟩
    · exact ⟨hstate, Or.inl (hresult.trans he.symm)⟩
    · obtain ⟨hflushed, hflush⟩ := Writer.run_flush_cases
        ((b.write (d.request trailer)).run w).state
      refine ⟨hstate.trans hflushed, ?_⟩
      rcases hflush with hok | ⟨cause, he⟩
      · exact Or.inl ((hresult.trans hok).trans hu.symm)
      · exact Or.inr ⟨cause, hresult.trans he⟩

/-- No reference is to blame if a document cannot be written. -/
theorem error_of_write {root : Ref} {w : Writer} {e : Error}
    (hp : d.Prepared) (hc : d.Consistent root)
    (he : ((d.write root).run w).result = .error e) :
    (∀ target referrer, e ≠ .danglingReference target referrer)
      ∧ ∀ r, e ≠ .alreadyStored r := by
  rcases run_write_cases hp hc w with ⟨e', he', hfails⟩
    | ⟨trailer, objects, b, hcompleted, -, hresult | ⟨cause, hcause⟩⟩
  · rw [he] at he'
    rw [Except.error.inj he']
    rcases hfails with rfl | rfl
    · exact ⟨nofun, nofun⟩
    · exact ⟨nofun, nofun⟩
  · rw [he] at hresult
    constructor
    · rintro target referrer rfl
      have hdangling := Body.result_write_eq_dangling_iff.mp hresult.symm
      rw [show (d.request trailer).trailer = trailer from rfl,
        hcompleted.clean] at hdangling
      cases hdangling
    · rintro r rfl
      exact Body.result_write_ne_alreadyStored _ _ _ _ hresult.symm
  · rw [he] at hcause
    rw [Except.error.inj hcause]
    exact ⟨nofun, nofun⟩

/-- A document that was written to the end is found in its file. -/
theorem written_of_ok {root : Ref} {device : Device} (hp : d.Prepared)
    (hc : d.Consistent root)
    (hok : ((d.write root).run { sink := { device } }).result = .ok ()) :
    ∃ objects entries trailer id, d.Written root
      ((d.write root).run { sink := { device } }).state.sink.content objects
      entries trailer id := by
  rcases run_write_cases hp hc { sink := { device } } with ⟨e, he, -⟩
    | ⟨trailer, objects, b, hcompleted, hstate, hresult | ⟨cause, hcause⟩⟩
  · rw [hok] at he
    cases he
  · obtain ⟨contents, bytes, entries, t, hcomplete⟩ :=
      Body.exists_complete_of_ok hcompleted.adds.sound _
        (hresult.symm.trans hok)
    obtain ⟨id, hwritten⟩ := written_of_complete hp hcompleted hcomplete
    rw [hstate]
    exact ⟨objects, entries, t, id, hwritten⟩
  · rw [hok] at hcause
    cases hcause

/-- **FONTS END UP COMPLETE**: when a document that was built by any calls, as
    long as none of them fills the reference of a font and nothing refers to
    nothing, is written, no reference is found to dangle and nothing is stored
    twice.  A file that is complete holds all that was registered, and each
    font under the reference that adding it gave, with the characters of all
    texts that it was used for, and leads from it to two objects that belong to
    this font only. -/
theorem written_afterAll {start : Document} {operations : List Operation}
    {root : Ref} (hstart : start.IsFresh)
    (hspares : SparesFonts start operations)
    (hconsistent : (start.afterAll operations).Consistent root)
    (device : Device) :
    let d := start.afterAll operations
    let o := (d.write root).run { sink := { device } }
    (∀ target referrer, o.result ≠ .error (.danglingReference target referrer))
      ∧ (∀ r, o.result ≠ .error (.alreadyStored r))
      ∧ (o.result = .ok () → ∃ objects entries trailer id,
        d.Written root o.state.sink.content objects entries trailer id)
      ∧ ∀ before font encoding behind r,
        operations = before ++ .addFont font encoding :: behind →
        ((addFont font encoding).run (start.afterAll before)).result = .ok r →
        (start.afterAll before).font? r = none
          ∧ ∃ f, d.font? r = some f
            ∧ IsUsed (start.afterAll before).library font encoding behind r f
    := by
  intro d o
  have hp : d.Prepared := prepared_afterAll hstart.prepared hspares
  refine ⟨?_, ?_, written_of_ok hp hconsistent, ?_⟩
  · intro target referrer he
    exact (error_of_write hp hconsistent he).1 target referrer rfl
  · intro r he
    exact (error_of_write hp hconsistent he).2 r rfl
  · intro before font encoding behind r hoperations hadd
    have hbefore : SparesFonts start before :=
      SparesFonts.of_append (hoperations ▸ hspares)
    have hd : d = ((addFont font encoding).run
        (start.afterAll before)).state.afterAll behind := by
      show start.afterAll operations = _
      rw [hoperations, afterAll, List.foldl_append]
      rfl
    rw [hd]
    exact isUsed_of_addFont (prepared_afterAll hstart.prepared hbefore) hadd
      behind

/-- A library with one font under all names. -/
def sampleLibrary : FontLibrary where
  source :=
    { fontEntry := fun _ => some "J_"
      encodingEntry := fun _ => none
      metricRecord := fun _ => some CompositeFont.negativeRecord
      codeMapping := fun _ => .ok #[] }

/-- An encrypted document with a title and nothing else. -/
def sampleStart : Document where
  settings := { addsId := false }
  library := sampleLibrary
  info := some { title := some "A" }
  encryption := some
    { cipher := Body.marking
      dictionary := Dictionary.ofList [(.key "O", .utf8Text "key")]
      fileId := some (Bytes.ascii "id") }

/-- The font is added twice, and one of the two is used. -/
def sampleOperations : List Operation :=
  [.addFont "Gothic" "Identity-H", .addFont "Gothic" "Identity-H",
    .useText ⟨2, 0⟩ "BZ",
    .onBody (.add (.value (.dictionary ((Dict.ofType (.key "Catalog")).insert
      (.key "Fonts") (.array [.reference ⟨1, 0⟩, .reference ⟨2, 0⟩])))))]

/-- Each of the two gets a composite font of its own. -/
theorem written_afterAll_sample :
    sampleStart.IsFresh ∧ SparesFonts sampleStart sampleOperations
      ∧ (sampleStart.afterAll sampleOperations).Consistent ⟨3, 0⟩
      ∧ (((sampleStart.afterAll sampleOperations).write ⟨3, 0⟩).run {}).result
        = .ok ()
      ∧ ∃ objects entries trailer id,
        (sampleStart.afterAll sampleOperations).Written ⟨3, 0⟩
            (((sampleStart.afterAll sampleOperations).write
              ⟨3, 0⟩).run {}).state.sink.content objects entries trailer id
          ∧ objects.map (·.composite) = [⟨1, 0⟩, ⟨2, 0⟩] := by
  have hfresh : sampleStart.IsFresh := ⟨rfl, rfl⟩
  have hspares : SparesFonts sampleStart sampleOperations :=
    ⟨trivial, trivial, trivial, trivial, trivial⟩
  have hconsistent :
      (sampleStart.afterAll sampleOperations).Consistent ⟨3, 0⟩ := by
    decide +kernel
  have hok : (((sampleStart.afterAll sampleOperations).write
      ⟨3, 0⟩).run {}).result = .ok () :=
    Writer.eq_ok_of_isOk (by decide +kernel)
  obtain ⟨-, -, hwritten, -⟩ :=
    written_afterAll hfresh hspares hconsistent .unlimited
  obtain ⟨objects, entries, trailer, id, hwritten⟩ := hwritten hok
  refine ⟨hfresh, hspares, hconsistent, hok, objects, entries, trailer,
    id, hwritten, ?_⟩
  have hfonts := congrArg (List.map Prod.fst) hwritten.fonts
  rw [List.map_map] at hfonts
  refine hfonts.trans ?_
  decide +kernel

end Document

end Pdf
