import Pdf.Proofs.Document.Completion

/-! # Identifiers — what encryption does not choose

    The keys of an encrypted file are derived from its identifier, and a file
    that was given none takes a digest of its objects.  The encryption
    dictionary is one of them by the time the digest is made, under whatever
    reference comes next, and it is left out by this reference.  So documents
    with the same content have one identifier, however they are encrypted and
    written.

    Two things are to be said of a document for this.  Completing it comes to
    storing its content, which the encryption plays no part in, and its
    dictionary behind that (`EndsWith`); and the digest does not see what is
    stored under the reference that is left out
    (`Body.objectsDigest_store`).

    That a cipher is asked with this identifier and with no other is said by
    replacing it: a cipher that agrees with it on this one identifier leads to
    the same file, and to the same events and failures. -/

namespace Pdf

/-- The two parts of the identifier of a file. -/
def identifiers? (file : Bytes) : Option (Bytes × Bytes) := do
  let start ← Xref.start? file
  let d ← Xref.dict? (file.drop start)
  match d.get? (.key "ID") with
  | some (.array [.string _ first, .string _ second]) => some (first, second)
  | _ => none

namespace Body

/-- The identifier that a reader finds is the one of the trailer. -/
theorem Closes.identifiers? {b : Body} {request : Request} {front : Bytes}
    {entries : List Xref.Entry} {d : Dict} {bytes : Bytes} {id : Bytes × Bytes}
    (h : Closes b request front.length entries d bytes)
    (hid : d.get? (.key "ID") = some (Trailer.idObject id)) :
    Pdf.identifiers? (front ++ bytes) = some id := by
  rw [Pdf.identifiers?, h.start?]
  simp only [List.drop_left, h.dict?, hid, Trailer.idObject,
    Option.bind_eq_bind, Option.bind_some]

/-! ## Actions that only add -/

/-- An action by which bodies grow, be it successful or not. -/
def Enlarges {α : Type} (a : Action Body α) : Prop :=
  ∀ b : Body, b.Sound → b.Grows (a.run b).state

/-- An action that leaves the body alone enlarges it by nothing. -/
theorem enlarges_of_state_eq {α : Type} {a : Action Body α}
    (h : ∀ b, (a.run b).state = b) : Enlarges a := by
  intro b hb
  rw [h b]
  exact .refl hb

/-- Two enlargements one after the other are one. -/
theorem Enlarges.bind {α β : Type} {a : Action Body α}
    {f : α → Action Body β} (ha : Enlarges a) (hf : ∀ x, Enlarges (f x)) :
    Enlarges (a >>= f) := by
  intro b hb
  have hgrows := ha b hb
  rcases Action.run_bind_cases a f b with ⟨e, -, -, hstate⟩
    | ⟨x, -, -, hstate⟩
  · rw [hstate]
    exact hgrows
  · rw [hstate]
    exact hgrows.trans (hf x _ hgrows.sound)

/-- Adding an item enlarges a body. -/
theorem enlarges_add (item : Item) : Enlarges (add item) := by
  intro b hb
  rw [run_add]
  split
  · exact .refl hb
  · next hlt => exact grows_adding item hb (Nat.lt_of_not_le hlt)

theorem enlarges_fill (r : Ref) (item : Item) : Enlarges (fill r item) := by
  intro b hb
  rw [run_fill]
  split
  · exact .refl hb
  · next hissued =>
      split
      · exact .refl hb
      · next hholds =>
          refine grows_store item hb (Bool.not_eq_false _ ▸ hissued) ?_
          rw [holds_eq] at hholds
          exact Option.not_isSome_iff_eq_none.mp hholds

end Body

theorem CompositeFont.enlarges_store (f : CompositeFont) (r : Ref) :
    Body.Enlarges (f.store r) := by
  refine (Body.enlarges_add _).bind fun descriptor => ?_
  refine Body.Enlarges.bind ?_ fun dict => ?_
  · refine Body.enlarges_of_state_eq fun b => ?_
    rw [Action.run_ofExcept]
  · refine (Body.enlarges_add _).bind fun descendant => ?_
    refine (Body.enlarges_fill r _).bind fun _ => ?_
    exact Body.enlarges_of_state_eq fun _ => rfl

namespace Body

/-! ## Digests -/

/-- The digest does not see what is stored under the reference that is left
    out. -/
theorem objectsDigest_store (b : Body) (r : Ref) (item : Item) :
    (b.store r item).objectsDigest (some r) = b.objectsDigest (some r) := by
  let counts (s : Ref) (_ : Item) : Bool := some s ≠ some r
  have hothers : ∀ b : Body,
      b.items.toList.filter (fun o => some o.1 ≠ some r)
        = (b.items.filter counts).toList :=
    fun b => (@Std.ExtTreeMap.toList_filter _ _ _ b.items _ counts).symm
  have hsame : (b.store r item).items.filter counts
      = b.items.filter counts := by
    refine Std.ExtTreeMap.ext_getElem? ?_
    intro s
    rw [Std.ExtTreeMap.getElem?_filter', Std.ExtTreeMap.getElem?_filter',
      getElem?_store]
    by_cases hs : s = r
    · subst hs
      simp [counts]
    · rw [if_neg hs]
  rw [objectsDigest, objectsDigest, hothers, hothers, hsame]

/-- The encryption dictionary does not take part in the identifier. -/
theorem derivedId_adding (b : Body) (item : Item) {t : Trailer}
    (h : t.encrypt = some b.nextRef) :
    (b.adding item).derivedId t = b.derivedId t := by
  have hdigest : (b.adding item).objectsDigest (some b.nextRef)
      = b.objectsDigest (some b.nextRef) :=
    objectsDigest_store b.issue b.nextRef item
  rw [derivedId, derivedId, h, hdigest]

/-- Besides the content that counts only the root and the information are
    looked at. -/
theorem derivedId_eq (b : Body) {t t' : Trailer} (hroot : t'.root = t.root)
    (hinfo : t'.info = t.info) (hencrypt : t'.encrypt = t.encrypt) :
    b.derivedId t' = b.derivedId t := by
  rw [derivedId, derivedId, hroot, hinfo, hencrypt]

/-! ## Another cipher -/

variable {b : Body} {request : Request} {cipher cipher' : Cipher}
  {t : Trailer} {id : Bytes × Bytes}

/-- Ciphers that agree on the identifier of a file seal it in the same way. -/
theorem sealOf_eq_of_agree (hid : t.id = some id)
    (h : ∀ r data, cipher' r id.1 data = cipher r id.1 data) (r : Ref) :
    sealOf (some cipher') t r = sealOf (some cipher) t r := by
  have hseal : cipher' r id.1 = cipher r id.1 := funext (h r)
  unfold sealOf
  rw [hid]
  simp only [hseal]

/-- An object is encoded alike with ciphers that agree on the identifier. -/
theorem encodeObject_eq_of_agree (hcipher : request.cipher = some cipher)
    (hid : t.id = some id)
    (h : ∀ r data, cipher' r id.1 data = cipher r id.1 data) (r : Ref)
    (item : Item) :
    encodeObject { request with cipher := some cipher' } t r item
      = encodeObject request t r item := by
  rw [encodeObject, encodeObject, hcipher, sealOf_eq_of_agree hid h]

/-- All objects are encoded alike with ciphers that agree on the identifier. -/
theorem encodeAll_eq_of_agree (hcipher : request.cipher = some cipher)
    (hid : t.id = some id)
    (h : ∀ r data, cipher' r id.1 data = cipher r id.1 data)
    (items : List (Ref × Item)) :
    encodeAll { request with cipher := some cipher' } t items
      = encodeAll request t items := by
  induction items with
  | nil => rfl
  | cons o items ih =>
      rw [encodeAll, encodeAll, encodeObject_eq_of_agree hcipher hid h, ih]

/-- A cipher is asked with the identifier of the file only. -/
theorem write_eq_of_agree (hcipher : request.cipher = some cipher)
    (hid : (b.encryptionTrailer request).id = some id)
    (h : ∀ r data, cipher' r id.1 data = cipher r id.1 data) :
    b.write { request with cipher := some cipher' } = b.write request := by
  have htrailer : b.encryptionTrailer { request with cipher := some cipher' }
      = b.encryptionTrailer request := by
    rw [encryptionTrailer, encryptionTrailer, hcipher]
    rfl
  have hplan : b.plan { request with cipher := some cipher' }
      = b.plan request := by
    funext offset hash
    unfold plan
    rw [htrailer]
    simp only [encodeAll_eq_of_agree hcipher hid h]
    rfl
  funext w
  rw [write, write, hplan]

end Body

namespace Document

variable {d d' : Document} {e e' : Encryption} {root : Ref}
  {trailer : Trailer}

/-! ## Completing an encrypted document -/

/-- Two documents with the same objects, fonts and information.  They may be
    encrypted, compressed and written in different ways. -/
structure SharesContent (d d' : Document) : Prop where
  body : d'.body = d.body
  fonts : d'.fonts = d.fonts
  info : d'.info = d.info

/-- What is stored of a document besides its encryption dictionary. -/
def storeContent (d : Document) : Action Body (Option Ref) := do
  d.storeFonts
  d.storeInfo

/-- Documents with the same content store it in the same way. -/
theorem SharesContent.storeContent_eq (h : d.SharesContent d') :
    d'.storeContent = d.storeContent := by
  rw [storeContent, storeContent, storeFonts, storeFonts, storeInfo,
    storeInfo, h.fonts, h.info]

theorem enlarges_storeFonts (d : Document) : Body.Enlarges d.storeFonts := by
  rw [storeFonts]
  induction d.fonts.toList with
  | nil => exact Body.enlarges_of_state_eq fun _ => rfl
  | cons o fonts ih =>
      exact (CompositeFont.enlarges_store o.2 o.1).bind fun _ => ih

theorem enlarges_storeContent (d : Document) :
    Body.Enlarges d.storeContent := by
  refine d.enlarges_storeFonts.bind fun _ => ?_
  have hnothing : Body.Enlarges (pure none : Action Body (Option Ref)) :=
    Body.enlarges_of_state_eq fun _ => rfl
  rw [storeInfo]
  cases d.info with
  | none => exact hnothing
  | some i =>
      show Body.Enlarges i.store
      rw [Info.store]
      cases i.isSet with
      | false => exact hnothing
      | true =>
          refine (Body.enlarges_add _).bind fun _ => ?_
          exact Body.enlarges_of_state_eq fun _ => rfl

/-- A document with its content stored, which then has its encryption
    dictionary stored under the next reference. -/
structure EndsWith (d : Document) (e : Encryption) (root : Ref)
    (trailer : Trailer) (info : Option Ref) (b : Body) : Prop where
  content : (d.storeContent.run d.body).result = .ok info
  body : (d.storeContent.run d.body).state = b
  room : b.issued < Body.highestNumber
  completed : ((d.complete root).run d.body).state
    = b.adding (.value (.dictionary e.dictionary))
  trailer : trailer
    = { root, info, encrypt := some b.nextRef, id := d.suppliedId }

/-- The encryption dictionary is added under the next number, if there is
    one. -/
theorem run_storeEncryption (he : d.encryption = some e) (b : Body) :
    d.storeEncryption.run b = if Body.highestNumber ≤ b.issued
      then ⟨.error .numbersExhausted, b, []⟩
      else ⟨.ok (some b.nextRef),
        b.adding (.value (.dictionary e.dictionary)), []⟩ := by
  have hadd := Body.run_add (.value (.dictionary e.dictionary)) b
  rw [storeEncryption, he]
  by_cases hfull : Body.highestNumber ≤ b.issued
  · rw [if_pos hfull] at hadd ⊢
    exact Action.run_bind_error _ hadd
  · rw [if_neg hfull] at hadd ⊢
    exact Action.run_bind_ok _ hadd

/-- A document that is completed ends with its encryption dictionary. -/
theorem exists_endsWith (he : d.encryption = some e)
    (hok : ((d.complete root).run d.body).result = .ok trailer) :
    ∃ info b, d.EndsWith e root trailer info b := by
  obtain ⟨u, hfonts, hrest, hstate⟩ := Action.exists_of_bind_eq_ok hok
  obtain ⟨info, hinfo, hrest, hstate'⟩ := Action.exists_of_bind_eq_ok hrest
  obtain ⟨encrypt, hencrypt, hgiven, hstate''⟩ :=
    Action.exists_of_bind_eq_ok hrest
  have hcontent : d.storeContent.run d.body = _ :=
    Action.run_bind_of_ok (fun _ => d.storeInfo) hfonts
  generalize hb : (d.storeInfo.run (d.storeFonts.run d.body).state).state = b
    at *
  rw [run_storeEncryption he] at hencrypt hgiven hstate''
  split at hencrypt
  · cases hencrypt
  · next hroom =>
      rw [if_neg hroom] at hgiven hstate''
      obtain rfl := Except.ok.inj hencrypt
      refine ⟨info, b, ?_, ?_, Nat.lt_of_not_le hroom, ?_, ?_⟩
      · rw [hcontent]
        exact hinfo
      · rw [hcontent, ← hb]
      · exact hstate.trans (hstate'.trans hstate'')
      · exact (Except.ok.inj hgiven).symm

/-- Documents that share their content store it alike. -/
theorem EndsWith.unique {trailer' : Trailer} {info info' : Option Ref}
    {b b' : Body} (h : d.EndsWith e root trailer info b)
    (hsame : d.SharesContent d')
    (h' : d'.EndsWith e' root trailer' info' b') : info' = info ∧ b' = b := by
  have hcontent := h'.content
  have hbody := h'.body
  rw [hsame.storeContent_eq, hsame.body] at hcontent hbody
  exact ⟨Except.ok.inj (hcontent.symm.trans h.content),
    hbody.symm.trans h.body⟩

/-- The identifier of an encrypted document, for its content and its trailer:
    the one that was given, or else a digest. -/
def keyId (e : Encryption) (b : Body) (trailer : Trailer) : Bytes :=
  e.fileId.getD (b.derivedId trailer)

/-- An encrypted document is written with this identifier. -/
theorem EndsWith.encryptionTrailer_eq {info : Option Ref} {b : Body}
    (h : d.EndsWith e root trailer info b) (he : d.encryption = some e) :
    ((d.complete root).run d.body).state.encryptionTrailer (d.request trailer)
      = trailer.identified (keyId e b trailer) := by
  have hcipher : (d.request trailer).cipher.isSome = true := by
    rw [request, he]
    rfl
  have hid : trailer.id = e.fileId.map fun id => (id, id) := by
    rw [h.trailer, suppliedId, he]
    rfl
  have hencrypt : trailer.encrypt = some b.nextRef := by
    rw [h.trailer]
  rw [Body.encryptionTrailer, h.completed]
  cases hfile : e.fileId with
  | none =>
      rw [hfile] at hid
      rw [if_pos ⟨hcipher, hid⟩, keyId, hfile, Option.getD_none,
        show (d.request trailer).trailer = trailer from rfl,
        Body.derivedId_adding b _ hencrypt]
  | some id =>
      rw [hfile] at hid
      rw [if_neg fun hnone => Option.some_ne_none _ (hid.symm.trans hnone.2),
        keyId, hfile]
      show trailer = { trailer with id := some (id, id) }
      rw [show some (id, id) = trailer.id from hid.symm]

/-- The identifier says nothing of the encryption. -/
theorem EndsWith.keyId_eq {trailer' : Trailer} {info info' : Option Ref}
    {b b' : Body} (h : d.EndsWith e root trailer info b)
    (hsame : d.SharesContent d')
    (h' : d'.EndsWith e' root trailer' info' b')
    (hfile : e'.fileId = e.fileId) :
    keyId e' b' trailer' = keyId e b trailer := by
  obtain ⟨rfl, rfl⟩ := h.unique hsame h'
  have hderived : b'.derivedId trailer' = b'.derivedId trailer := by
    rw [h.trailer, h'.trailer]
    exact Body.derivedId_eq _ rfl rfl rfl
  rw [keyId, keyId, hfile, hderived]

/-! ## Writing an encrypted document -/

/-- The document with another cipher. -/
def withCipher (d : Document) (cipher : Cipher) : Document :=
  { d with encryption := d.encryption.map fun e => { e with cipher } }

/-- The cipher does not take part in completing a document. -/
theorem complete_withCipher (d : Document) (cipher : Cipher) (root : Ref) :
    (d.withCipher cipher).complete root = d.complete root := by
  have hstore : (d.withCipher cipher).storeEncryption = d.storeEncryption := by
    rw [storeEncryption, storeEncryption, withCipher]
    cases d.encryption with
    | none => rfl
    | some e => rfl
  have hsupplied : (d.withCipher cipher).suppliedId = d.suppliedId := by
    rw [suppliedId, suppliedId, withCipher]
    cases d.encryption with
    | none => rfl
    | some e => rfl
  rw [complete, complete, hstore, hsupplied]
  rfl

/-- What a cipher makes of other identifiers does not matter. -/
theorem run_write_withCipher (he : d.encryption = some e) {b : Body}
    {events : List Event} {id : Bytes × Bytes} {cipher : Cipher}
    (hrun : (d.complete root).run d.body = ⟨.ok trailer, b, events⟩)
    (hid : (b.encryptionTrailer (d.request trailer)).id = some id)
    (h : ∀ r data, cipher r id.1 data = e.cipher r id.1 data) (w : Writer) :
    ((d.withCipher cipher).write root).run w = (d.write root).run w := by
  have hrun' : ((d.withCipher cipher).complete root).run
      (d.withCipher cipher).body = ⟨.ok trailer, b, events⟩ := by
    rw [complete_withCipher]
    exact hrun
  have hcipher : (d.request trailer).cipher = some e.cipher := by
    rw [request, he]
    rfl
  have hrequest : (d.withCipher cipher).request trailer
      = { d.request trailer with cipher := some cipher } := by
    rw [request, request, withCipher, he]
    rfl
  rw [run_write_of_ok hrun' w, run_write_of_ok hrun w, hrequest,
    Body.write_eq_of_agree hcipher hid h]

/-- A document that is written to the end was completed, and its body was
    written to the end. -/
theorem exists_complete_of_write {w : Writer}
    (hok : ((d.write root).run w).result = .ok ()) :
    ∃ trailer b events,
      (d.complete root).run d.body = ⟨.ok trailer, b, events⟩
        ∧ ((b.write (d.request trailer)).run w).result = .ok ()
        ∧ ((d.write root).run w).state
          = ((b.write (d.request trailer)).run w).state := by
  generalize hrun : (d.complete root).run d.body = o
  obtain ⟨result, b, events⟩ := o
  cases result with
  | error e =>
      have he := run_write_of_error (e := e) (by rw [hrun]) w
      rw [hok] at he
      cases he
  | ok trailer =>
      have hwrite := run_write_of_ok hrun w
      rw [Action.run_bind_ok _ (Action.run_tell events w)] at hwrite
      rw [hwrite] at hok ⊢
      obtain ⟨u, hu, -, hstate⟩ := Action.exists_of_bind_eq_ok hok
      refine ⟨trailer, b, events, rfl, hu, hstate.trans ?_⟩
      exact (Writer.run_flush_cases _).1

/-- A document whose file tells an identifier, both parts of which are equal,
    and has its objects sealed for it. -/
structure IdentifiedBy (d : Document) (e : Encryption) (root : Ref)
    (id : Bytes) (w : Writer) : Prop where
  told : identifiers? ((d.write root).run w).state.sink.content
    = some (id, id)
  /-- No call of the cipher has another identifier: what it would give then
      has no influence. -/
  asked : ∀ cipher : Cipher,
    (∀ r data, cipher r id data = e.cipher r id data) →
    ((d.withCipher cipher).write root).run w = (d.write root).run w
  /-- Every object that was registered is found, sealed by such calls. -/
  found : ∃ start entries trailer,
    Xref.start? ((d.write root).run w).state.sink.content = some start
      ∧ (∀ inflate, (d.settings.xrefAsStream = true →
          Inverts inflate d.compressor) →
        Xref.readSection? inflate
          (((d.write root).run w).state.sink.content.drop start)
            = some (entries, trailer))
      ∧ ∀ (r : Ref) item, d.body.items[r]? = some item →
        ∃ c, item.encode d.settings d.compressor r = .ok c
          ∧ Body.Located ((d.write root).run w).state.sink.content entries r
            (c.sealed (e.cipher r id))

/-- No object from before has the number of the encryption dictionary. -/
theorem EndsWith.encrypt_ne {info : Option Ref} {b : Body}
    (h : d.EndsWith e root trailer info b) (hgrows : d.body.Grows b)
    (hs : d.body.Sound) {r : Ref} {item : Item}
    (hitem : d.body.items[r]? = some item) : trailer.encrypt ≠ some r := by
  rw [h.trailer]
  intro hr
  refine Body.not_hasIssued_nextRef hgrows.sound.bounded ?_
  rw [Option.some.inj hr]
  refine Body.hasIssued_of_issued_le (hs.issued r ?_) hgrows.issued
  rw [hitem, Option.isSome_some]

/-- An encrypted document that was written to the end is identified. -/
theorem exists_identifiedBy {device : Device} (hs : d.body.Sound)
    (he : d.encryption = some e)
    (hok : ((d.write root).run { sink := { device } }).result = .ok ()) :
    ∃ trailer info b, d.EndsWith e root trailer info b
      ∧ d.IdentifiedBy e root (keyId e b trailer) { sink := { device } } := by
  obtain ⟨trailer, b', events, hrun, hwrite, hstate⟩ :=
    exists_complete_of_write hok
  obtain ⟨info, b, hends⟩ := exists_endsWith he (by rw [hrun])
  have hcompleted := hends.completed
  have hid := hends.encryptionTrailer_eq he
  rw [hrun] at hcompleted hid
  -- everything that was registered stays, and so does its reference
  have hgrows : d.body.Grows b :=
    hends.body ▸ d.enlarges_storeContent d.body hs
  have hgrows' : d.body.Grows b' := by
    rw [show b' = _ from hcompleted]
    exact hgrows.trans (Body.grows_adding _ hgrows.sound hends.room)
  obtain ⟨contents, bytes, entries, t, hcomplete⟩ :=
    Body.exists_complete_of_ok hgrows'.sound _ hwrite
  obtain ⟨id, hseals⟩ := exists_sealsFor b' (congrArg (·.id) hends.trailer)
  obtain rfl : id = (keyId e b trailer, keyId e b trailer) := by
    have hsame := (hseals.identified e he).1.symm.trans hid
    exact Option.some.inj (congrArg (·.id) hsame)
  refine ⟨trailer, info, b, hends, ?_, ?_, ?_⟩
  · obtain ⟨hfile, -, -, -, hcloses⟩ := hcomplete.section_eq
    rw [hstate, hfile]
    exact hcloses.identifiers? (hseals.get?_id hcomplete he)
  · intro cipher h
    have hsome : (b'.encryptionTrailer (d.request trailer)).id
        = some (keyId e b trailer, keyId e b trailer) := congrArg (·.id) hid
    exact run_write_withCipher he hrun hsome h _
  · obtain ⟨start, hstart, hread⟩ := exists_start_of_complete hcomplete
    rw [hstate]
    refine ⟨start, entries, t, hstart, hread, ?_⟩
    intro r item hitem
    obtain ⟨c, hencode, hlocated⟩ := hseals.located hcomplete
      (hgrows'.kept r item hitem) (hends.encrypt_ne hgrows hs hitem)
    rw [sealedFor, he] at hlocated
    exact ⟨c, hencode, hlocated⟩

/-- **ENCRYPTION DOES NOT CHOOSE THE IDENTIFIER**: if two encrypted documents
    with the same objects, fonts and information, and with the same file
    identifier or none, are both written to the end, the files tell one
    identifier, its two parts are equal, and all that is sealed in either of
    them is sealed for it.  It is the one that was given, if there was one. -/
theorem identified_alike (hb : d.body.Reachable) (hsame : d.SharesContent d')
    (he : d.encryption = some e) (he' : d'.encryption = some e')
    (hfile : e'.fileId = e.fileId) {device device' : Device}
    (hok : ((d.write root).run { sink := { device } }).result = .ok ())
    (hok' : ((d'.write root).run { sink := { device := device' } }).result
      = .ok ()) :
    ∃ id, (∀ given, e.fileId = some given → id = given)
      ∧ d.IdentifiedBy e root id { sink := { device } }
      ∧ d'.IdentifiedBy e' root id { sink := { device := device' } } := by
  have hs : d.body.Sound := hb.sound
  obtain ⟨trailer, info, b, hends, hidentified⟩ :=
    exists_identifiedBy hs he hok
  obtain ⟨trailer', info', b', hends', hidentified'⟩ :=
    exists_identifiedBy (hsame.body ▸ hs) he' hok'
  rw [hends.keyId_eq hsame hends' hfile] at hidentified'
  refine ⟨keyId e b trailer, ?_, hidentified, hidentified'⟩
  intro given hgiven
  rw [keyId, hgiven, Option.getD_some]

/-- A catalog behind a reference that was given away. -/
def sampleBody : Body :=
  Body.Operation.after (Body.Operation.after .empty .reserve)
    (.add (.value (.dictionary ((Dict.ofType (.key "Catalog")).insert
      (.key "Lang") (.utf8Text "de")))))

/-- A document with a font and a title, which is not given an identifier. -/
def sampleUnnamed : Document where
  body := sampleBody
  fonts := Std.ExtTreeMap.empty.insert ⟨1, 0⟩
    (CompositeFont.negativeFont.use "A")
  info := some { title := some "A" }
  encryption := some
    { cipher := Body.marking
      dictionary := Dictionary.ofList [(.key "O", .utf8Text "key")] }

/-- The same content with another cipher and another dictionary, compressed in
    another way and with its section as a stream. -/
def sampleOtherwise : Document :=
  { sampleUnnamed with
    settings := { xrefAsStream := true }
    compressor := Body.turning
    encryption := some
      { cipher := fun _ _ data => data.reverse
        dictionary := Dictionary.ofList [(.key "V", .integer 2)] } }

theorem identified_alike_sample :
    sampleUnnamed.body.Reachable
      ∧ sampleUnnamed.SharesContent sampleOtherwise
      ∧ ((sampleUnnamed.write ⟨2, 0⟩).run {}).result = .ok ()
      ∧ ((sampleOtherwise.write ⟨2, 0⟩).run {}).result = .ok ()
      ∧ ∃ id,
        identifiers? ((sampleUnnamed.write ⟨2, 0⟩).run {}).state.sink.content
            = some (id, id)
          ∧ identifiers?
              ((sampleOtherwise.write ⟨2, 0⟩).run {}).state.sink.content
            = some (id, id) := by
  have hreachable : sampleBody.Reachable := .after _ (.after _ .empty)
  have hsame : sampleUnnamed.SharesContent sampleOtherwise := ⟨rfl, rfl, rfl⟩
  have hok : ((sampleUnnamed.write ⟨2, 0⟩).run {}).result = .ok () :=
    Writer.eq_ok_of_isOk (by decide +kernel)
  have hok' : ((sampleOtherwise.write ⟨2, 0⟩).run {}).result = .ok () :=
    Writer.eq_ok_of_isOk (by decide +kernel)
  obtain ⟨id, -, hidentified, hidentified'⟩ :=
    identified_alike hreachable hsame rfl rfl rfl hok hok'
  exact ⟨hreachable, hsame, hok, hok', id, hidentified.told,
    hidentified'.told⟩

end Document

end Pdf
