import Pdf.Proofs.Body.Leaves
import Pdf.Proofs.File.Tiling
import Pdf.Proofs.Filter.Chain
import Pdf.Proofs.Object.Ascii

/-! # ASCII files — and the data that leaves ASCII in them

    A file that has to be ASCII has no binary marker, its identifier is spelled
    in Base64, and data is spelled in digits if it was compressed or is said to
    be coded in a binary form.  Any other data is written as it is, without a
    look at its bytes.  So if all strings are ASCII, a file is ASCII if and
    only if all such data is (`isAscii_write_iff`); the settings alone do not
    make it so. -/

namespace Pdf

open Bytes (byte ascii isAscii isAscii_append isAscii_flatMap isAscii_decimal)

/-! ## The preamble -/

/-- With ASCII asked for, nothing else stands in front of the objects. -/
theorem Settings.isAscii_preamble {s : Settings} (h : s.asciiOnly = true) :
    isAscii s.preamble = true := by
  have hmarker : isAscii s.marker = true := by
    rw [marker, if_pos h]
    decide
  have hheader : isAscii s.writtenVersion.header = true := by
    rw [Version.header, isAscii_append, isAscii_append, isAscii_decimal]
    decide
  rw [preamble, isAscii_append, hheader, hmarker]
  rfl

/-! ## Streams -/

namespace Stream

/-- What is not spelled in digits is not compressed either. -/
theorem not_compresses_of_not_isArmored {settings : Settings} {s : Stream}
    (hascii : settings.asciiOnly = true)
    (h : s.isArmored settings = false) :
    ¬ s.policy.compresses settings = true := by
  intro hc
  rw [isArmored, hascii, coding, if_pos hc] at h
  cases h

/-- Data that is not spelled in digits is written as it is. -/
theorem isAscii_data_of_encode {settings : Settings} {compressor : Compressor}
    {s : Stream} {e : StreamData} (hascii : settings.asciiOnly = true)
    (he : s.encode settings compressor = .ok e) :
    isAscii e.data = true
      ↔ (s.isArmored settings = false → isAscii s.data = true) := by
  obtain ⟨packed, hpacks, rfl⟩ := encode_eq_ok_iff.mp he
  show isAscii (s.spelled settings packed) = true ↔ _
  rw [spelled]
  cases h : s.isArmored settings with
  | true =>
      refine iff_of_true (isAscii_hexLines packed) ?_
      intro hfalse
      cases hfalse
  | false =>
      rw [Packs, if_neg (not_compresses_of_not_isArmored hascii h)] at hpacks
      rw [hpacks]
      exact ⟨fun hdata _ => hdata, fun hdata => hdata rfl⟩

end Stream

/-! ## Contents -/

/-- The data behind a content, if it is a stream. -/
def Content.data : Content → Bytes
  | value _ => []
  | stream s => s.data

/-- Written content is ASCII if the leaves of its object and its data are. -/
theorem Content.isAscii_numbered (c : Content) (r : Ref) :
    isAscii (c.numbered r)
      = (c.object.every Object.isAsciiLeaf && isAscii c.data) := by
  cases c with
  | value o =>
      show isAscii (r.opening ++ o.written ++ ascii "\nendobj\n\n") = _
      rw [isAscii_append, isAscii_append, r.isAscii_opening,
        show isAscii o.written = _ from o.isAscii_print 0]
      rfl
  | stream s => exact isAscii_numberedStream r s.dict s.data

/-- An item of ASCII leaves is written in ASCII, unless it is a stream with
    other bytes that nothing armors. -/
theorem Item.isAscii_numbered_of_encode {settings : Settings}
    {compressor : Compressor} {r : Ref} {item : Item} {c : Content}
    (hascii : settings.asciiOnly = true)
    (hitem : item.object.every Object.isAsciiLeaf = true)
    (hc : item.encode settings compressor r = .ok c) :
    isAscii (c.numbered r) = true
      ↔ ∀ s, item = .stream s → s.isArmored settings = false →
        isAscii s.data = true := by
  have hobject : c.object.every Object.isAsciiLeaf = true :=
    every_encode Object.passesCoding_isAsciiLeaf hc hitem
  rw [c.isAscii_numbered, hobject, Bool.true_and]
  cases item with
  | value o =>
      rw [← Except.ok.inj hc]
      exact iff_of_true rfl fun s hs => by cases hs
  | stream s =>
      rw [encode] at hc
      cases he : s.encode settings compressor with
      | error e =>
          rw [he] at hc
          cases hc
      | ok e =>
          rw [he] at hc
          rw [← Except.ok.inj hc]
          refine (Stream.isAscii_data_of_encode hascii he).trans ?_
          constructor
          · rintro h s' hs'
            rw [← Item.stream.inj hs']
            exact h
          · intro h
            exact h s rfl

/-! ## Sections -/

namespace Xref

theorem isAscii_closing (start : Nat) : isAscii (closing start) = true := by
  rw [closing, isAscii_append, isAscii_append, isAscii_decimal]
  decide

theorem Entry.isAscii_record (e : Entry) : isAscii e.record = true := by
  have hrecord : ∀ (m n : Nat) (mark : Bytes), isAscii mark = true →
      isAscii (Bytes.paddedDecimal 10 m
        ++ byte ' ' :: Bytes.paddedDecimal 5 n ++ mark) = true := by
    intro m n mark hmark
    have hn : isAscii (byte ' ' :: Bytes.paddedDecimal 5 n) = true :=
      Bytes.isAscii_paddedDecimal 5 n
    rw [isAscii_append, isAscii_append, Bytes.isAscii_paddedDecimal, hn, hmark]
    rfl
  cases e with
  | free next generation => exact hrecord _ _ _ (by decide)
  | inUse offset generation => exact hrecord _ _ _ (by decide)

/-- A table is ASCII if its trailer is. -/
theorem isAscii_table {entries : List Entry} {t : Trailer} {start : Nat}
    {bytes : Bytes} (h : table entries t start = .ok bytes)
    (ht : (t.dict entries.length).every Object.isAsciiLeaf = true) :
    isAscii bytes = true := by
  have hrecords : isAscii (entries.flatMap Entry.record) = true := by
    rw [isAscii_flatMap]
    exact List.all_eq_true.mpr fun e _ => e.isAscii_record
  rw [table] at h
  split at h
  · cases h
  · rw [← Except.ok.inj h]
    simp only [isAscii_append, isAscii_decimal, hrecords, isAscii_closing,
      Dict.isAscii_written, ht]
    decide

/-- The rows of a stream are compressed, so they are spelled in digits. -/
theorem isAscii_stream {settings : Settings} {compressor : Compressor}
    {places : Places} {own : Ref} {t : Trailer} {start : Nat} {bytes : Bytes}
    (hascii : settings.asciiOnly = true)
    (h : stream settings compressor places own t start = .ok bytes)
    (ht : (t.dict (places.record own start).entries.length).every
      Object.isAsciiLeaf = true) : isAscii bytes = true := by
  let entries := (places.record own start).entries
  -- the section is filtered like a stream that is to be compressed
  let s : Stream := {
    dict := streamDict entries t
    data := entries.flatMap (Entry.row (offsetWidth entries))
    policy := .compressed }
  have hfilter : filterData compressor true settings.asciiOnly s.dict s.data
      = s.encode settings compressor :=
    Stream.filterData_eq_encode (s := s) fun filter hp => by cases hp
  rw [stream, show filterData _ _ _ _ _ = _ from hfilter] at h
  cases he : s.encode settings compressor with
  | error e =>
      rw [he] at h
      cases h
  | ok e =>
      rw [he] at h
      have hdict : e.dict.every Object.isAsciiLeaf = true := by
        obtain ⟨f, rfl⟩ := Stream.exists_behind_of_encode he
        exact f.every_behind Object.passesCoding_isAsciiLeaf
          (every_streamDict Object.passesCoding_isAsciiLeaf ht)
      have harmored : s.isArmored settings = true := by
        rw [Stream.isArmored, hascii]
        rfl
      have hdata : isAscii e.data = true := by
        refine (Stream.isAscii_data_of_encode hascii he).mpr ?_
        intro hfalse
        rw [harmored] at hfalse
        cases hfalse
      rw [← Except.ok.inj h, isAscii_append, isAscii_closing, Bool.and_true]
      show isAscii (numberedStream own e.dict e.data) = true
      rw [isAscii_numberedStream, hdict, hdata]
      rfl

end Xref

namespace Body

/-- The trailer that is written is ASCII if the identifier that was given is. -/
theorem isAscii_closingTrailer (b : Body) {request : Request}
    (placed : List PlacedObject) (hash : SipHash) (size : Nat)
    (h : ∀ id, request.trailer.id = some id →
      isAscii id.1 = true ∧ isAscii id.2 = true) :
    ((b.closingTrailer request placed hash).dict size).every
      Object.isAsciiLeaf = true := by
  obtain ⟨id, hid, htrailer⟩ := exists_closingTrailer_eq b request placed hash
  rw [htrailer]
  refine Trailer.every_dict size (fun _ => rfl) (fun _ _ => rfl) ?_
  have hobject : ∀ first second : Bytes, isAscii first = true →
      isAscii second = true →
      (Trailer.idObject (first, second)).every Object.isAsciiLeaf = true := by
    intro first second hfirst hsecond
    refine (Object.every_array _).mpr ?_
    simp [Object.every, Object.leaves, Object.isAsciiLeaf, hfirst, hsecond]
  rintro ⟨first, second⟩ hid'
  rcases hid with hsame | ⟨d, hd⟩
  · obtain ⟨hfirst, hsecond⟩ := h _ (hsame.symm.trans hid')
    exact hobject first second hfirst hsecond
  · obtain ⟨rfl, rfl⟩ := Prod.mk.inj (Option.some.inj (hd.symm.trans hid'))
    exact hobject _ _ (isAscii_identifier d) (isAscii_identifier d)

/-- The section is ASCII in both forms. -/
theorem isAscii_closingSection {b : Body} {request : Request}
    {placed : List PlacedObject} {offset : Nat} {hash : SipHash}
    {bytes : Bytes} (hascii : request.settings.asciiOnly = true)
    (h : ∀ id, request.trailer.id = some id →
      isAscii id.1 = true ∧ isAscii id.2 = true)
    (hs : b.closingSection request placed offset hash = .ok bytes) :
    isAscii bytes = true := by
  rw [closingSection, xrefSection] at hs
  split at hs
  · exact Xref.isAscii_stream hascii hs (b.isAscii_closingTrailer _ _ _ h)
  · exact Xref.isAscii_table hs (b.isAscii_closingTrailer _ _ _ h)

/-! ## Files -/

/-- **WHAT LEAVES ASCII IS DATA**: a file that has to be ASCII, whose literal
    strings, verbatim bytes and identifier are ASCII, is ASCII if and only if
    the data is that is not spelled in digits. -/
theorem isAscii_write_iff {b : Body} (hb : b.Reachable) {request : Request}
    (hascii : request.settings.asciiOnly = true)
    (hcipher : request.cipher = none)
    (hitems : ∀ (r : Ref) item, b.items[r]? = some item →
      item.object.every Object.isAsciiLeaf = true)
    (hid : ∀ id, request.trailer.id = some id →
      isAscii id.1 = true ∧ isAscii id.2 = true)
    {w : Writer} (hok : ((b.write request).run w).result = .ok ()) :
    ∃ bytes, ((b.write request).run w).state.sink.content
        = w.sink.content ++ bytes
      ∧ (isAscii bytes = true ↔ ∀ (r : Ref) s,
        b.items[r]? = some (.stream s) →
        s.isArmored request.settings = false → isAscii s.data = true) := by
  obtain ⟨contents, bytes, entries, d, h⟩ :=
    exists_complete_of_ok hb.sound request hok
  refine ⟨_, h.wrote.content, ?_⟩
  -- an item and its content, in both directions
  have hcontent : ∀ {r : Ref} {item : Item} {c : Content},
      b.items[r]? = some item →
      encodeObject request (b.encryptionTrailer request) r item = .ok c →
      (isAscii (c.numbered r) = true ↔ ∀ s, item = .stream s →
        s.isArmored request.settings = false → isAscii s.data = true) := by
    intro r item c hitem hc
    rw [encodeObject_of_not_sealed hcipher] at hc
    exact Item.isAscii_numbered_of_encode hascii (hitems r item hitem) hc
  rw [isAscii_append, isAscii_append, Settings.isAscii_preamble hascii,
    isAscii_closingSection hascii hid h.closing, Bool.true_and, Bool.and_true,
    isAscii_flatMap, List.all_eq_true, writtenObjects, List.forall_mem_map]
  constructor
  · intro hall r s hs
    obtain ⟨c, hc, he⟩ := h.encodes.of_item hs
    exact (hcontent hs he).mp (hall _ hc) s rfl
  · rintro hdata ⟨r, c⟩ hc
    obtain ⟨item, hitem, he⟩ := h.encodes.of_mem hc
    refine (hcontent hitem he).mpr ?_
    rintro s rfl
    exact hdata r s hitem

/-- A text that is not compressed is written as it is. -/
theorem isAscii_write_sample :
    let request : Request := {
      trailer := { root := ⟨1, 0⟩ }
      settings := { asciiOnly := true, compress := false }
      compressor _ := .error "unused" }
    sample.Reachable ∧ request.settings.asciiOnly = true
      ∧ request.cipher = none
      ∧ (∀ (r : Ref) item, sample.items[r]? = some item →
        item.object.every Object.isAsciiLeaf = true)
      ∧ (∀ id, request.trailer.id = some id →
        isAscii id.1 = true ∧ isAscii id.2 = true)
      ∧ ((sample.write request).run {}).result = .ok ()
      ∧ isAscii ((sample.write request).run {}).state.sink.content
        = true := by
  intro request
  have hitems := of_all_items (b := sample)
    (p := fun item => item.object.every Object.isAsciiLeaf)
    (by decide +kernel)
  have hid : ∀ id, request.trailer.id = some id →
      isAscii id.1 = true ∧ isAscii id.2 = true := by
    intro id h
    cases h
  have hok : ((sample.write request).run {}).result = .ok () :=
    Writer.eq_ok_of_isOk (by decide +kernel)
  have hdata := of_all_items (b := sample)
    (p := fun item => match item with
      | .stream s => isAscii s.data
      | .value _ => true)
    (by decide +kernel)
  obtain ⟨bytes, hcontent, hiff⟩ :=
    isAscii_write_iff reachable_sample rfl rfl hitems hid hok
  refine ⟨reachable_sample, rfl, rfl, hitems, hid, hok, ?_⟩
  rw [hcontent]
  exact hiff.mpr fun r s hs _ => hdata r (.stream s) hs

/-- One byte outside ASCII that is not to be compressed, and a catalog. -/
def samplePixel : Body :=
  Operation.after (Operation.after .empty
    (.add (.stream { data := [0xFF], policy := .uncompressed })))
    (.add (.value (.dictionary (Dict.ofType (.key "Catalog")))))

/-- Nothing in this body but the data of a stream is outside ASCII, and still
    the file is not ASCII. -/
theorem not_isAscii_write_pixel :
    let request : Request := {
      trailer := { root := ⟨2, 0⟩ }
      settings := { asciiOnly := true, addsId := false }
      compressor _ := .error "unused" }
    samplePixel.Reachable ∧ request.settings.asciiOnly = true
      ∧ request.cipher = none
      ∧ (∀ (r : Ref) item, samplePixel.items[r]? = some item →
        item.object.every Object.isAsciiLeaf = true)
      ∧ (∀ id, request.trailer.id = some id →
        isAscii id.1 = true ∧ isAscii id.2 = true)
      ∧ ((samplePixel.write request).run {}).result = .ok ()
      ∧ isAscii ((samplePixel.write request).run {}).state.sink.content
        = false := by
  intro request
  have hitems := of_all_items (b := samplePixel)
    (p := fun item => item.object.every Object.isAsciiLeaf)
    (by decide +kernel)
  have hok : ((samplePixel.write request).run {}).result = .ok () :=
    Writer.eq_ok_of_isOk (by decide +kernel)
  refine ⟨.after _ (.after _ .empty), rfl, rfl, hitems, ?_, hok, ?_⟩
  · intro id h
    cases h
  · decide +kernel

end Body

end Pdf
