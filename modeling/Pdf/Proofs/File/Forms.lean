import Pdf.Proofs.File.Tiling

/-! # The two forms of a section — one document

    The settings say whether the entries of a file are written as a table or as
    a stream.  Nothing in front of the section depends on that but the version
    in the first line, which may have to be raised and is as long as any other.
    So the objects stand where they stood, and the entries of the stream are
    those of the table and one more, which is its own: it comes behind all free
    numbers, so it does not disturb their list.

    The trailers agree but for the number of entries.  There is one exception:
    if the identifier is a digest of what was written, it is a digest of the
    version too. -/

namespace Pdf

/-! ## Requests -/

namespace Request

/-- A request for the same file with the section in one of the two forms. -/
def inForm (request : Request) (asStream : Bool) : Request :=
  { request with
    settings := { request.settings with xrefAsStream := asStream } }

/-- The identifier is made from the content, and the version that stands there
    depends on the form of the section. -/
def DigestsRaised (request : Request) : Prop :=
  request.cipher = none ∧ request.trailer.id = none
    ∧ request.settings.addsId = true
    ∧ request.settings.version.allowsXrefStream = false

/-- The first line of the file in one of the two forms. -/
def headerOf (request : Request) (asStream : Bool) : Bytes :=
  (request.inForm asStream).settings.writtenVersion.header

end Request

/-- All versions have headers of one length. -/
theorem Version.length_header (v : Version) : v.header.length = 9 := by
  cases v with
  | v14 => decide
  | v15 => decide
  | v16 => decide
  | v17 => decide

/-- The first line is as long in either form. -/
theorem Request.length_headerOf (request : Request) (asStream : Bool) :
    (request.headerOf asStream).length = 9 :=
  Version.length_header _

/-- The length of a preamble does not depend on the version. -/
theorem Settings.length_preamble (s : Settings) :
    s.preamble.length = 9 + s.marker.length := by
  rw [preamble, List.length_append, Version.length_header]

namespace Body

variable {b : Body} {request : Request}

/-! ## In front of the section -/

/-- Objects are encoded in the same way in both forms. -/
theorem Encodes.eq_inForm {contents contents' : List (Ref × Content)}
    (h : b.Encodes (request.inForm false) contents)
    (h' : b.Encodes (request.inForm true) contents') :
    contents = contents' := by
  have hencoded : Encoded (request.inForm false)
      (b.encryptionTrailer (request.inForm false)) b.items.toList contents' :=
    h'.encoded
  exact h.encoded.unique hencoded

/-- The objects stand at the same offsets in both forms. -/
theorem place_inForm (request : Request) (contents : List (Ref × Content))
    (offset : Nat) :
    place (request.inForm true).settings contents offset
      = place (request.inForm false).settings contents offset := by
  rw [place, place, Settings.length_preamble, Settings.length_preamble]
  rfl

/-! ## Entries -/

/-- The entries of a stream are those of a table, and its own behind them. -/
theorem sectionEntries_inForm {contents : List (Ref × Content)}
    (h : b.Encodes (request.inForm false) contents) (hb : b.Sound)
    (offset start : Nat) :
    let placed := place (request.inForm false).settings contents offset
    b.sectionEntries (request.inForm true) placed start
      = b.sectionEntries (request.inForm false) placed start
        ++ [.inUse start 0] := by
  intro placed
  have hnumbered : Numbered placed := h.numbered offset hb
  have hnext : b.nextRef.number.toNat = b.issued + 1 := toNat_nextRef hb.bounded
  have hzero : b.nextRef.number ≠ 0 := by
    intro he
    rw [he] at hnext
    cases hnext
  have hle : ∀ p ∈ placed, p.object.number.toNat ≤ b.issued :=
    fun p hp => (h.of_mem_place hb hp).2.1
  have htable : (placesOf (b.issued + 1) placed).size = b.issued + 1 :=
    size_placesOf (by omega) fun p hp => Nat.lt_succ_of_le (hle p hp)
  have hstream : (placesOf (b.issued + 2) placed).size = b.issued + 2 :=
    size_placesOf (by omega) fun p hp => by
      have hp' := hle p hp
      omega
  have hsize : ((placesOf (b.issued + 2) placed).record b.nextRef start).size
      = (placesOf (b.issued + 1) placed).size + 1 := by
    rw [Xref.Places.size_record, hstream, htable]
    rw [hstream, hnext]
    omega
  have hlast : ((placesOf (b.issued + 2) placed).record b.nextRef
      start).places[(placesOf (b.issued + 1) placed).size]?
      = some ⟨start, 0⟩ := by
    rw [Xref.Places.getElem?_record _ _ hzero, htable, if_pos hnext.symm]
    rfl
  refine Xref.Places.entries_concat hsize ?_ hlast
  intro n hn
  rw [htable] at hn
  rw [Xref.Places.getElem?_record _ _ hzero, if_neg (by omega)]
  exact getElem?_placesOf_resized hnumbered _ _ n

/-! ## Trailers -/

/-- Encryption leaves no file without an identifier. -/
theorem encryptionTrailer_id_eq_none
    (h : (b.encryptionTrailer request).id = none) :
    request.cipher = none ∧ request.trailer.id = none := by
  rw [encryptionTrailer] at h
  split at h
  · cases h
  · next hsealed =>
      refine ⟨?_, h⟩
      cases hcipher : request.cipher with
      | none => rfl
      | some cipher =>
          rw [hcipher] at hsealed
          exact absurd ⟨rfl, h⟩ hsealed

/-- A version that allows both forms is not raised. -/
theorem preamble_inForm
    (h : request.settings.version.allowsXrefStream = true) :
    (request.inForm true).settings.preamble
      = (request.inForm false).settings.preamble := by
  have hraises : (request.inForm true).settings.raisesVersion = false := by
    show (true && ! request.settings.version.allowsXrefStream) = false
    rw [h]
    rfl
  rw [Settings.preamble, Settings.preamble, Settings.writtenVersion, hraises]
  rfl

/-- The trailers of both forms are equal, unless the version takes part in the
    identifier. -/
theorem closingTrailer_inForm (placed : List PlacedObject) (hash : SipHash)
    (h : ¬ request.DigestsRaised) :
    b.closingTrailer (request.inForm true) placed hash
      = b.closingTrailer (request.inForm false) placed hash := by
  show finalTrailer (b.encryptionTrailer request) _ _
    = finalTrailer (b.encryptionTrailer request) _ _
  rw [finalTrailer, finalTrailer]
  by_cases hid : (b.encryptionTrailer request).id = none
      ∧ request.settings.addsId = true
  · obtain ⟨hcipher, hnone⟩ := encryptionTrailer_id_eq_none hid.1
    cases hallows : request.settings.version.allowsXrefStream with
    | false => exact absurd ⟨hcipher, hnone, hid.2, hallows⟩ h
    | true =>
        -- the digest is one of the same bytes
        rw [front, front, preamble_inForm hallows]
        rfl
  · exact (if_neg hid).trans (if_neg hid).symm

/-- Apart from the size and from such an identifier, the dictionaries of both
    forms say the same of the trailer. -/
theorem get?_inForm {placed : List PlacedObject} {hash : SipHash}
    {entries entries' : List Xref.Entry} {d d' : Dict} {key : Name}
    (h : Xref.Heads entries
      (b.closingTrailer (request.inForm false) placed hash) d)
    (h' : Xref.Heads entries'
      (b.closingTrailer (request.inForm true) placed hash) d')
    (hcoding : key ∉ Xref.codingNames) (hsize : key ≠ .key "Size")
    (hid : key = .key "ID" → ¬ request.DigestsRaised) :
    d'.get? key = d.get? key := by
  obtain ⟨id, -, htable⟩ :=
    exists_closingTrailer_eq b (request.inForm false) placed hash
  obtain ⟨id', -, hstream⟩ :=
    exists_closingTrailer_eq b (request.inForm true) placed hash
  rw [h.get? hcoding, h'.get? hcoding]
  have hsame : b.closingTrailer (request.inForm true) placed hash
      = { b.closingTrailer (request.inForm false) placed hash with
        id := id' } := by
    rw [hstream, htable]
    rfl
  rw [hsame]
  refine Trailer.get?_dict_of_ne _ _ hsize fun hkey => ?_
  have heq := closingTrailer_inForm (b := b) placed hash (hid hkey)
  rw [← heq, hstream]

/-! ## Files -/

/-- What two files say that were written in the two forms: the first one has a
    table with some entries, the second one a stream. -/
structure Agree (b : Body) (request : Request) (file file' : Bytes)
    (start : Nat) (entries : List Xref.Entry) (d d' : Dict) : Prop where
  /-- Between the first line and the section, which starts where it does in the
      other file, there are the same bytes at the same offset. -/
  objects : ∃ between tail tail',
    file = request.headerOf false ++ between ++ tail
      ∧ file' = request.headerOf true ++ between ++ tail'
      ∧ (request.headerOf true).length = (request.headerOf false).length
      ∧ (request.headerOf false ++ between).length = start
  table : Xref.start? file = some start
    ∧ ∀ inflate, Xref.readSection? inflate (file.drop start)
      = some (entries, d)
  /-- The stream has one entry more, which is in use and leads to it. -/
  stream : Xref.start? file' = some start
    ∧ ∃ packed, request.compressor
        (Xref.packedRows (entries ++ [.inUse start 0])) = .ok packed
      ∧ ∀ inflate : Inflater,
        inflate packed = some (Xref.packedRows (entries ++ [.inUse start 0])) →
        Xref.readSection? inflate (file'.drop start)
          = some (entries ++ [.inUse start 0], d')
  /-- The number of the stream is the next one behind all that were issued. -/
  own : entries.length = b.issued + 1
    ∧ entries.length = b.nextRef.number.toNat
  size : d.get? (.key "Size") = some (.integer entries.length)
    ∧ d'.get? (.key "Size") = some (.integer (entries.length + 1))
  /-- The trailer of a table has none of the entries that describe rows. -/
  coding : ∀ key ∈ Xref.codingNames, d.get? key = none
  others : ∀ key, key ∉ Xref.codingNames → key ≠ .key "Size" →
    (key = .key "ID" → ¬ request.DigestsRaised) → d'.get? key = d.get? key

/-- A complete file of a fresh writer, as a reader comes to its section. -/
theorem Complete.section_eq {device : Device} {w : Writer}
    {contents : List (Ref × Content)} {bytes : Bytes}
    {entries : List Xref.Entry} {d : Dict}
    (h : Complete b request { sink := { device } } w contents bytes entries d) :
    let before := request.settings.preamble
      ++ (writtenObjects contents).flatMap Prod.snd
    w.sink.content = before ++ bytes
      ∧ Xref.start? w.sink.content = some before.length
      ∧ w.sink.content.drop before.length = bytes
      ∧ entries = b.sectionEntries request
        (place request.settings contents 0) before.length
      ∧ Closes b request before.length entries d bytes := by
  intro before
  have hcontent : w.sink.content = before ++ bytes := h.wrote.content
  have hposition : 0 + request.settings.preamble.length
      + ((writtenObjects contents).flatMap Prod.snd).length
      = before.length := by
    rw [Nat.zero_add, List.length_append]
  have hlisted := h.listed
  have hcloses := h.closes
  rw [hposition] at hlisted hcloses
  refine ⟨hcontent, ?_, ?_, hlisted, hcloses⟩
  · rw [hcontent]
    exact hcloses.start? before
  · rw [hcontent, List.drop_left]

/-- A table is read as the entries and the dictionary that it closes with. -/
theorem Closes.readSection?_table {start : Nat} {entries : List Xref.Entry}
    {d : Dict} {bytes : Bytes} (h : Closes b request start entries d bytes)
    (hx : ¬ request.settings.xrefAsStream = true) (inflate : Inflater) :
    Xref.readSection? inflate bytes = some (entries, d) := by
  cases h with
  | table _ hread => exact hread inflate
  | stream hstream => exact absurd hstream hx

/-- A stream is read so by everyone who can undo the compression of its rows. -/
theorem Closes.readSection?_stream {start : Nat} {entries : List Xref.Entry}
    {d : Dict} {bytes : Bytes} (h : Closes b request start entries d bytes)
    (hx : request.settings.xrefAsStream = true) :
    ∃ packed, request.compressor (Xref.packedRows entries) = .ok packed
      ∧ ∀ inflate : Inflater, inflate packed = some (Xref.packedRows entries) →
        Xref.readSection? inflate bytes = some (entries, d) := by
  cases h with
  | table htable => exact absurd hx htable
  | stream _ _ hpacked hread => exact ⟨_, hpacked, hread⟩

/-- What is read below a table is the trailer and nothing else. -/
theorem Complete.eq_dict_of_table {w w' : Writer}
    {contents : List (Ref × Content)} {bytes : Bytes}
    {entries : List Xref.Entry} {d : Dict}
    (h : Complete b request w w' contents bytes entries d)
    (hx : ¬ request.settings.xrefAsStream = true) :
    d = (b.closingTrailer request (place request.settings contents w.offset)
      w.hash).dict entries.length := by
  have hsection := h.closing
  rw [closingSection, xrefSection, if_neg hx] at hsection
  have hread := Xref.readSection?_table (fun _ => none) hsection
  rw [h.closes.readSection?_table hx] at hread
  obtain ⟨hentries, hd⟩ := Prod.mk.inj (Option.some.inj hread)
  rw [hd, hentries]

/-- **BOTH FORMS DESCRIBE ONE DOCUMENT**: if a body is written with a table and
    with a stream, the files agree on the bytes and the offsets of the objects,
    on all entries that the table has, and on the trailer but for the size and
    an identifier that depends on the version. -/
theorem agree_of_write (hb : b.Reachable) (request : Request)
    (device device' : Device)
    (htable : ((b.write (request.inForm false)).run
      { sink := { device } }).result = .ok ())
    (hstream : ((b.write (request.inForm true)).run
      { sink := { device := device' } }).result = .ok ()) :
    ∃ start entries d d', b.Agree request
      ((b.write (request.inForm false)).run
        { sink := { device } }).state.sink.content
      ((b.write (request.inForm true)).run
        { sink := { device := device' } }).state.sink.content
      start entries d d' := by
  obtain ⟨contents, bytes, entries, d, h⟩ :=
    exists_complete_of_ok hb.sound _ htable
  obtain ⟨contents', bytes', entries', d', h'⟩ :=
    exists_complete_of_ok hb.sound _ hstream
  obtain rfl := h.encodes.eq_inForm h'.encodes
  obtain ⟨hfile, hstart, hdrop, hlisted, hcloses⟩ := h.section_eq
  obtain ⟨hfile', hstart', hdrop', hlisted', hcloses'⟩ := h'.section_eq
  let between := request.settings.marker
    ++ (writtenObjects contents).flatMap Prod.snd
  let start := (request.headerOf false ++ between).length
  have hheader : (request.headerOf true).length
      = (request.headerOf false).length := by
    rw [request.length_headerOf, request.length_headerOf]
  have hbefore : ∀ asStream, (request.inForm asStream).settings.preamble
      ++ (writtenObjects contents).flatMap Prod.snd
      = request.headerOf asStream ++ between :=
    fun _ => List.append_assoc _ _ _
  have hlength : (request.headerOf true ++ between).length = start := by
    rw [List.length_append, hheader, ← List.length_append]
  rw [hbefore] at hfile hstart hdrop hlisted hcloses
  rw [hbefore, hlength] at hstart' hdrop' hlisted' hcloses'
  rw [hbefore] at hfile'
  -- the objects stand in the same places, so the entries can be compared
  have hentries : entries' = entries ++ [.inUse start 0] := by
    rw [hlisted', hlisted, place_inForm]
    exact sectionEntries_inForm h.encodes hb.sound 0 start
  have hsize := h.leads.size
  have hheads' := h'.heads
  rw [place_inForm] at hheads'
  refine ⟨start, entries, d, d', ?_, ⟨hstart, ?_⟩, ⟨hstart', ?_⟩, ⟨hsize, ?_⟩,
    ⟨?_, ?_⟩, ?_, ?_⟩
  · exact ⟨between, bytes, bytes', hfile, hfile', hheader, rfl⟩
  · intro inflate
    rw [hdrop]
    exact hcloses.readSection?_table Bool.false_ne_true inflate
  · rw [hdrop', ← hentries]
    exact hcloses'.readSection?_stream rfl
  · rw [toNat_nextRef hb.sound.bounded]
    exact hsize
  · exact h.heads.carries _ _ (Trailer.get?_dict_size _ _)
  · have hown := h'.heads.carries _ _ (Trailer.get?_dict_size _ _)
    rw [hown, hentries, List.length_append]
    rfl
  · intro key hkey
    rw [h.eq_dict_of_table Bool.false_ne_true]
    exact Trailer.get?_dict_eq_none _ _
      (Xref.not_mem_names_of_mem_codingNames key hkey)
  · intro key hcoding hname hid
    exact get?_inForm h.heads hheads' hcoding hname hid

/-- A file of a new version, whose identifier is the same in both forms. -/
theorem agree_of_write_sample :
    let request : Request := {
      trailer := { root := ⟨1, 0⟩ }
      compressor := .ok }
    sample.Reachable
      ∧ ((sample.write (request.inForm false)).run {}).result = .ok ()
      ∧ ((sample.write (request.inForm true)).run {}).result = .ok ()
      ∧ ∃ start entries d d', sample.Agree request
          ((sample.write (request.inForm false)).run {}).state.sink.content
          ((sample.write (request.inForm true)).run {}).state.sink.content
          start entries d d'
        ∧ d'.get? (.key "ID") = d.get? (.key "ID") := by
  intro request
  have htable :
      ((sample.write (request.inForm false)).run {}).result = .ok () :=
    Writer.eq_ok_of_isOk (by decide +kernel)
  have hstream :
      ((sample.write (request.inForm true)).run {}).result = .ok () :=
    Writer.eq_ok_of_isOk (by decide +kernel)
  obtain ⟨start, entries, d, d', hagree⟩ := agree_of_write reachable_sample
    request .unlimited .unlimited htable hstream
  refine ⟨reachable_sample, htable, hstream, start, entries, d, d', hagree, ?_⟩
  refine hagree.others _ (by decide) (by decide) fun _ hraised => ?_
  exact absurd hraised.2.2.2 (by decide)

end Body

end Pdf
