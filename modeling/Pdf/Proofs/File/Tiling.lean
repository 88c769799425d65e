import Pdf.Proofs.File.Placement
import Pdf.Proofs.File.Plan
import Pdf.Proofs.Xref.Rows

/-! # Tiling — a complete file and where everything in it stands

    A complete file is the preamble, the objects in ascending order and the
    section, with nothing between them, behind whatever the sink held before.
    The entries of the section lead to the objects and to nothing else: an
    entry is in use exactly if an object has its number, or if it is the number
    of the section itself, and its offset is where that begins, counted from
    the start of the sink (`Leads`).

    Offsets are sums of lengths, so nothing here depends on what an object
    looks like.  All that is needed of its bytes is that they begin with the
    line of its number. -/

namespace Pdf.Body

open Syntax

/-! ## Objects -/

/-- The objects of a file as they are written, with their references. -/
def writtenObjects (contents : List (Ref × Content)) : List (Ref × Bytes) :=
  contents.map fun c => (c.1, c.2.numbered c.1)

/-- Written objects keep their references. -/
theorem map_fst_writtenObjects (contents : List (Ref × Content)) :
    (writtenObjects contents).map Prod.fst = contents.map Prod.fst := by
  rw [writtenObjects, List.map_map]
  rfl

/-- All objects are written, in ascending order. -/
theorem Encodes.map_fst {b : Body} {request : Request}
    {contents : List (Ref × Content)} (h : b.Encodes request contents) :
    contents.map Prod.fst = b.items.keys := by
  have hrefs := congrArg (List.map Prod.fst) h.encoded
  rw [List.map_map, List.map_map] at hrefs
  rw [← Std.ExtTreeMap.map_fst_toList_eq_keys]
  exact hrefs

/-- In front of the section stand the preamble and the objects, and nothing
    else. -/
theorem front_place (settings : Settings) (contents : List (Ref × Content))
    (offset : Nat) :
    front settings (place settings contents offset)
      = settings.preamble ++ (writtenObjects contents).flatMap Prod.snd := by
  rw [front, place, PlacedObject.flatMap_bytes_sequence]
  rfl

theorem map_object_place (settings : Settings)
    (contents : List (Ref × Content)) (offset : Nat) :
    (place settings contents offset).map PlacedObject.object
      = contents.map Prod.fst := by
  rw [place, PlacedObject.map_object_sequence]
  exact map_fst_writtenObjects contents

/-- A placed object has a number that was handed out, and generation 0. -/
theorem Encodes.of_mem_place {b : Body} {request : Request}
    {contents : List (Ref × Content)} {offset : Nat} {p : PlacedObject}
    (h : b.Encodes request contents) (hb : b.Sound)
    (hp : p ∈ place request.settings contents offset) :
    p.object.number ≠ 0 ∧ p.object.number.toNat ≤ b.issued
      ∧ p.object.generation = 0 := by
  refine hb.of_mem_keys ?_
  rw [← h.map_fst, ← map_object_place request.settings contents offset]
  exact List.mem_map.mpr ⟨p, hp, rfl⟩

/-- No two objects of a body have one number. -/
theorem Encodes.numbered {b : Body} {request : Request}
    {contents : List (Ref × Content)} (offset : Nat)
    (h : b.Encodes request contents) (hb : b.Sound) :
    Numbered (place request.settings contents offset) := by
  refine ⟨fun p hp => (h.of_mem_place hb hp).1, ?_⟩
  have hkeys := hb.ascending_keys
  rw [← h.map_fst, ← map_object_place request.settings contents offset,
    List.pairwise_map] at hkeys
  exact hkeys.imp fun hlt => Nat.ne_of_lt (UInt32.lt_iff_toNat_lt.mp hlt)

/-! ## Entries -/

/-- An object with a number stands behind some others, which start at a
    position. -/
def Stands (position : Nat) (objects : List (Ref × Bytes)) (n offset : Nat) :
    Prop :=
  ∃ front o back, objects = front ++ o :: back ∧ o.1.number.toNat = n
    ∧ offset = position + (front.flatMap Prod.snd).length

/-- Entries that lead to objects which start at a position and to the section
    behind them, if it has a number. -/
structure Leads (b : Body) (request : Request) (position : Nat)
    (objects : List (Ref × Bytes)) (entries : List Xref.Entry) : Prop where
  size : entries.length = b.xrefSize request.settings
  inUse : ∀ n offset generation,
    entries[n]? = some (.inUse offset generation)
      ↔ generation = 0 ∧ (Stands position objects n offset
        ∨ (request.settings.xrefAsStream = true
          ∧ n = b.nextRef.number.toNat
          ∧ offset = position + (objects.flatMap Prod.snd).length))

/-- Object numbers end far below the end of 32 bits, and so do the entries. -/
theorem xrefSize_lt {b : Body} (hb : b.issued ≤ highestNumber) (s : Settings) :
    b.xrefSize s < UInt32.size := by
  have hsmall : highestNumber + 2 < UInt32.size := by decide
  rw [xrefSize]
  split <;> omega

/-- The number of entries that the trailer of a file gives is the same in 32
    bits. -/
theorem Leads.toNat_toUInt32_length {b : Body} {request : Request}
    {position : Nat} {objects : List (Ref × Bytes)} {entries : List Xref.Entry}
    (h : Leads b request position objects entries) (hb : b.Sound) :
    entries.length.toUInt32.toNat = entries.length := by
  refine UInt32.toNat_ofNat_of_lt' ?_
  rw [h.size]
  exact xrefSize_lt hb.bounded request.settings

/-- The places of the objects of a body, in front of its section. -/
theorem getElem?_placesOf_place {b : Body} {request : Request}
    {contents : List (Ref × Content)} (h : b.Encodes request contents)
    (hb : b.Sound) (size start n offset : Nat) (generation : UInt16) :
    (placesOf size (place request.settings contents start)).places[n]?
        = some ⟨offset, generation⟩
      ↔ generation = 0 ∧ Stands (start + request.settings.preamble.length)
        (writtenObjects contents) n offset := by
  rw [getElem?_placesOf (h.numbered start hb)]
  constructor
  · rintro ⟨p, hp, hn, hplace⟩
    obtain ⟨hoffset, hgeneration⟩ := Xref.Place.mk.inj hplace
    have hzero := (h.of_mem_place hb hp).2.2
    obtain ⟨front, back, hobjects, hstart⟩ :=
      PlacedObject.mem_sequence.mp hp
    exact ⟨hgeneration.trans hzero, front, _, back, hobjects, hn,
      hoffset.trans hstart⟩
  · rintro ⟨rfl, front, o, back, hobjects, hn, hoffset⟩
    have hp : (⟨o.1, offset, o.2⟩ : PlacedObject)
        ∈ place request.settings contents start :=
      PlacedObject.mem_sequence.mpr ⟨front, back, hobjects, hoffset⟩
    have hzero : o.1.generation = 0 := (h.of_mem_place hb hp).2.2
    refine ⟨_, hp, hn, ?_⟩
    rw [hzero]

/-- What stands in a file has a number that was handed out. -/
theorem Stands.le_issued {b : Body} {request : Request}
    {contents : List (Ref × Content)} {position n offset : Nat}
    (h : Stands position (writtenObjects contents) n offset)
    (he : b.Encodes request contents) (hb : b.Sound) : n ≤ b.issued := by
  obtain ⟨front, o, back, hobjects, rfl, -⟩ := h
  have hmem : o.1 ∈ (writtenObjects contents).map Prod.fst := by
    rw [hobjects]
    exact List.mem_map.mpr ⟨o, by simp, rfl⟩
  rw [map_fst_writtenObjects, he.map_fst] at hmem
  exact (hb.of_mem_keys hmem).2.1

/-- The objects of a body need no more entries than its numbers do. -/
theorem size_placesOf_place {b : Body} {request : Request}
    {contents : List (Ref × Content)} (h : b.Encodes request contents)
    (hb : b.Sound) (start : Nat) :
    (placesOf (b.xrefSize request.settings)
      (place request.settings contents start)).size
      = b.xrefSize request.settings := by
  have hlt : b.issued < b.xrefSize request.settings := by
    rw [xrefSize]
    by_cases hx : request.settings.xrefAsStream = true
    · rw [if_pos hx]
      omega
    · rw [if_neg hx]
      omega
  refine size_placesOf (Nat.zero_lt_of_lt hlt) ?_
  intro p hp
  exact Nat.lt_of_le_of_lt (h.of_mem_place hb hp).2.1 hlt

/-- The entries of a table. -/
theorem leads_table {b : Body} {request : Request}
    {contents : List (Ref × Content)} (h : b.Encodes request contents)
    (hb : b.Sound) (start : Nat)
    (hx : ¬ request.settings.xrefAsStream = true) :
    Leads b request (start + request.settings.preamble.length)
      (writtenObjects contents)
      (placesOf (b.xrefSize request.settings)
        (place request.settings contents start)).entries := by
  have hsize := size_placesOf_place h hb start
  refine ⟨(Xref.Places.length_entries _).trans hsize, ?_⟩
  intro n offset generation
  rw [Xref.Places.getElem?_entries_inUse _ n ⟨offset, generation⟩, hsize,
    getElem?_placesOf_place h hb]
  constructor
  · rintro ⟨-, hg, hstands⟩
    exact ⟨hg, Or.inl hstands⟩
  · rintro ⟨hg, hstands | ⟨hstream, -, -⟩⟩
    · refine ⟨?_, hg, hstands⟩
      rw [xrefSize, if_neg hx]
      exact Nat.lt_succ_of_le (hstands.le_issued h hb)
    · exact absurd hstream hx

/-- The entries of a cross-reference stream, which has a number itself. -/
theorem leads_stream {b : Body} {request : Request}
    {contents : List (Ref × Content)} (h : b.Encodes request contents)
    (hb : b.Sound) (start : Nat)
    (hx : request.settings.xrefAsStream = true) :
    Leads b request (start + request.settings.preamble.length)
      (writtenObjects contents)
      ((placesOf (b.xrefSize request.settings)
        (place request.settings contents start)).record b.nextRef
          (start + request.settings.preamble.length
            + ((writtenObjects contents).flatMap
              Prod.snd).length)).entries := by
  have hnext := toNat_nextRef hb.bounded
  have hzero : b.nextRef.number ≠ 0 := by
    intro he
    rw [he] at hnext
    exact nomatch hnext
  -- the number 0 and the section take part in the size
  have hsize : b.xrefSize request.settings = b.issued + 2 := by
    rw [xrefSize, if_pos hx]
  have hplaces := size_placesOf_place h hb start
  have hrecord : ∀ offset, ((placesOf (b.xrefSize request.settings)
      (place request.settings contents start)).record b.nextRef offset).size
      = b.xrefSize request.settings := by
    intro offset
    rw [Xref.Places.size_record, hplaces]
    rw [hplaces, hnext, hsize]
    omega
  refine ⟨(Xref.Places.length_entries _).trans (hrecord _), ?_⟩
  intro n offset generation
  rw [Xref.Places.getElem?_entries_inUse _ n ⟨offset, generation⟩, hrecord,
    Xref.Places.getElem?_record _ _ hzero]
  by_cases hn : n = b.nextRef.number.toNat
  · rw [if_pos hn]
    constructor
    · rintro ⟨-, hplace⟩
      obtain ⟨hoffset, hg⟩ := Xref.Place.mk.inj (Option.some.inj hplace)
      exact ⟨hg.symm, Or.inr ⟨hx, hn, hoffset.symm⟩⟩
    · rintro ⟨rfl, hstands | ⟨-, -, rfl⟩⟩
      · -- no object has the number of the section
        have hle := hstands.le_issued h hb
        omega
      · refine ⟨?_, rfl⟩
        omega
  · rw [if_neg hn, getElem?_placesOf_place h hb]
    constructor
    · rintro ⟨-, hg, hstands⟩
      exact ⟨hg, Or.inl hstands⟩
    · rintro ⟨hg, hstands | ⟨-, hown, -⟩⟩
      · have hle := hstands.le_issued h hb
        exact ⟨by omega, hg, hstands⟩
      · exact absurd hown hn

/-- The entries of a file lead to each of its objects. -/
theorem Leads.found {b : Body} {request : Request} {before : Bytes}
    {objects : List (Ref × Content)} {entries : List Xref.Entry}
    (h : Leads b request before.length (writtenObjects objects) entries)
    (tail : Bytes) {c : Ref × Content} (hc : c ∈ objects) :
    ∃ offset, entries[c.1.number.toNat]? = some (.inUse offset 0)
      ∧ c.2.numbered c.1 <+: (before
        ++ (writtenObjects objects).flatMap Prod.snd ++ tail).drop offset := by
  obtain ⟨cs, cs', rfl⟩ := List.append_of_mem hc
  have hfile : before ++ (writtenObjects (cs ++ c :: cs')).flatMap Prod.snd
      ++ tail = (before ++ (writtenObjects cs).flatMap Prod.snd)
        ++ (c.2.numbered c.1
          ++ ((writtenObjects cs').flatMap Prod.snd ++ tail)) := by
    simp only [writtenObjects, List.map_append, List.map_cons,
      List.flatMap_append, List.flatMap_cons, List.append_assoc]
  refine ⟨(before ++ (writtenObjects cs).flatMap Prod.snd).length, ?_, ?_⟩
  · refine (h.inUse _ _ _).mpr ⟨rfl, Or.inl ⟨writtenObjects cs, _,
      writtenObjects cs', List.map_append, rfl, ?_⟩⟩
    rw [List.length_append]
  · rw [hfile, List.drop_left]
    exact List.prefix_append _ _

/-! ## Sections -/

/-- A section, in one of its two forms, that is read as some entries and a
    dictionary and that ends with the number of its start. -/
inductive Closes (b : Body) (request : Request) (start : Nat)
    (entries : List Xref.Entry) (d : Dict) : Bytes → Prop where
  | table {front : Bytes} :
      ¬ request.settings.xrefAsStream = true →
      (∀ inflate, Xref.readSection? inflate (front ++ Xref.closing start)
        = some (entries, d)) →
      Closes b request start entries d (front ++ Xref.closing start)
  | stream {s : StreamData} {packed : Bytes} :
      request.settings.xrefAsStream = true →
      Recognisable (.stream s) →
      request.compressor (Xref.packedRows entries) = .ok packed →
      (∀ inflate : Inflater,
        inflate packed = some (Xref.packedRows entries) →
        Xref.readSection? inflate (s.numbered b.nextRef ++ Xref.closing start)
          = some (entries, d)) →
      Closes b request start entries d
        (s.numbered b.nextRef ++ Xref.closing start)

/-- The entries of the section behind some objects, which starts at a
    position. -/
def sectionEntries (b : Body) (request : Request)
    (placed : List PlacedObject) (start : Nat) : List Xref.Entry :=
  let places := placesOf (b.xrefSize request.settings) placed
  if request.settings.xrefAsStream then
    (places.record b.nextRef start).entries
  else places.entries

/-- The section of a complete file leads to its objects and has its trailer. -/
theorem closes_closingSection {b : Body} {request : Request}
    {contents : List (Ref × Content)} {offset : Nat} {hash : SipHash}
    {bytes : Bytes} (h : b.Encodes request contents) (hb : b.Sound)
    (hs : b.closingSection request (place request.settings contents offset)
      offset hash = .ok bytes) :
    let placed := place request.settings contents offset
    let position := offset + request.settings.preamble.length
    let objects := writtenObjects contents
    let start := position + (objects.flatMap Prod.snd).length
    let entries := b.sectionEntries request placed start
    ∃ d, Leads b request position objects entries
      ∧ Closes b request start entries d bytes
      ∧ Xref.Heads entries (b.closingTrailer request placed hash) d := by
  intro placed position objects start entries
  have hstart : offset + (front request.settings placed).length = start := by
    rw [front_place, List.length_append, ← Nat.add_assoc]
  rw [closingSection, hstart, xrefSection] at hs
  by_cases hx : request.settings.xrefAsStream = true
  · have hentries : entries = ((placesOf (b.xrefSize request.settings)
        placed).record b.nextRef start).entries := if_pos hx
    rw [if_pos hx] at hs
    obtain ⟨packed, s, hpacked, rfl, hs', hheads, hread⟩ :=
      Xref.readSection?_stream hs
    rw [hentries]
    exact ⟨s.dict, leads_stream h hb offset hx,
      .stream hx hs' hpacked hread, hheads⟩
  · have hentries : entries = (placesOf (b.xrefSize request.settings)
        placed).entries := if_neg hx
    rw [if_neg hx] at hs
    obtain ⟨front, hfront, -⟩ := Xref.table?_of_table hs
    rw [hentries]
    refine ⟨_, leads_table h hb offset hx, ?_, .table⟩
    have hread := fun inflate => Xref.readSection?_table inflate hs
    rw [hfront] at hread ⊢
    exact .table hx hread

/-- Behind `startxref` stands the offset of the section. -/
theorem Closes.start? {b : Body} {request : Request} {start : Nat}
    {entries : List Xref.Entry} {d : Dict} {bytes : Bytes}
    (h : Closes b request start entries d bytes) (before : Bytes) :
    Xref.start? (before ++ bytes) = some start := by
  cases h with
  | table hx hread =>
      rw [← List.append_assoc]
      exact Xref.start?_append_closing _ start
  | stream hx hs hpacked hread =>
      rw [← List.append_assoc]
      exact Xref.start?_append_closing _ start

/-! ## Files -/

/-- All that is known of a file that was written to its end, from the position
    of one state of a writer up to another one. -/
structure Complete (b : Body) (request : Request) (w w' : Writer)
    (contents : List (Ref × Content)) (bytes : Bytes)
    (entries : List Xref.Entry) (d : Dict) : Prop where
  encodes : b.Encodes request contents
  closing : b.closingSection request (place request.settings contents w.offset)
    w.offset w.hash = .ok bytes
  wrote : w.Wrote (request.settings.preamble
    ++ (writtenObjects contents).flatMap Prod.snd ++ bytes) w'
  listed : entries = b.sectionEntries request
    (place request.settings contents w.offset)
    (w.offset + request.settings.preamble.length
      + ((writtenObjects contents).flatMap Prod.snd).length)
  leads : Leads b request (w.offset + request.settings.preamble.length)
    (writtenObjects contents) entries
  closes : Closes b request (w.offset + request.settings.preamble.length
    + ((writtenObjects contents).flatMap Prod.snd).length) entries d bytes
  heads : Xref.Heads entries (b.closingTrailer request
    (place request.settings contents w.offset) w.hash) d

/-- A file that was written without a failure is complete. -/
theorem exists_complete_of_ok {b : Body} (hb : b.Sound) (request : Request)
    {w : Writer} (hok : ((b.write request).run w).result = .ok ()) :
    ∃ contents bytes entries d, Complete b request w
      ((b.write request).run w).state contents bytes entries d := by
  have hends := ends_write b request w
  generalize (b.write request).run w = o at hok hends ⊢
  cases hends with
  | blocked => exact nomatch hok
  | broken => exact nomatch hok
  | unfinished => exact nomatch hok
  | @finished contents bytes w' events hencodes hsection hwrote =>
      obtain ⟨d, hleads, hcloses, hheads⟩ :=
        closes_closingSection hencodes hb hsection
      rw [front_place] at hwrote
      exact ⟨contents, bytes, _, d, hencodes, hsection, hwrote, rfl, hleads,
        hcloses, hheads⟩

/-- A complete file in the parts that a reader meets. -/
theorem complete_of_ok {b : Body} (hb : b.Sound) (request : Request)
    {w : Writer} (hok : ((b.write request).run w).result = .ok ()) :
    let position := w.offset + request.settings.preamble.length
    ∃ contents bytes entries d, b.Encodes request contents
      ∧ w.Wrote (request.settings.preamble
          ++ (writtenObjects contents).flatMap Prod.snd ++ bytes)
        ((b.write request).run w).state
      ∧ Leads b request position (writtenObjects contents) entries
      ∧ Closes b request (position
        + ((writtenObjects contents).flatMap Prod.snd).length) entries d bytes
      ∧ Xref.Carries d (b.closingTrailer request
        (place request.settings contents w.offset) w.hash)
        entries.length := by
  intro position
  obtain ⟨contents, bytes, entries, d, h⟩ :=
    exists_complete_of_ok hb request hok
  exact ⟨contents, bytes, entries, d, h.encodes, h.wrote, h.leads, h.closes,
    h.heads.carries⟩

/-- **FILES ARE TILED**: what a complete file adds to a sink is its preamble,
    the registered objects in ascending order, each of them beginning with the
    line of its number, and the section.  The section is read as entries which
    lead to these objects and to nothing else, and the last number of the file
    is the position of the section. -/
theorem tiles_of_write {b : Body} (hb : b.Reachable) (request : Request)
    {w : Writer} (hw : w.Counted)
    (hok : ((b.write request).run w).result = .ok ()) :
    ∃ contents bytes entries d, b.Encodes request contents
      ∧ (let objects := writtenObjects contents
        let before := w.sink.content ++ request.settings.preamble
        let start := (before ++ objects.flatMap Prod.snd).length
        let content := ((b.write request).run w).state.sink.content
        content = before ++ objects.flatMap Prod.snd ++ bytes
          ∧ objects.map Prod.fst = b.items.keys
          ∧ objects.Pairwise (fun o p => o.1.number < p.1.number)
          ∧ (∀ o ∈ objects, o.1.generation = 0 ∧ o.1.opening <+: o.2)
          ∧ Leads b request before.length objects entries
          ∧ Closes b request start entries d bytes
          ∧ d.get? (.key "Size") = some (.integer entries.length)
          ∧ Xref.start? content = some start) := by
  obtain ⟨contents, bytes, entries, d, hencodes, hwrote, hleads, hcloses,
    hcarries⟩ := complete_of_ok hb.sound request hok
  refine ⟨contents, bytes, entries, d, hencodes, ?_⟩
  intro objects before start content
  have hcontent : content = before ++ objects.flatMap Prod.snd ++ bytes := by
    rw [show content = _ from hwrote.content]
    simp only [before, objects, List.append_assoc]
  have hbefore : w.offset + request.settings.preamble.length
      = before.length := by
    rw [List.length_append, show w.offset = w.sink.content.length from hw]
  have hrefs : objects.map Prod.fst = b.items.keys :=
    (map_fst_writtenObjects contents).trans hencodes.map_fst
  rw [hbefore] at hleads hcloses
  rw [← List.length_append] at hcloses
  refine ⟨hcontent, hrefs, ?_, ?_, hleads, hcloses,
    hcarries _ _ (Trailer.get?_dict_size _ _), ?_⟩
  · have hkeys := hb.sound.ascending_keys
    rwa [← hrefs, List.pairwise_map] at hkeys
  · intro o ho
    have hkey : o.1 ∈ b.items.keys := by
      rw [← hrefs]
      exact List.mem_map.mpr ⟨o, ho, rfl⟩
    obtain ⟨c, -, rfl⟩ := List.mem_map.mp ho
    exact ⟨(hb.sound.of_mem_keys hkey).2.2, opening_prefix_numbered c.2 c.1⟩
  · rw [hcontent]
    exact hcloses.start? _

/-- A file behind one byte that was written before. -/
theorem tiles_of_write_sample :
    let request : Request := {
      trailer := { root := ⟨1, 0⟩ }
      settings := { addsId := false, compress := false }
      compressor _ := .error "unused" }
    let w := ((Writer.write [0x20]).run {}).state
    w.Counted ∧ ((sample.write request).run w).result = .ok ()
      ∧ ∃ contents bytes, sample.Encodes request contents
        ∧ ((sample.write request).run w).state.sink.content
          = [0x20] ++ request.settings.preamble
            ++ (writtenObjects contents).flatMap Prod.snd ++ bytes := by
  intro request w
  have hw : w.Counted := by
    have hdone := Writer.done_write [0x20] {}
    rcases hdone with ⟨-, hwrote⟩ | ⟨cause, he⟩
    · exact hwrote.counted (Writer.counted_fresh .unlimited)
    · exact nomatch he
  have hok : ((sample.write request).run w).result = .ok () :=
    Writer.eq_ok_of_isOk (by decide +kernel)
  obtain ⟨contents, bytes, -, -, hencodes, hcontent, -⟩ :=
    tiles_of_write reachable_sample request hw hok
  exact ⟨hw, hok, contents, bytes, hencodes, hcontent⟩

end Pdf.Body
