import Pdf.Proofs.File.Tiling
import Pdf.Proofs.Filter.Chain

/-! # Files, read back

    A reader that knows nothing but the bytes of a file finds the section by
    the last number of the file and the objects by the entries in use.  From a
    file that was written to its end it gets back what was registered: each
    object as it was, and each stream with its data, once the filters are
    undone that were put in front of its own ones.

    Three things are asked for.  The objects are plain, because a rounded
    number or verbatim bytes cannot be read back; nothing is sealed; and the
    reader can expand whatever the compressor accepts. -/

namespace Pdf

open Syntax

/-! ## The reader -/

/-- The numbered objects that entries lead to, from a number on. -/
def objectsAt? (file : Bytes) :
    (number : Nat) → List Xref.Entry → Option (List (Ref × Content))
  | _, [] => some []
  | n, .free _ _ :: entries => objectsAt? file (n + 1) entries
  | n, .inUse offset generation :: entries => do
      let o ← numbered? (file.drop offset)
      let os ← objectsAt? file (n + 1) entries
      if o.1 = ⟨n.toUInt32, generation⟩ then some (o :: os) else none

/-- The objects of a file, and the dictionary with its trailer. -/
def file? (inflate : Inflater) (file : Bytes) :
    Option (List (Ref × Content) × Dict) := do
  let start ← Xref.start? file
  let (entries, d) ← Xref.readSection? inflate (file.drop start)
  let objects ← objectsAt? file 0 entries
  some (objects, d)

/-! ## Entries and objects -/

/-- The objects from a number on, if one of them has it. -/
theorem filter_le_of_mem {objects : List (Ref × Content)} {n : Nat}
    {o : Ref × Content}
    (h : objects.Pairwise fun o p => o.1.number < p.1.number)
    (ho : o ∈ objects) (hn : o.1.number.toNat = n) :
    objects.filter (fun p => n ≤ p.1.number.toNat)
      = o :: objects.filter fun p => n + 1 ≤ p.1.number.toNat := by
  induction objects with
  | nil => exact nomatch ho
  | cons first objects ih =>
      obtain ⟨hfirst, hrest⟩ := List.pairwise_cons.mp h
      rcases List.mem_cons.mp ho with rfl | ho
      · -- all later objects have higher numbers
        have hlater : ∀ p ∈ objects, n + 1 ≤ p.1.number.toNat := by
          intro p hp
          have hlt := UInt32.lt_iff_toNat_lt.mp (hfirst p hp)
          omega
        have hself : decide (n ≤ o.1.number.toNat) = true :=
          decide_eq_true (Nat.le_of_eq hn.symm)
        have hnext : ¬ decide (n + 1 ≤ o.1.number.toNat) = true := by
          rw [decide_eq_true_iff]
          omega
        rw [List.filter_cons, List.filter_cons, if_pos hself, if_neg hnext,
          List.filter_eq_self.mpr fun p hp =>
            decide_eq_true (Nat.le_of_succ_le (hlater p hp)),
          List.filter_eq_self.mpr fun p hp => decide_eq_true (hlater p hp)]
      · have hlt := UInt32.lt_iff_toNat_lt.mp (hfirst o ho)
        have hself : ¬ decide (n ≤ first.1.number.toNat) = true := by
          rw [decide_eq_true_iff]
          omega
        have hnext : ¬ decide (n + 1 ≤ first.1.number.toNat) = true := by
          rw [decide_eq_true_iff]
          omega
        rw [List.filter_cons, List.filter_cons, if_neg hself, if_neg hnext]
        exact ih hrest ho

/-- A number that no object has can be left out of a bound. -/
theorem filter_le_of_not_mem {objects : List (Ref × Content)} {n : Nat}
    (h : ∀ o ∈ objects, o.1.number.toNat ≠ n) :
    objects.filter (fun p => n ≤ p.1.number.toNat)
      = objects.filter fun p => n + 1 ≤ p.1.number.toNat := by
  refine List.filter_congr ?_
  intro o ho
  have hne := h o ho
  exact decide_eq_decide.mpr (by omega)

/-- Entries that lead to numbered objects of a file, and to no others. -/
structure LeadsTo (file : Bytes) (entries : List Xref.Entry)
    (objects : List (Ref × Content)) : Prop where
  ascending : objects.Pairwise fun o p => o.1.number < p.1.number
  found : ∀ n offset generation,
    entries[n]? = some (.inUse offset generation) →
    ∃ o ∈ objects, o.1 = ⟨n.toUInt32, generation⟩ ∧ o.1.number.toNat = n
      ∧ numbered? (file.drop offset) = some o
  listed : ∀ o ∈ objects, ∃ offset generation,
    entries[o.1.number.toNat]? = some (.inUse offset generation)

/-- Going through such entries gives exactly those objects. -/
theorem LeadsTo.objectsAt? {file : Bytes} {entries : List Xref.Entry}
    {objects : List (Ref × Content)} (h : LeadsTo file entries objects) :
    objectsAt? file 0 entries = some objects := by
  -- the entries from a number on lead to the objects from that number on
  have hfrom : ∀ suffix n, entries.drop n = suffix →
      Pdf.objectsAt? file n suffix
        = some (objects.filter fun o => n ≤ o.1.number.toNat) := by
    intro suffix
    induction suffix with
    | nil =>
        intro n hn
        have hlength := List.drop_eq_nil_iff.mp hn
        refine congrArg some (List.filter_eq_nil_iff.mpr ?_).symm
        intro o ho hle
        obtain ⟨offset, generation, hentry⟩ := h.listed o ho
        have hlt := (List.getElem?_eq_some_iff.mp hentry).1
        have hle' := of_decide_eq_true hle
        omega
    | cons e suffix ih =>
        intro n hn
        have hentry : entries[n]? = some e := by
          rw [← List.head?_drop, hn]
          rfl
        have hsuffix : entries.drop (n + 1) = suffix := by
          rw [← List.tail_drop, hn]
          rfl
        cases e with
        | free next generation =>
            have hnone : ∀ o ∈ objects, o.1.number.toNat ≠ n := by
              intro o ho hnum
              obtain ⟨offset, generation', hlisted⟩ := h.listed o ho
              rw [hnum, hentry] at hlisted
              exact nomatch Option.some.inj hlisted
            rw [Pdf.objectsAt?, ih (n + 1) hsuffix,
              filter_le_of_not_mem hnone]
        | inUse offset generation =>
            obtain ⟨o, ho, href, hnum, hread⟩ := h.found _ _ _ hentry
            rw [Pdf.objectsAt?, filter_le_of_mem h.ascending ho hnum]
            simp only [hread, ih (n + 1) hsuffix, Option.bind_eq_bind,
              Option.bind_some]
            rw [if_pos href]
  have hall := hfrom entries 0 rfl
  rwa [List.filter_eq_self.mpr fun o _ => decide_eq_true (Nat.zero_le _)]
    at hall

/-! ## Items -/

/-- Whether all that an item says can be read back. -/
def Item.isPlain : Item → Bool
  | value o => o.isPlain
  | stream s => s.dict.isPlain

/-- A content tells what an item was: it is the same object, or a stream with
    the same entries whose data is found once the filters are undone that stand
    in front of its own ones. -/
def Recovers (inflate : Inflater) : Item → Content → Prop
  | .value o, .value o' => o' = o
  | .stream s, .stream e => e.dict.uncoded = s.dict.uncoded
      ∧ e.dict.get? (.key "Length") = some (.integer e.data.length)
      ∧ ∃ front, e.dict.filterList
          = (front ++ s.policy.own).map Filter.listed ++ s.dict.filterList
        ∧ Filter.undoAll? inflate front e.data = some s.data
  | _, _ => False

/-- An item that is encoded and not sealed can be recovered. -/
theorem recovers_encode {inflate : Inflater} {settings : Settings}
    {compressor : Compressor} {r : Ref} {item : Item} {c : Content}
    (h : Inverts inflate compressor) (hplain : item.isPlain = true)
    (hc : item.encode settings compressor r = .ok c) :
    Recovers inflate item c ∧ Recognisable c := by
  cases item with
  | value o =>
      rw [← Except.ok.inj hc]
      exact ⟨rfl, hplain⟩
  | stream s =>
      rw [Item.encode] at hc
      cases he : s.encode settings compressor with
      | error e =>
          rw [he] at hc
          cases hc
      | ok e =>
          rw [he] at hc
          obtain ⟨hfront, hlength, huncoded, hdict⟩ :=
            Stream.encode_eq_ok h he
          rw [← Except.ok.inj hc]
          exact ⟨⟨huncoded, hlength, hfront⟩, hdict hplain, hlength⟩

namespace Body

/-! ## Where the objects stand -/

/-- An object stands behind those in front of it, and the last one behind all
    others. -/
theorem stands_concat {position n offset : Nat}
    {objects : List (Ref × Bytes)} {o : Ref × Bytes} :
    Stands position (objects ++ [o]) n offset
      ↔ Stands position objects n offset ∨ (n = o.1.number.toNat
        ∧ offset = position + (objects.flatMap Prod.snd).length) := by
  constructor
  · rintro ⟨front, p, back, hobjects, hn, hoffset⟩
    rcases List.eq_nil_or_concat back with rfl | ⟨back, q, rfl⟩
    · obtain ⟨hfront, hlast⟩ := List.append_inj' hobjects rfl
      rw [hfront, (List.cons.inj hlast).1]
      exact Or.inr ⟨hn.symm, hoffset⟩
    · have hinit : objects = front ++ p :: back := by
        rw [List.concat_eq_append, ← List.cons_append, ← List.append_assoc]
          at hobjects
        exact (List.append_inj' hobjects rfl).1
      exact Or.inl ⟨front, p, back, hinit, hn, hoffset⟩
  · rintro (⟨front, p, back, hobjects, hn, hoffset⟩ | ⟨hn, hoffset⟩)
    · refine ⟨front, p, back ++ [o], ?_, hn, hoffset⟩
      rw [hobjects, List.append_assoc]
      rfl
    · exact ⟨objects, o, [], rfl, hn.symm, hoffset⟩

/-- Entries that lead to where the objects of a file stand lead to these
    objects. -/
theorem leadsTo_of_stands {before tail : Bytes}
    {entries : List Xref.Entry} {contents : List (Ref × Content)}
    (hascending : contents.Pairwise fun c c' => c.1.number < c'.1.number)
    (hgeneration : ∀ c ∈ contents, c.1.generation = 0)
    (hrecognisable : ∀ c ∈ contents, Recognisable c.2)
    (hentries : ∀ n offset generation,
      entries[n]? = some (.inUse offset generation) ↔ generation = 0
        ∧ Stands before.length (writtenObjects contents) n offset) :
    LeadsTo (before ++ (writtenObjects contents).flatMap Prod.snd ++ tail)
      entries contents := by
  refine ⟨hascending, ?_, ?_⟩
  · intro n offset generation hentry
    obtain ⟨rfl, front, o, back, hobjects, hn, hoffset⟩ :=
      (hentries n offset generation).mp hentry
    obtain ⟨cs, cs', rfl, hfront, hback⟩ := List.map_eq_append_iff.mp hobjects
    obtain ⟨c, cs'', rfl, hc, hcs⟩ := List.map_eq_cons_iff.mp hback
    have hmem : c ∈ cs ++ c :: cs'' :=
      List.mem_append_right _ List.mem_cons_self
    have hnum : c.1.number.toNat = n := by
      rw [← hn, ← hc]
    -- the file is what stands in front of the object, the object and the rest
    have hfile : before ++ (writtenObjects (cs ++ c :: cs'')).flatMap Prod.snd
        ++ tail = (before ++ front.flatMap Prod.snd) ++ (c.2.numbered c.1
          ++ (back.flatMap Prod.snd ++ tail)) := by
      rw [show writtenObjects (cs ++ c :: cs'') = front ++ o :: back
        from hobjects, ← hc]
      simp only [List.flatMap_append, List.flatMap_cons, List.append_assoc]
    refine ⟨c, hmem, ?_, hnum, ?_⟩
    · rw [← hnum, show c.1.number.toNat.toUInt32 = c.1.number
        from UInt32.ofNat_toNat, ← hgeneration c hmem]
    · have hlength : (before ++ front.flatMap Prod.snd).length = offset := by
        rw [List.length_append, hoffset]
      rw [hfile, List.drop_left' hlength,
        numbered?_append c.1 _ (hrecognisable c hmem)]
  · intro c hc
    obtain ⟨cs, cs', rfl⟩ := List.append_of_mem hc
    exact ⟨_, 0, (hentries _ _ _).mpr ⟨rfl, writtenObjects cs, _,
      writtenObjects cs', List.map_append, rfl, rfl⟩⟩

/-! ## Files -/

/-- A section is read as its entries and its dictionary, in either form. -/
theorem Closes.readSection? {b : Body} {request : Request} {start : Nat}
    {entries : List Xref.Entry} {d : Dict} {bytes : Bytes}
    {inflate : Inflater} (h : Closes b request start entries d bytes)
    (hinverts : Inverts inflate request.compressor) :
    Xref.readSection? inflate bytes = some (entries, d) := by
  cases h with
  | table hx hread => exact hread inflate
  | stream hx hs hpacked hread =>
      exact hread inflate (hinverts _ _ hpacked)

/-- The objects that a section leads to are those of the body, and the section
    itself if it has a number. -/
theorem Closes.leadsTo {b : Body} {request : Request} {before bytes : Bytes}
    {contents : List (Ref × Content)} {entries : List Xref.Entry} {d : Dict}
    (h : Closes b request (before.length
      + ((writtenObjects contents).flatMap Prod.snd).length) entries d bytes)
    (hb : b.Sound) (hencodes : b.Encodes request contents)
    (hleads : Leads b request before.length (writtenObjects contents) entries)
    (hrecognisable : ∀ c ∈ contents, Recognisable c.2) :
    ∃ own, own.map Prod.fst
        = (if request.settings.xrefAsStream then [b.nextRef] else [])
      ∧ LeadsTo (before ++ (writtenObjects contents).flatMap Prod.snd
        ++ bytes) entries (contents ++ own) := by
  have hkeys : ∀ c ∈ contents, c.1.number.toNat ≤ b.issued
      ∧ c.1.generation = 0 := by
    intro c hc
    have hmem : c.1 ∈ b.items.keys := by
      rw [← hencodes.map_fst]
      exact List.mem_map.mpr ⟨c, hc, rfl⟩
    exact (hb.of_mem_keys hmem).2
  have hascending : contents.Pairwise fun c c' =>
      c.1.number < c'.1.number := by
    have hpairwise := hb.ascending_keys
    rwa [← hencodes.map_fst, List.pairwise_map] at hpairwise
  cases h with
  | table hx hread =>
      refine ⟨[], by rw [if_neg hx]; rfl, ?_⟩
      rw [List.append_nil]
      refine leadsTo_of_stands hascending (fun c hc => (hkeys c hc).2)
        hrecognisable ?_
      intro n offset generation
      rw [hleads.inUse]
      refine and_congr_right fun _ => ?_
      exact ⟨fun hor => hor.resolve_right fun hown => hx hown.1, Or.inl⟩
  | @stream s packed hx hs hpacked hread =>
      -- the section is one more object, behind all others
      refine ⟨[(b.nextRef, .stream s)], by rw [if_pos hx]; rfl, ?_⟩
      have hwritten : writtenObjects (contents ++ [(b.nextRef, .stream s)])
          = writtenObjects contents ++ [(b.nextRef, s.numbered b.nextRef)] :=
        List.map_append
      have hfile : ∀ tail, before
          ++ (writtenObjects contents).flatMap Prod.snd
          ++ (s.numbered b.nextRef ++ tail)
          = before ++ (writtenObjects (contents
            ++ [(b.nextRef, .stream s)])).flatMap Prod.snd ++ tail := by
        intro tail
        rw [hwritten, List.flatMap_append, List.flatMap_singleton]
        simp only [List.append_assoc]
      rw [hfile]
      refine leadsTo_of_stands ?_ ?_ ?_ ?_
      · refine List.pairwise_append.mpr ⟨hascending,
          List.pairwise_singleton _ _, ?_⟩
        intro c hc own hown
        rw [List.mem_singleton.mp hown, UInt32.lt_iff_toNat_lt,
          toNat_nextRef hb.bounded]
        exact Nat.lt_succ_of_le (hkeys c hc).1
      · intro c hc
        rcases List.mem_append.mp hc with hc | hown
        · exact (hkeys c hc).2
        · rw [List.mem_singleton.mp hown]
          rfl
      · intro c hc
        rcases List.mem_append.mp hc with hc | hown
        · exact hrecognisable c hc
        · rw [List.mem_singleton.mp hown]
          exact hs
      · intro n offset generation
        rw [hleads.inUse, hwritten, stands_concat]
        refine and_congr_right fun _ => or_congr_right ?_
        exact and_iff_right hx

/-- The section is found behind everything else, and the objects by it. -/
theorem file?_append {b : Body} {request : Request} {front bytes : Bytes}
    {entries : List Xref.Entry} {d : Dict} {objects : List (Ref × Content)}
    {inflate : Inflater}
    (h : Closes b request front.length entries d bytes)
    (hinverts : Inverts inflate request.compressor)
    (hobjects : LeadsTo (front ++ bytes) entries objects) :
    file? inflate (front ++ bytes) = some (objects, d) := by
  rw [file?, h.start?]
  simp only [List.drop_left, h.readSection? hinverts, hobjects.objectsAt?,
    Option.bind_eq_bind, Option.bind_some]

/-- Without a cipher only a missing identifier is added to a trailer. -/
theorem closingTrailer_of_not_sealed {b : Body} {request : Request}
    (placed : List PlacedObject) (hash : SipHash)
    (h : request.cipher = none) :
    ∃ id, (request.trailer.id.isSome = true
        ∨ request.settings.addsId = false → id = request.trailer.id)
      ∧ b.closingTrailer request placed hash
        = { request.trailer with id } := by
  have hsame : b.encryptionTrailer request = request.trailer := by
    rw [encryptionTrailer, h]
    exact if_neg fun hcipher => Bool.false_ne_true hcipher.1
  rw [closingTrailer, hsame, finalTrailer]
  by_cases hid : request.trailer.id = none
      ∧ request.settings.addsId = true
  · rw [if_pos hid]
    refine ⟨_, ?_, rfl⟩
    rintro (hsome | hadds)
    · rw [hid.1] at hsome
      cases hsome
    · rw [hid.2] at hadds
      cases hadds
  · rw [if_neg hid]
    exact ⟨request.trailer.id, fun _ => rfl, rfl⟩

/-- **FILES ARE READ BACK**: from the bytes of a complete file a reader that
    can expand what was compressed gets the objects of the body, and no others
    but the cross-reference stream if there is one; it recovers each of them,
    and the trailer says what it was told, with an identifier where it had
    none and one was asked for. -/
theorem file?_write {b : Body} (hb : b.Reachable) {request : Request}
    {inflate : Inflater}
    (hplain : ∀ (r : Ref) item, b.items[r]? = some item →
      item.isPlain = true)
    (hcipher : request.cipher = none)
    (hinverts : Inverts inflate request.compressor) (device : Device)
    (hok : ((b.write request).run { sink := { device } }).result = .ok ()) :
    ∃ objects d,
      file? inflate
          ((b.write request).run { sink := { device } }).state.sink.content
        = some (objects, d)
      ∧ objects.map Prod.fst = b.items.keys
        ++ (if request.settings.xrefAsStream then [b.nextRef] else [])
      ∧ (∀ (r : Ref) item, b.items[r]? = some item →
        ∃ c, (r, c) ∈ objects ∧ Recovers inflate item c)
      ∧ ∃ id, (request.trailer.id.isSome = true
          ∨ request.settings.addsId = false → id = request.trailer.id)
        ∧ Xref.Carries d { request.trailer with id }
          (b.xrefSize request.settings) := by
  obtain ⟨contents, bytes, entries, d, hencodes, hwrote, hleads, hcloses,
    hcarries⟩ := complete_of_ok hb.sound request hok
  have hcontent := hwrote.content
  generalize ((b.write request).run { sink := { device } }).state = w'
    at hcontent ⊢
  have hfile : w'.sink.content = request.settings.preamble
      ++ (writtenObjects contents).flatMap Prod.snd ++ bytes := hcontent
  rw [Nat.zero_add] at hleads hcloses
  have hrecovers : ∀ (r : Ref) item c, b.items[r]? = some item →
      encodeObject request (b.encryptionTrailer request) r item = .ok c →
      Recovers inflate item c ∧ Recognisable c := by
    intro r item c hi hc
    rw [encodeObject_of_not_sealed hcipher] at hc
    exact recovers_encode hinverts (hplain r item hi) hc
  have hrecognisable : ∀ c ∈ contents, Recognisable c.2 := by
    intro c hc
    obtain ⟨item, hi, he⟩ := hencodes.of_mem (r := c.1) (c := c.2) hc
    exact (hrecovers _ _ _ hi he).2
  obtain ⟨own, hown, hleadsTo⟩ :=
    hcloses.leadsTo hb.sound hencodes hleads hrecognisable
  obtain ⟨id, hid, htrailer⟩ := closingTrailer_of_not_sealed (b := b)
    (place request.settings contents 0) .empty hcipher
  refine ⟨contents ++ own, d, ?_, ?_, ?_, id, hid, ?_⟩
  · rw [← List.length_append] at hcloses
    rw [hfile]
    exact file?_append hcloses hinverts hleadsTo
  · rw [List.map_append, hencodes.map_fst, hown]
  · intro r item hi
    obtain ⟨c, hc, he⟩ := hencodes.of_item hi
    exact ⟨c, List.mem_append_left _ hc, (hrecovers r item c hi he).1⟩
  · rw [← htrailer, ← hleads.size]
    exact hcarries

/-- A compressor that marks data and turns it around. -/
def turning : Compressor := fun data => .ok (0x52 :: data.reverse)

/-- What `turning` did to some data, undone. -/
def unturning : Inflater
  | 0x52 :: data => some data.reverse
  | _ => none

/-- What was marked and turned around is turned back. -/
theorem inverts_turning : Inverts unturning turning := by
  intro data packed h
  rw [← Except.ok.inj h]
  exact congrArg some (List.reverse_reverse data)

theorem file?_write_sample :
    let request : Request := {
      trailer := { root := ⟨1, 0⟩ }
      settings := { addsId := false, xrefAsStream := true, asciiOnly := true }
      compressor := turning }
    Inverts unturning request.compressor ∧ request.cipher = none
      ∧ ((sample.write request).run {}).result = .ok ()
      ∧ ∃ objects d,
        file? unturning ((sample.write request).run {}).state.sink.content
            = some (objects, d)
          ∧ objects.map Prod.fst = [⟨1, 0⟩, ⟨2, 0⟩, ⟨3, 0⟩] := by
  intro request
  have hplain : ∀ (r : Ref) item, sample.items[r]? = some item →
      item.isPlain = true := by
    have hall : sample.items.toList.all (·.2.isPlain) = true := by
      decide +kernel
    intro r item hi
    exact List.all_eq_true.mp hall (r, item)
      (Std.ExtTreeMap.mem_toList_iff_getElem?_eq_some.mpr hi)
  have hok : ((sample.write request).run {}).result = .ok () :=
    Writer.eq_ok_of_isOk (by decide +kernel)
  obtain ⟨objects, d, hfile, hrefs, -⟩ := @file?_write sample
    reachable_sample request unturning hplain rfl inverts_turning .unlimited hok
  refine ⟨inverts_turning, rfl, hok, objects, d, hfile, ?_⟩
  rw [hrefs]
  decide +kernel

end Body

end Pdf
