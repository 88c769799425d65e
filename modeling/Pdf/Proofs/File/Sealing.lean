import Pdf.Proofs.File.ReadBack
import Pdf.Proofs.Object.Sealing

/-! # Sealed files — what a cipher does to a file

    A file that is written with a cipher has the same objects as one that is
    written without, in the same order.  Each of them is sealed for its own
    number and for the first part of the file identifier, once and completely,
    except the one that the trailer names as the encryption dictionary.  The
    preamble and the section are in the clear, so whoever opens the file finds
    the identifier before anything is opened.

    Sealing comes after filtering.  So the contents of a sealed file are those
    of the same request without a cipher, sealed one by one
    (`Encodes.inClear`), and a cipher that undoes the sealing of bytes leads
    back from the sealed file to the other one. -/

namespace Pdf

open Syntax

/-! ## The identifier of a file -/

/-- The dictionary with the trailer of a section.  The rows of a section may be
    compressed, but nothing has to be expanded for it. -/
def Xref.dict? (bytes : Bytes) : Option Dict :=
  match keyword? "xref" bytes, numbered? bytes with
  | some rest, _ => (table? rest).map Prod.snd
  | none, some (_, .stream s) => some s.dict
  | none, _ => none

/-- The first part of the identifier of a file. -/
def identifier? (file : Bytes) : Option Bytes := do
  let start ← Xref.start? file
  let d ← Xref.dict? (file.drop start)
  match d.get? (.key "ID") with
  | some (.array (.string _ first :: _)) => some first
  | _ => none

namespace Xref

/-- A section that is a stream has the trailer in its own dictionary. -/
theorem eq_dict_of_ofStream? {inflate : Inflater} {s : StreamData}
    {entries : List Entry} {d : Dict}
    (h : ofStream? inflate s = some (entries, d)) : d = s.dict := by
  simp only [ofStream?, Option.bind_eq_bind, Option.bind_eq_some_iff] at h
  obtain ⟨filters, -, rows, -, widths, -, range, -, h⟩ := h
  split at h
  · obtain ⟨found, -, he⟩ := Option.map_eq_some_iff.mp h
    exact (Prod.mk.inj he).2.symm
  · cases h

/-- Whoever reads all of a section finds the same dictionary. -/
theorem dict?_of_readSection? {inflate : Inflater} {bytes : Bytes}
    {entries : List Entry} {d : Dict}
    (h : readSection? inflate bytes = some (entries, d)) :
    dict? bytes = some d := by
  rw [readSection?] at h
  rw [dict?]
  cases hkeyword : keyword? "xref" bytes with
  | some rest =>
      simp only [hkeyword] at h ⊢
      rw [h]
      rfl
  | none =>
      simp only [hkeyword] at h ⊢
      cases hnumbered : numbered? bytes with
      | none =>
          simp only [hnumbered] at h
          cases h
      | some o =>
          obtain ⟨r, c⟩ := o
          simp only [hnumbered] at h ⊢
          cases c with
          | value object => cases h
          | stream s => rw [eq_dict_of_ofStream? h]

end Xref

namespace Trailer

/-- The identifier of a trailer stands in its dictionary. -/
theorem get?_dict_id {t : Trailer} {id : Bytes × Bytes} (size : Nat)
    (h : t.id = some id) :
    (t.dict size).get? (.key "ID") = some (idObject id) := by
  rw [get?_dict_identifier, h]
  rfl

end Trailer

/-! ## Requests with a cipher -/

/-- The same request for a file in the clear, with an identifier. -/
def Request.inClear (request : Request) (id : Bytes × Bytes) : Request :=
  { request with
    trailer := { request.trailer with id := some id }
    cipher := none }

namespace Body

/-- An object as it stands in a file with a cipher: sealed for its number and
    the identifier of the file, unless it is exempt. -/
def sealedObject (cipher : Cipher) (id : Bytes) (exempt : Option Ref)
    (c : Ref × Content) : Ref × Content :=
  if exempt = some c.1 then c else (c.1, c.2.sealed (cipher c.1 id))

theorem fst_sealedObject (cipher : Cipher) (id : Bytes) (exempt : Option Ref)
    (c : Ref × Content) : (sealedObject cipher id exempt c).1 = c.1 := by
  rw [sealedObject]
  by_cases he : exempt = some c.1
  · rw [if_pos he]
  · rw [if_neg he]

/-- With a cipher an object is encoded first and sealed afterwards. -/
theorem encodeObject_of_sealed {request : Request} {cipher : Cipher}
    {t : Trailer} {id : Bytes × Bytes} (hcipher : request.cipher = some cipher)
    (hid : t.id = some id) (r : Ref) (item : Item) :
    encodeObject request t r item
      = (item.encode request.settings request.compressor r).map
        fun c => (sealedObject cipher id.1 t.encrypt (r, c)).2 := by
  have hseal : sealOf request.cipher t r
      = if t.encrypt = some r then none else some (cipher r id.1) := by
    rw [hcipher]
    unfold sealOf
    rw [hid]
  rw [encodeObject, hseal]
  cases item.encode request.settings request.compressor r with
  | error e => rfl
  | ok c =>
      show _ = Except.ok (sealedObject cipher id.1 t.encrypt (r, c)).2
      rw [sealedObject]
      by_cases he : t.encrypt = some r
      · rw [if_pos he, if_pos he]
      · rw [if_neg he, if_neg he]

/-- A file with a cipher has an identifier, the one that was given if there was
    one. -/
theorem encryptionTrailer_of_sealed (b : Body) {request : Request}
    {cipher : Cipher} (h : request.cipher = some cipher) :
    ∃ id, (∀ given, request.trailer.id = some given → id = given)
      ∧ b.encryptionTrailer request
        = { request.trailer with id := some id } := by
  rw [encryptionTrailer, h]
  cases hid : request.trailer.id with
  | none =>
      rw [if_pos ⟨rfl, rfl⟩]
      refine ⟨_, ?_, rfl⟩
      intro given hgiven
      cases hgiven
  | some id =>
      rw [if_neg (fun hnone => Option.some_ne_none id hnone.2)]
      refine ⟨id, fun given hgiven => Option.some.inj hgiven, ?_⟩
      rw [← hid]

/-- Without encryption the trailer takes the identifier that it is given. -/
theorem encryptionTrailer_inClear (b : Body) (request : Request)
    (id : Bytes × Bytes) :
    b.encryptionTrailer (request.inClear id)
      = { request.trailer with id := some id } :=
  if_neg fun h => Bool.false_ne_true h.1

/-- Contents with a cipher are contents in the clear, sealed one by one. -/
theorem Encoded.inClear {request : Request} {cipher : Cipher} {t : Trailer}
    {id : Bytes × Bytes} {items : List (Ref × Item)}
    {objects : List (Ref × Content)} (hcipher : request.cipher = some cipher)
    (hid : t.id = some id) (h : Encoded request t items objects) :
    ∃ clear, Encoded (request.inClear id) t items clear
      ∧ objects = clear.map (sealedObject cipher id.1 t.encrypt) := by
  induction items generalizing objects with
  | nil =>
      rw [List.map_eq_nil_iff.mp h]
      exact ⟨[], rfl, rfl⟩
  | cons i items ih =>
      obtain ⟨r, item⟩ := i
      obtain ⟨o, objects, rfl, ho, hobjects⟩ := List.map_eq_cons_iff.mp h
      obtain ⟨rfl, hencode⟩ := Prod.mk.inj ho
      rw [encodeObject_of_sealed hcipher hid] at hencode
      cases hc : item.encode request.settings request.compressor o.1 with
      | error e =>
          rw [hc] at hencode
          exact nomatch hencode
      | ok c =>
          rw [hc] at hencode
          have hsealed : o = sealedObject cipher id.1 t.encrypt (o.1, c) :=
            Prod.ext (fst_sealedObject cipher id.1 t.encrypt (o.1, c)).symm
              (Except.ok.inj hencode)
          obtain ⟨clear, hclear, hrest⟩ := ih hobjects
          refine ⟨(o.1, c) :: clear, ?_, ?_⟩
          · rw [Encoded, List.map_cons, List.map_cons,
              encodeObject_of_not_sealed rfl]
            show _ :: _ = (o.1, item.encode request.settings
              request.compressor o.1) :: _
            rw [hc]
            exact congrArg _ hclear
          · rw [List.map_cons, ← hsealed, hrest]

/-- Objects are encoded as in the clear and sealed one by one. -/
theorem Encodes.inClear {b : Body} {request : Request} {cipher : Cipher}
    {id : Bytes × Bytes} {objects : List (Ref × Content)}
    (hcipher : request.cipher = some cipher)
    (hid : b.encryptionTrailer request = { request.trailer with id := some id })
    (h : b.Encodes request objects) :
    ∃ clear, b.Encodes (request.inClear id) clear
      ∧ objects = clear.map
        (sealedObject cipher id.1 request.trailer.encrypt) := by
  have hencoded := h.encoded
  rw [hid] at hencoded
  obtain ⟨clear, hclear, hobjects⟩ := hencoded.inClear hcipher rfl
  refine ⟨clear, ⟨h.free, ?_⟩, hobjects⟩
  rw [encryptionTrailer_inClear]
  exact hclear

/-! ## Encoded items -/

/-- What an item is encoded as has the length of its data, and is as plain as
    the item. -/
theorem isMeasured_encode {settings : Settings} {compressor : Compressor}
    {r : Ref} {item : Item} {c : Content}
    (h : item.encode settings compressor r = .ok c) :
    c.IsMeasured ∧ (item.isPlain = true → Recognisable c) := by
  cases item with
  | value o =>
      rw [← Except.ok.inj h]
      exact ⟨trivial, id⟩
  | stream s =>
      rw [Item.encode] at h
      cases he : s.encode settings compressor with
      | error e =>
          rw [he] at h
          cases h
      | ok e =>
          rw [he] at h
          obtain ⟨f, rfl⟩ := Stream.exists_behind_of_encode he
          rw [← Except.ok.inj h]
          refine ⟨?_, Xref.recognisable_behind f⟩
          show (Dict.withLength _ f.data).get? _ = _
          rw [Dict.get?_withLength, if_pos rfl]
          rfl

/-! ## Sealed objects -/

/-- The second object is the first one as it stands in a sealed file: the same
    if it is exempt, and otherwise with its strings and its data replaced by
    what `encrypt` makes of them for its number and the identifier, and such
    that `decrypt` leads back from it. -/
structure Hides (encrypt decrypt : Cipher) (id : Bytes) (exempt : Option Ref)
    (c c' : Ref × Content) : Prop where
  ref : c'.1 = c.1
  kept : exempt = some c.1 → c'.2 = c.2
  replaced : exempt ≠ some c.1 → c.2.Replaced (encrypt c.1 id) c'.2
  opened : exempt ≠ some c.1 → c'.2.sealed (decrypt c.1 id) = c.2

/-- What is sealed can be opened again, if the cipher can be undone. -/
theorem hides_sealedObject {encrypt decrypt : Cipher} {id : Bytes}
    (exempt : Option Ref) {c : Ref × Content}
    (h : ∀ r id data, decrypt r id (encrypt r id data) = data)
    (hc : c.2.IsMeasured) :
    Hides encrypt decrypt id exempt c (sealedObject encrypt id exempt c) := by
  refine ⟨fst_sealedObject _ _ _ _, ?_, ?_, ?_⟩
  · intro he
    rw [sealedObject, if_pos he]
  · intro he
    rw [sealedObject, if_neg he]
    exact Content.replaced_sealed _ hc
  · intro he
    rw [sealedObject, if_neg he]
    exact Content.sealed_sealed (h c.1 id) hc

/-- A reader recognises a sealed object as well as the one in the clear. -/
theorem recognisable_sealedObject (cipher : Cipher) (id : Bytes)
    (exempt : Option Ref) {c : Ref × Content} (h : Recognisable c.2) :
    Recognisable (sealedObject cipher id exempt c).2 := by
  rw [sealedObject]
  by_cases he : exempt = some c.1
  · rw [if_pos he]
    exact h
  · rw [if_neg he]
    exact Content.recognisable_sealed _ h

/-- What is written in the clear for a reference is its item, encoded. -/
theorem Encodes.encode_of_mem {b : Body} {request : Request}
    {id : Bytes × Bytes} {clear : List (Ref × Content)}
    (h : b.Encodes (request.inClear id) clear) {r : Ref} {c : Content}
    (hc : (r, c) ∈ clear) :
    ∃ item, b.items[r]? = some item
      ∧ item.encode request.settings request.compressor r = .ok c := by
  obtain ⟨item, hitem, he⟩ := h.of_mem hc
  rw [encodeObject_of_not_sealed rfl] at he
  exact ⟨item, hitem, he⟩

theorem Encodes.hides {b : Body} {request : Request} {id : Bytes × Bytes}
    {clear : List (Ref × Content)} {encrypt decrypt : Cipher}
    (h : b.Encodes (request.inClear id) clear)
    (hdecrypt : ∀ r id data, decrypt r id (encrypt r id data) = data)
    (exempt : Option Ref) {c : Ref × Content} (hc : c ∈ clear) :
    Hides encrypt decrypt id.1 exempt c
      (sealedObject encrypt id.1 exempt c) := by
  obtain ⟨item, -, he⟩ := h.encode_of_mem hc
  exact hides_sealedObject exempt hdecrypt (isMeasured_encode he).1

/-- The entries lead to each item as it stands sealed in the file. -/
theorem Leads.found_sealed {b : Body} {request : Request} {before : Bytes}
    {id : Bytes × Bytes} {clear : List (Ref × Content)}
    {entries : List Xref.Entry} {cipher : Cipher} {exempt : Option Ref}
    (h : Leads b request before.length
      (writtenObjects (clear.map (sealedObject cipher id.1 exempt))) entries)
    (hclear : b.Encodes (request.inClear id) clear) (tail : Bytes) {r : Ref}
    {item : Item} (hitem : b.items[r]? = some item) :
    ∃ c c' offset, (r, c) ∈ clear
      ∧ sealedObject cipher id.1 exempt (r, c) = (r, c')
      ∧ entries[r.number.toNat]? = some (.inUse offset 0)
      ∧ c'.numbered r <+: (before
        ++ (writtenObjects
          (clear.map (sealedObject cipher id.1 exempt))).flatMap
          Prod.snd ++ tail).drop offset
      ∧ (item.isPlain = true → Recognisable c') := by
  obtain ⟨c, hc, he⟩ := hclear.of_item hitem
  rw [encodeObject_of_not_sealed rfl] at he
  obtain ⟨offset, hentry, hprefix⟩ :=
    h.found tail (List.mem_map_of_mem (f := sealedObject cipher id.1 exempt) hc)
  rw [fst_sealedObject] at hentry hprefix
  refine ⟨c, (sealedObject cipher id.1 exempt (r, c)).2, offset, hc,
    Prod.ext (fst_sealedObject _ _ _ _) rfl, hentry, hprefix, ?_⟩
  intro hplain
  exact recognisable_sealedObject _ _ _ ((isMeasured_encode he).2 hplain)

/-! ## The section -/

/-- The dictionary of a section is found in front of its entries. -/
theorem Closes.dict? {b : Body} {request : Request} {start : Nat}
    {entries : List Xref.Entry} {d : Dict} {bytes : Bytes}
    (h : Closes b request start entries d bytes) :
    Xref.dict? bytes = some d := by
  cases h with
  | table hx hread => exact Xref.dict?_of_readSection? (hread fun _ => none)
  | stream hx hs hpacked hread =>
      exact Xref.dict?_of_readSection? (hread (fun _ => some _) rfl)

theorem Closes.identifier? {b : Body} {request : Request} {front : Bytes}
    {entries : List Xref.Entry} {d : Dict} {bytes : Bytes} {id : Bytes × Bytes}
    (h : Closes b request front.length entries d bytes)
    (hid : d.get? (.key "ID") = some (Trailer.idObject id)) :
    Pdf.identifier? (front ++ bytes) = some id.1 := by
  rw [Pdf.identifier?, h.start?]
  simp only [List.drop_left, h.dict?, hid, Trailer.idObject,
    Option.bind_eq_bind, Option.bind_some]

/-- A file that is sealed is closed with the identifier that it is sealed
    with. -/
theorem closingTrailer_of_sealed {b : Body} {request : Request}
    {id : Bytes × Bytes} (placed : List PlacedObject) (hash : SipHash)
    (h : b.encryptionTrailer request
      = { request.trailer with id := some id }) :
    b.closingTrailer request placed hash
      = { request.trailer with id := some id } := by
  rw [closingTrailer, h, finalTrailer]
  exact if_neg fun hnone => Option.some_ne_none id hnone.1

/-! ## Files -/

/-- A file with some bytes in front of its objects, in which the objects of a
    body are sealed. -/
structure Seals (b : Body) (request : Request) (encrypt decrypt : Cipher)
    (before file : Bytes) (id : Bytes × Bytes)
    (clear objects : List (Ref × Content)) (bytes : Bytes)
    (entries : List Xref.Entry) (d : Dict) : Prop where
  /-- An identifier that was given is kept. -/
  given : ∀ given, request.trailer.id = some given → id = given
  /-- The file tells its identifier. -/
  identified : identifier? file = some id.1
  /-- The contents without the cipher. -/
  encodes : b.Encodes (request.inClear id) clear
  /-- Each object of the file hides one of them, in the same order. -/
  hides : List.Forall₂ (Hides encrypt decrypt id.1 request.trailer.encrypt)
    clear objects
  /-- Nothing else stands in the file but the section. -/
  tiles : file = before ++ (writtenObjects objects).flatMap Prod.snd ++ bytes
  /-- The section leads to the objects. -/
  leads : Leads b request before.length (writtenObjects objects) entries
  /-- It is read as it is, whatever the cipher. -/
  closes : Closes b request
    (before ++ (writtenObjects objects).flatMap Prod.snd).length entries d bytes
  /-- An object is found by its number; a plain one is read back sealed. -/
  found : ∀ (r : Ref) item, b.items[r]? = some item → ∃ c c' offset,
    (r, c) ∈ clear ∧ (r, c') ∈ objects
      ∧ Hides encrypt decrypt id.1 request.trailer.encrypt (r, c) (r, c')
      ∧ entries[r.number.toNat]? = some (.inUse offset 0)
      ∧ c'.numbered r <+: file.drop offset
      ∧ (item.isPlain = true → numbered? (file.drop offset) = some (r, c'))

/-- **SEALING IS EXACTLY UNDONE**: in a complete file with a cipher every
    object but the encryption dictionary has each of its strings and the data
    of a stream replaced once by what the cipher makes of them for its number
    and the identifier that the file tells; everything else is in the clear.
    A cipher that undoes this one leads back, object by object, to what every
    complete file of the same request without a cipher holds. -/
theorem seals_write {b : Body} (hb : b.Reachable) {request : Request}
    {encrypt decrypt : Cipher} (hcipher : request.cipher = some encrypt)
    (hdecrypt : ∀ r id data, decrypt r id (encrypt r id data) = data)
    {w : Writer} (hw : w.Counted)
    (hok : ((b.write request).run w).result = .ok ()) :
    ∃ id clear objects bytes entries d,
      Seals b request encrypt decrypt
          (w.sink.content ++ request.settings.preamble)
          ((b.write request).run w).state.sink.content
          id clear objects bytes entries d
        ∧ ∀ w₀ : Writer,
          ((b.write (request.inClear id)).run w₀).result = .ok () →
          ∃ bytes₀,
            ((b.write (request.inClear id)).run w₀).state.sink.content
              = w₀.sink.content ++ request.settings.preamble
                ++ (writtenObjects clear).flatMap Prod.snd ++ bytes₀ := by
  obtain ⟨objects, bytes, entries, d, hencodes, hwrote, hleads, hcloses,
    hcarries⟩ := complete_of_ok hb.sound request hok
  obtain ⟨id, hgiven, hid⟩ := b.encryptionTrailer_of_sealed hcipher
  obtain ⟨clear, hclear, rfl⟩ := hencodes.inClear hcipher hid
  -- positions are counted from the start of the sink
  let before := w.sink.content ++ request.settings.preamble
  have hbefore : w.offset + request.settings.preamble.length
      = before.length := by
    rw [List.length_append, show w.offset = w.sink.content.length from hw]
  have hfile : ((b.write request).run w).state.sink.content
      = before ++ (writtenObjects (clear.map (sealedObject encrypt id.1
        request.trailer.encrypt))).flatMap Prod.snd ++ bytes := by
    rw [hwrote.content]
    simp only [before, List.append_assoc]
  rw [hbefore] at hleads hcloses
  rw [← List.length_append] at hcloses
  have hdict : d.get? (.key "ID") = some (Trailer.idObject id) := by
    rw [closingTrailer_of_sealed _ _ hid] at hcarries
    exact hcarries _ _ (Trailer.get?_dict_id _ rfl)
  refine ⟨id, clear, _, bytes, entries, d, ⟨hgiven, ?_, hclear, ?_,
    hfile, hleads, hcloses, ?_⟩, ?_⟩
  · rw [hfile]
    exact hcloses.identifier? hdict
  · rw [List.forall₂_map_right_iff, List.forall₂_same]
    intro c hc
    exact hclear.hides hdecrypt _ hc
  · intro r item hitem
    obtain ⟨c, c', offset, hc, hsealed, hentry, hprefix, hplain⟩ :=
      hleads.found_sealed hclear bytes hitem
    rw [← hfile] at hprefix
    refine ⟨c, c', offset, hc, List.mem_map.mpr ⟨_, hc, hsealed⟩,
      hsealed ▸ hclear.hides hdecrypt _ hc, hentry, hprefix, ?_⟩
    intro h
    obtain ⟨rest, hrest⟩ := hprefix
    rw [← hrest]
    exact numbered?_append r rest (hplain h)
  · intro w₀ hok₀
    obtain ⟨clear₀, bytes₀, -, -, hclear₀, hwrote₀, -⟩ :=
      complete_of_ok hb.sound (request.inClear id) hok₀
    refine ⟨bytes₀, ?_⟩
    rw [hwrote₀.content, hclear₀.unique hclear, ← List.append_assoc,
      ← List.append_assoc]
    rfl

/-- A catalog and a stream with strings, and an encryption dictionary. -/
def sampleSecrets : Body :=
  Operation.after (Operation.after (Operation.after .empty
    (.add (.value (.dictionary ((Dict.ofType (.key "Catalog")).insert
      (.key "Lang") (.array [.utf8Text "de", .string .hex [0xFF]]))))))
    (.add (.stream {
      dict := Dictionary.ofList [(.key "Title", .utf8Text "A")]
      data := Bytes.ascii "BT ET" })))
    (.add (.value (.dictionary (Dictionary.ofList
      [(.key "Filter", .name (.key "Standard")),
        (.key "O", .utf8Text "key")]))))

/-- A cipher that marks data with the object and the file that it belongs
    to. -/
def marking : Cipher := fun r id data => r.number.toUInt8 :: (id ++ data)

/-- The same data without the marks. -/
def unmarking : Cipher := fun _ id data => data.drop (id.length + 1)

/-- A mark that is taken off again leaves the data. -/
theorem unmarking_marking (r : Ref) (id data : Bytes) :
    unmarking r id (marking r id data) = data := by
  rw [unmarking, marking, List.drop_succ_cons, List.drop_left]

theorem seals_write_sample :
    let request : Request := {
      trailer := { root := ⟨1, 0⟩, encrypt := some ⟨3, 0⟩ }
      settings := { xrefAsStream := true }
      compressor := turning
      cipher := some marking }
    (∀ r id data, unmarking r id (marking r id data) = data)
      ∧ Writer.Counted {}
      ∧ ((sampleSecrets.write request).run {}).result = .ok ()
      ∧ ∃ id clear objects bytes entries d,
        Seals sampleSecrets request marking unmarking request.settings.preamble
          ((sampleSecrets.write request).run {}).state.sink.content
          id clear objects bytes entries d := by
  intro request
  have hreachable : sampleSecrets.Reachable :=
    .after _ (.after _ (.after _ .empty))
  have hcounted : Writer.Counted {} := Writer.counted_fresh .unlimited
  have hok : ((sampleSecrets.write request).run {}).result = .ok () :=
    Writer.eq_ok_of_isOk (by decide +kernel)
  obtain ⟨id, clear, objects, bytes, entries, d, hseals, -⟩ :=
    @seals_write sampleSecrets hreachable request marking unmarking rfl
      unmarking_marking {} hcounted hok
  exact ⟨unmarking_marking, hcounted, hok, id, clear, objects, bytes, entries,
    d, hseals⟩

end Body

end Pdf
