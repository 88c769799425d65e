import Pdf.File.Layout
import Pdf.Proofs.Body.Reachable
import Pdf.Proofs.Output.Performance

/-! # Plans — all that can become of a body

    The plan of a file either fails before its first byte, or all objects are
    encoded and it is laid out (`plan_cases`).  A laid-out plan holds the
    preamble and the objects, and then the section or its error
    (`layout_eq`).

    The errors of the stages are told apart by what they say: a dangling
    reference, no number left, or data that the compressor refused.  In the
    last case the error names the object, and the number of the section is not
    one of an object. -/

namespace Pdf.Body

/-! ## Encoding -/

/-- Contents that some items are encoded as, one by one. -/
def Encoded (request : Request) (t : Trailer) (items : List (Ref × Item))
    (contents : List (Ref × Content)) : Prop :=
  contents.map (fun c => (c.1, Except.ok c.2))
    = items.map fun i => (i.1, encodeObject request t i.1 i.2)

/-- Items are encoded in one way only. -/
theorem Encoded.unique {request : Request} {t : Trailer}
    {items : List (Ref × Item)} {contents contents' : List (Ref × Content)}
    (h : Encoded request t items contents)
    (h' : Encoded request t items contents') : contents = contents' := by
  refine (List.map_inj_right ?_).mp (h.trans h'.symm)
  intro c c' he
  obtain ⟨hr, hc⟩ := Prod.mk.inj he
  exact Prod.ext hr (Except.ok.inj hc)

/-- The data of a stream can only fail to be compressed. -/
theorem filtered_error {settings : Settings} {compressor : Compressor}
    {s : Stream} {e : Error}
    (h : s.filtered settings compressor = .error e) :
    ∃ message, e = .compressionFailed none message := by
  -- two policies compress, and the others cannot fail
  have hcompressed : Filtered.compressed compressor s.data = .error e →
      ∃ message, e = .compressionFailed none message := by
    intro hc
    rw [Filtered.compressed] at hc
    cases hm : compressor s.data with
    | ok data =>
        rw [hm] at hc
        exact nomatch hc
    | error message =>
        rw [hm] at hc
        exact ⟨message, (Except.error.inj hc).symm⟩
  rw [Stream.filtered] at h
  cases hp : s.policy with
  | automatic =>
      simp only [hp] at h
      by_cases hs : settings.compress = true
      · rw [if_pos hs] at h
        exact hcompressed h
      · rw [if_neg hs] at h
        exact nomatch h
  | compressed =>
      simp only [hp] at h
      exact hcompressed h
  | uncompressed =>
      simp only [hp] at h
      exact nomatch h
  | encoded filter =>
      simp only [hp] at h
      exact nomatch h

/-- An object is not encoded only if the compressor refuses its data. -/
theorem encodeObject_error {request : Request} {t : Trailer} {r : Ref}
    {item : Item} {e : Error}
    (h : encodeObject request t r item = .error e) :
    ∃ message, e = .compressionFailed (some r) message := by
  have hencode : item.encode request.settings request.compressor r
      = .error e := by
    rw [encodeObject] at h
    cases hi : item.encode request.settings request.compressor r with
    | error e' =>
        rw [hi] at h
        exact h
    | ok content =>
        rw [hi] at h
        cases hs : sealOf request.cipher t r with
        | none =>
            rw [hs] at h
            exact nomatch h
        | some hide =>
            rw [hs] at h
            exact nomatch h
  cases item with
  | value object => exact nomatch hencode
  | stream s =>
      rw [Item.encode, Stream.encode] at hencode
      cases hf : s.filtered request.settings request.compressor with
      | ok f =>
          rw [hf] at hencode
          exact nomatch hencode
      | error e' =>
          rw [hf] at hencode
          obtain ⟨message, rfl⟩ := filtered_error hf
          exact ⟨message, (Except.error.inj hencode).symm⟩

/-- Encoding goes through all items or stops at one that is refused. -/
theorem encodeAll_cases (request : Request) (t : Trailer)
    (items : List (Ref × Item)) :
    (∃ contents, encodeAll request t items = (contents, .ok ())
        ∧ Encoded request t items contents)
      ∨ ∃ contents r item message,
        encodeAll request t items
            = (contents, .error (.compressionFailed (some r) message))
          ∧ (r, item) ∈ items := by
  induction items with
  | nil => exact Or.inl ⟨[], rfl, rfl⟩
  | cons i items ih =>
      obtain ⟨r, item⟩ := i
      cases hi : encodeObject request t r item with
      | error e =>
          obtain ⟨message, rfl⟩ := encodeObject_error hi
          refine Or.inr ⟨[], r, item, message, ?_, List.mem_cons_self⟩
          rw [encodeAll, hi]
      | ok content =>
          rcases ih with ⟨contents, he, hcontents⟩
            | ⟨contents, r', item', message, he, hmem⟩
          · refine Or.inl ⟨(r, content) :: contents, ?_, ?_⟩
            · rw [encodeAll, hi]
              simp only [he]
            · rw [Encoded, List.map_cons, List.map_cons, hi]
              exact congrArg _ hcontents
          · refine Or.inr ⟨(r, content) :: contents, r', item', message, ?_,
              List.mem_cons_of_mem _ hmem⟩
            rw [encodeAll, hi]
            simp only [he]

/-- What is written for an object is its encoding, in the clear or sealed. -/
theorem encodeObject_eq_ok {request : Request} {t : Trailer} {r : Ref}
    {item : Item} {c : Content} (h : encodeObject request t r item = .ok c) :
    ∃ clear, item.encode request.settings request.compressor r = .ok clear
      ∧ (c = clear ∨ ∃ hide, c = clear.sealed hide) := by
  rw [encodeObject] at h
  cases hencode : item.encode request.settings request.compressor r with
  | error e =>
      rw [hencode] at h
      cases h
  | ok clear =>
      rw [hencode] at h
      cases hseal : sealOf request.cipher t r with
      | none =>
          rw [hseal] at h
          exact ⟨clear, rfl, Or.inl (Except.ok.inj h).symm⟩
      | some hide =>
          rw [hseal] at h
          exact ⟨clear, rfl, Or.inr ⟨hide, (Except.ok.inj h).symm⟩⟩

/-- Without a cipher an object is encoded as it is. -/
theorem encodeObject_of_not_sealed {request : Request} {t : Trailer} {r : Ref}
    {item : Item} (h : request.cipher = none) :
    encodeObject request t r item
      = item.encode request.settings request.compressor r := by
  rw [encodeObject, h]
  cases item.encode request.settings request.compressor r with
  | ok content => rfl
  | error e => rfl

/-! ## Errors of the stages -/

/-- The check of the references reports nothing but dangling ones. -/
theorem danglingError_cases {b : Body} {roots : List Ref} {e : Error}
    (h : b.danglingError roots = some e) :
    ∃ target referrer, e = .danglingReference target referrer := by
  rw [danglingError] at h
  cases hf : b.items.toList.findSome? b.danglingFrom with
  | some e' =>
      rw [hf] at h
      obtain ⟨⟨r, item⟩, -, hr⟩ := List.exists_of_findSome?_eq_some hf
      rw [danglingFrom] at hr
      obtain ⟨target, -, ht⟩ := Option.map_eq_some_iff.mp hr
      exact ⟨target, some r, (Option.some.inj h).symm.trans ht.symm⟩
  | none =>
      rw [hf] at h
      obtain ⟨target, -, ht⟩ := Option.map_eq_some_iff.mp h
      exact ⟨target, none, ht.symm⟩

/-- A body cannot be written at all if a reference dangles or if no number is
    left for the section. -/
theorem obstacle_cases {b : Body} {request : Request} {e : Error}
    (h : b.obstacle request = some e) :
    (∃ target referrer, e = .danglingReference target referrer)
      ∨ e = .numbersExhausted := by
  rw [obstacle] at h
  cases hd : b.danglingError request.trailer.refs with
  | some e' =>
      rw [hd] at h
      refine Or.inl (danglingError_cases (hd.trans ?_))
      exact h
  | none =>
      simp only [hd] at h
      by_cases hx : request.settings.xrefAsStream = true
          ∧ highestNumber ≤ b.issued
      · rw [if_pos hx] at h
        exact Or.inr (Option.some.inj h).symm
      · rw [if_neg hx] at h
        exact nomatch h

/-- The section is refused by the compressor, or an object starts too far
    behind. -/
theorem xrefSection_error {b : Body} {request : Request} {t : Trailer}
    {placed : List PlacedObject} {start : Nat} {e : Error}
    (h : b.xrefSection request t placed start = .error e) :
    (request.settings.xrefAsStream = true
        ∧ ∃ message, e = .compressionFailed (some b.nextRef) message)
      ∨ ∃ r offset, e = .offsetTooLarge r offset := by
  rw [xrefSection] at h
  by_cases hx : request.settings.xrefAsStream = true
  · rw [if_pos hx, Xref.stream, filterData, if_pos rfl,
      Filtered.compressed] at h
    refine Or.inl ⟨hx, ?_⟩
    split at h
    · exact nomatch h
    · next e' he =>
        split at he
        · exact nomatch he
        · next message hm =>
            have hnone := Except.error.inj he
            rw [← Except.error.inj h, ← hnone]
            exact ⟨message, rfl⟩
  · rw [if_neg hx, Xref.table] at h
    refine Or.inr ?_
    split at h
    · next e' he =>
        obtain ⟨⟨entry, number⟩, -, hr⟩ := List.exists_of_findSome?_eq_some he
        cases entry with
        | free next generation => exact nomatch hr
        | inUse offset generation =>
            rw [Xref.tableError] at hr
            by_cases hlarge : Xref.largestOffset < offset
            · rw [if_pos hlarge] at hr
              rw [← Except.error.inj h, ← Option.some.inj hr]
              exact ⟨_, offset, rfl⟩
            · rw [if_neg hlarge] at hr
              exact nomatch hr
    · exact nomatch h

/-! ## Plans -/

/-- The errors that stop a body before its first byte. -/
inductive Blocks (b : Body) : Error → Prop where
  | dangling (target : Ref) (referrer : Option Ref) :
      Blocks b (.danglingReference target referrer)
  | exhausted : Blocks b .numbersExhausted
  | refused {r : Ref} {item : Item} (message : String) :
      b.items[r]? = some item → Blocks b (.compressionFailed (some r) message)

/-- The body has no obstacle and its objects are encoded. -/
structure Encodes (b : Body) (request : Request)
    (contents : List (Ref × Content)) : Prop where
  free : b.obstacle request = none
  encoded : Encoded request (b.encryptionTrailer request) b.items.toList
    contents

/-- What is written for the objects is determined by the body and the
    request. -/
theorem Encodes.unique {b : Body} {request : Request}
    {contents contents' : List (Ref × Content)}
    (h : b.Encodes request contents) (h' : b.Encodes request contents') :
    contents = contents' :=
  h.encoded.unique h'.encoded

/-- Each content is the one of an item. -/
theorem Encodes.of_mem {b : Body} {request : Request}
    {contents : List (Ref × Content)} {r : Ref} {c : Content}
    (h : b.Encodes request contents) (hc : (r, c) ∈ contents) :
    ∃ item, b.items[r]? = some item
      ∧ encodeObject request (b.encryptionTrailer request) r item = .ok c := by
  have hmem : (r, Except.ok c)
      ∈ contents.map fun c => (c.1, (Except.ok c.2 : Except Error Content)) :=
    List.mem_map.mpr ⟨_, hc, rfl⟩
  rw [h.encoded] at hmem
  obtain ⟨⟨r', item⟩, hi, he⟩ := List.mem_map.mp hmem
  obtain ⟨rfl, hencode⟩ := Prod.mk.inj he
  exact ⟨item, Std.ExtTreeMap.mem_toList_iff_getElem?_eq_some.mp hi, hencode⟩

/-- Each item has a content. -/
theorem Encodes.of_item {b : Body} {request : Request}
    {contents : List (Ref × Content)} {r : Ref} {item : Item}
    (h : b.Encodes request contents) (hi : b.items[r]? = some item) :
    ∃ c, (r, c) ∈ contents
      ∧ encodeObject request (b.encryptionTrailer request) r item = .ok c := by
  have hmem : (r, encodeObject request (b.encryptionTrailer request) r item)
      ∈ b.items.toList.map fun i => (i.1, encodeObject request
        (b.encryptionTrailer request) i.1 i.2) :=
    List.mem_map.mpr
      ⟨(r, item), Std.ExtTreeMap.mem_toList_iff_getElem?_eq_some.mpr hi, rfl⟩
  rw [← h.encoded] at hmem
  obtain ⟨⟨r', c⟩, hc, he⟩ := List.mem_map.mp hmem
  obtain ⟨rfl, hencode⟩ := Prod.mk.inj he
  exact ⟨c, hc, hencode.symm⟩

/-- A plan fails before its first byte, or everything but the section is
    settled. -/
theorem plan_cases (b : Body) (request : Request) (offset : Nat)
    (hash : SipHash) :
    (∃ events e, b.plan request offset hash = .failing events e
        ∧ b.Blocks e)
      ∨ ∃ contents, b.Encodes request contents
        ∧ b.plan request offset hash
          = b.layout request (b.encryptionTrailer request) contents offset
            hash := by
  rw [plan]
  cases ho : b.obstacle request with
  | some e =>
      refine Or.inl ⟨[], e, rfl, ?_⟩
      rcases obstacle_cases ho with ⟨target, referrer, rfl⟩ | rfl
      · exact .dangling target referrer
      · exact .exhausted
  | none =>
      rcases encodeAll_cases request (b.encryptionTrailer request)
          b.items.toList with ⟨contents, he, hencoded⟩
        | ⟨contents, r, item, message, he, hmem⟩
      · refine Or.inr ⟨contents, ⟨ho, hencoded⟩, ?_⟩
        simp only [he]
      · have hr : b.items[r]? = some item :=
          Std.ExtTreeMap.mem_toList_iff_getElem?_eq_some.mp hmem
        refine Or.inl ⟨contents.flatMap (·.2.warnings),
          .compressionFailed (some r) message, ?_, .refused message hr⟩
        simp only [he]

/-- The trailer of a file whose objects are placed. -/
def closingTrailer (b : Body) (request : Request)
    (placed : List PlacedObject) (hash : SipHash) : Trailer :=
  finalTrailer (b.encryptionTrailer request) request.settings
    (hash.update (front request.settings placed)).finish

/-- Whatever identifies a file, it was asked for or is a digest; the rest of the
    trailer is the one that was asked for. -/
theorem exists_closingTrailer_eq (b : Body) (request : Request)
    (placed : List PlacedObject) (hash : SipHash) :
    ∃ id, (id = request.trailer.id
        ∨ ∃ d : Digest, id = some (d.identifier, d.identifier))
      ∧ b.closingTrailer request placed hash
        = { request.trailer with id } := by
  have hidentified : ∀ (p : Prop) [Decidable p] (t : Trailer) (d : Digest),
      ∃ id, (id = t.id ∨ ∃ d : Digest, id = some (d.identifier, d.identifier))
        ∧ (if p then t.identified d.identifier else t) = { t with id } := by
    intro p _ t d
    by_cases hp : p
    · rw [if_pos hp]
      exact ⟨_, Or.inr ⟨d, rfl⟩, rfl⟩
    · rw [if_neg hp]
      exact ⟨t.id, Or.inl rfl, rfl⟩
  obtain ⟨id, hid, hencryption⟩ := hidentified
    (request.cipher.isSome ∧ request.trailer.id = none) request.trailer _
  obtain ⟨id', hid', hfinal⟩ := hidentified
    ((b.encryptionTrailer request).id = none ∧ request.settings.addsId)
    (b.encryptionTrailer request)
    (hash.update (front request.settings placed)).finish
  have hsame : b.encryptionTrailer request = { request.trailer with id } :=
    hencryption
  refine ⟨id', ?_, ?_⟩
  · rcases hid' with h | h
    · rw [h, hsame]
      exact hid
    · exact Or.inr h
  · rw [closingTrailer, finalTrailer, hfinal, hsame]

/-- The section of a file whose objects are placed from an offset on. -/
def closingSection (b : Body) (request : Request)
    (placed : List PlacedObject) (offset : Nat) (hash : SipHash) :
    Except Error Bytes :=
  b.xrefSection request (b.closingTrailer request placed hash) placed
    (offset + (front request.settings placed).length)

/-- The part of a plan in front of the section. -/
def frontPlan (b : Body) (request : Request)
    (contents : List (Ref × Content)) (offset : Nat) : Plan where
  events := contents.flatMap (·.2.warnings)
    ++ b.announcements request.settings contents.length
  pieces := { bytes := request.settings.preamble }
    :: (place request.settings contents offset).map PlacedObject.piece

/-- The plan in front of the section has the bytes in front of the section. -/
theorem bytes_frontPlan (b : Body) (request : Request)
    (contents : List (Ref × Content)) (offset : Nat) :
    (b.frontPlan request contents offset).bytes
      = front request.settings (place request.settings contents offset) := by
  show request.settings.preamble
    ++ ((place request.settings contents offset).map
      PlacedObject.piece).flatMap Piece.bytes = _
  rw [List.flatMap_map]
  rfl

/-- A laid-out plan goes on with the section or ends with its error. -/
theorem layout_eq (b : Body) (request : Request)
    (contents : List (Ref × Content)) (offset : Nat) (hash : SipHash) :
    b.layout request (b.encryptionTrailer request) contents offset hash
      = match b.closingSection request
          (place request.settings contents offset) offset hash with
        | .ok bytes =>
            { b.frontPlan request contents offset with
              pieces := (b.frontPlan request contents offset).pieces
                ++ [{ bytes }] }
        | .error e =>
            { b.frontPlan request contents offset with ending := .error e } :=
  rfl

/-! ## Files -/

/-- All that writing a body can come to. -/
inductive Ends (b : Body) (request : Request) (w : Writer) :
    Outcome Writer Unit → Prop where
  /-- Nothing was written. -/
  | blocked {e : Error} {events : List Event} :
      b.Blocks e → Ends b request w ⟨.error e, w, events⟩
  /-- The sink has failed. -/
  | broken {cause : IoError} {w' : Writer} {events : List Event} :
      Ends b request w ⟨.error (.io cause), w', events⟩
  /-- All objects were written, but there is no section. -/
  | unfinished {contents : List (Ref × Content)} {e : Error} {w' : Writer}
      {events : List Event} :
      b.Encodes request contents →
      b.closingSection request (place request.settings contents w.offset)
        w.offset w.hash = .error e →
      w.Wrote (front request.settings
        (place request.settings contents w.offset)) w' →
      Ends b request w ⟨.error e, w', events⟩
  /-- The whole file was written. -/
  | finished {contents : List (Ref × Content)} {bytes : Bytes} {w' : Writer}
      {events : List Event} :
      b.Encodes request contents →
      b.closingSection request (place request.settings contents w.offset)
        w.offset w.hash = .ok bytes →
      w.Wrote (front request.settings
        (place request.settings contents w.offset) ++ bytes) w' →
      Ends b request w ⟨.ok (), w', events⟩

theorem ends_of_done {b : Body} {request : Request} {w : Writer}
    {bytes : Bytes} {ending : Except Error Unit} {o : Outcome Writer Unit}
    (hdone : w.Done bytes ending o)
    (h : ∀ w' events, w.Wrote bytes w'
      → Ends b request w ⟨ending, w', events⟩) :
    Ends b request w o := by
  obtain ⟨result, w', events⟩ := o
  rcases hdone with ⟨hresult, hwrote⟩ | ⟨cause, hresult⟩
  · rw [show result = ending from hresult]
    exact h w' events hwrote
  · rw [show result = .error (.io cause) from hresult]
    exact .broken

/-- **THERE ARE FOUR WAYS TO END**: nothing is written, the sink fails, the
    section is missing, or the file is complete. -/
theorem ends_write (b : Body) (request : Request) (w : Writer) :
    Ends b request w ((b.write request).run w) := by
  show Ends b request w
    ((Writer.perform (b.plan request w.offset w.hash)).run w)
  rcases plan_cases b request w.offset w.hash
    with ⟨events, e, hplan, he⟩ | ⟨contents, hencodes, hplan⟩
  · rw [hplan, Writer.run_perform_failing]
    exact .blocked he
  · rw [hplan, layout_eq]
    have hfront := bytes_frontPlan b request contents w.offset
    cases hsection : b.closingSection request
        (place request.settings contents w.offset) w.offset w.hash with
    | ok bytes =>
        refine ends_of_done (Writer.done_perform _ w) ?_
        intro w' events hwrote
        refine .finished hencodes hsection ?_
        rw [Plan.bytes, List.flatMap_append, List.flatMap_singleton] at hwrote
        rwa [← hfront]
    | error e =>
        refine ends_of_done (Writer.done_perform _ w) ?_
        intro w' events hwrote
        -- the planned ending is the error of the section
        refine .unfinished hencodes hsection ?_
        rwa [← hfront]

end Pdf.Body
