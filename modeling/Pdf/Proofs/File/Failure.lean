import Pdf.Proofs.File.Plan

/-! # Failed files — what is left in the sink

    A file can fail because of what the body holds and what the compressor
    refuses.  All of this is found out before the first byte, with a single
    exception: the data of a cross-reference stream holds the offsets of the
    objects, so it is compressed behind them, and when it is refused the
    objects are in the sink already.

    The error tells the two cases apart.  It names the object whose data was
    refused, and only the cross-reference stream has the next number. -/

namespace Pdf

/-- Whether an error is one of the content of a file or of its compressor. -/
def Error.isOfContent : Error → Bool
  | danglingReference _ _ => true
  | compressionFailed _ _ => true
  | numbersExhausted => true
  | _ => false

namespace Body

/-- The error says that the data of the cross-reference stream was refused. -/
def RefusesSection (b : Body) (e : Error) : Prop :=
  ∃ message, e = .compressionFailed (some b.nextRef) message

/-- What stops a body before its first byte is not about the section. -/
theorem Blocks.not_refusesSection {b : Body} {e : Error} (hb : b.Sound)
    (h : b.Blocks e) : ¬ b.RefusesSection e := by
  rintro ⟨message, he⟩
  cases h with
  | dangling target referrer => exact nomatch he
  | exhausted => exact nomatch he
  | refused message' hr =>
      -- the refused object is an item, and no item has the next number
      have href := Option.some.inj (Error.compressionFailed.inj he).1
      rw [href, hb.getElem?_nextRef] at hr
      exact nomatch hr

/-- A file that was begun is not empty. -/
theorem preamble_append_ne_nil (settings : Settings) (bytes : Bytes) :
    settings.preamble ++ bytes ≠ [] := by
  intro h
  have hnil := (List.append_eq_nil_iff.mp h).1
  exact nomatch (List.append_eq_nil_iff.mp (List.append_eq_nil_iff.mp
    (List.append_eq_nil_iff.mp hnil).1).1).1

/-- A writer is not the same behind a preamble. -/
theorem Wrote.ne {w w' : Writer} {bytes : Bytes} (h : w.Wrote bytes w')
    (hne : bytes ≠ []) : w' ≠ w := by
  intro he
  have hoffset := h.offset
  have hpos := List.length_pos_iff.mpr hne
  rw [he] at hoffset
  omega

/-- **FAILURES OF THE CONTENT LEAVE NO TRACE, BUT FOR ONE**: if a file fails
    because of its content or its compressor, the writer with its sink, its
    position and its digest is as it was, unless the data of the
    cross-reference stream was refused.  In that case the preamble and every
    object have been written. -/
theorem state_write_of_isOfContent {b : Body} (hb : b.Reachable)
    (request : Request) (w : Writer) {e : Error}
    (he : ((b.write request).run w).result = .error e)
    (hcontent : e.isOfContent = true) :
    (((b.write request).run w).state = w ↔ ¬ b.RefusesSection e)
      ∧ (b.RefusesSection e → request.settings.xrefAsStream = true
        ∧ ∃ contents, b.Encodes request contents
          ∧ w.Wrote (front request.settings
            (place request.settings contents w.offset))
            ((b.write request).run w).state) := by
  have hends := ends_write b request w
  generalize (b.write request).run w = o at he hends ⊢
  cases hends with
  | @blocked e' events hblocks =>
      have hsame : e' = e := Except.error.inj he
      rw [← hsame]
      have hnot := hblocks.not_refusesSection hb.sound
      exact ⟨⟨fun _ => hnot, fun _ => rfl⟩, fun h => absurd h hnot⟩
  | broken =>
      rw [← Except.error.inj he] at hcontent
      exact nomatch hcontent
  | @unfinished contents e' w' events hencodes hsection hwrote =>
      -- only the section is missing, so the error is the one of the section
      have hsame : e' = e := Except.error.inj he
      rw [hsame] at hsection
      have hne : w' ≠ w :=
        Wrote.ne hwrote (preamble_append_ne_nil _ _)
      rcases xrefSection_error hsection
        with ⟨hstream, hrefused⟩ | ⟨r, offset, rfl⟩
      · exact ⟨⟨fun h => absurd h hne, fun h => absurd hrefused h⟩,
          fun _ => ⟨hstream, contents, hencodes, hwrote⟩⟩
      · exact nomatch hcontent
  | finished => exact nomatch he

/-- A body that holds a catalog and nothing else. -/
def catalogOnly : Body :=
  Operation.after .empty (.add (.value (.dictionary (Dict.ofType
    (.key "Catalog")))))

/-- A file with a cross-reference stream that no compressor helps with. -/
def refusedRequest : Request where
  trailer := { root := ⟨1, 0⟩ }
  settings := { xrefAsStream := true, addsId := false }
  compressor _ := .error "refused"

theorem state_write_refusedRequest :
    ((catalogOnly.write refusedRequest).run {}).result
        = .error (.compressionFailed (some ⟨2, 0⟩) "refused")
      ∧ ∃ contents, catalogOnly.Encodes refusedRequest contents
        ∧ Writer.Wrote {} (front refusedRequest.settings
          (place refusedRequest.settings contents 0))
          ((catalogOnly.write refusedRequest).run {}).state := by
  have he : ((catalogOnly.write refusedRequest).run {}).result
      = .error (.compressionFailed (some ⟨2, 0⟩) "refused") := rfl
  exact ⟨he, ((state_write_of_isOfContent (.after _ .empty) refusedRequest {}
    he rfl).2 ⟨"refused", rfl⟩).2⟩

/-- The failure with bytes in the sink. -/
theorem write_refusedRequest_not_empty :
    catalogOnly.Reachable
      ∧ ((catalogOnly.write refusedRequest).run {}).result
        = .error (.compressionFailed (some ⟨2, 0⟩) "refused")
      ∧ ((catalogOnly.write refusedRequest).run {}).state.offset = 55
      ∧ ((catalogOnly.write refusedRequest).run {}).state.sink.content
        ≠ [] := by
  refine ⟨.after _ .empty, rfl, ?_, ?_⟩
  · decide +kernel
  · decide +kernel

end Body

end Pdf
