import Pdf.Output.Writer
import Pdf.Proofs.Action.Sequence

/-! # Performance — what a writer has done when it is done

    A sink may take a string in any number of parts, or fail in the middle of
    it.  What a writer promises does not depend on that: if a write succeeds,
    the whole string stands behind what was there before, and the position and
    the digest have moved over exactly that string (`Wrote`).  If it fails, the
    failure is the one of the sink.

    A plan is performed piece by piece, so a performed plan has written all of
    its bytes, and its result is the ending that it planned. -/

namespace Pdf

/-- The device takes something of every offer. -/
def Device.NeverFails (d : Device) : Prop :=
  ∀ calls received offered, 0 < offered →
    ∃ count, d.reply calls received offered = .took (count + 1)

theorem Device.neverFails_unlimited : Device.unlimited.NeverFails := by
  intro calls received offered hpos
  obtain ⟨count, rfl⟩ := Nat.exists_eq_add_one.mpr hpos
  exact ⟨count, rfl⟩

namespace Sink

/-- A string that a sink has taken stands behind what it held before. -/
theorem content_offer {turns : Nat} {bytes : Bytes} {s : Sink}
    (hlen : bytes.length ≤ turns) (h : (offer turns bytes s).1 = .ok ()) :
    (offer turns bytes s).2.content = s.content ++ bytes := by
  induction turns generalizing bytes s with
  | zero =>
      have hnil : bytes = [] := List.eq_nil_of_length_eq_zero (by omega)
      rw [hnil, List.append_nil]
      rfl
  | succ turns ih =>
      rw [offer] at h ⊢
      by_cases hempty : bytes.isEmpty = true
      · rw [if_pos hempty, List.isEmpty_iff.mp hempty, List.append_nil]
      · rw [if_neg hempty] at h ⊢
        generalize s.device.reply s.calls s.received.size bytes.length
          = reply at h ⊢
        match reply with
        | .refused cause => exact nomatch h
        | .took 0 => exact nomatch h
        | .took (n + 1) =>
            -- something was taken, so what is left fits the turns left
            have hdrop : (bytes.drop (n + 1)).length ≤ turns := by
              rw [List.length_drop]
              omega
            refine (ih hdrop h).trans ?_
            show (s.received ++ bytes.take (n + 1)).toList
              ++ bytes.drop (n + 1) = s.received.toList ++ bytes
            rw [Array.toList_appendList, List.append_assoc,
              List.take_append_drop]

/-- What was written without an error is behind what was there. -/
theorem content_writeAll {bytes : Bytes} {s : Sink}
    (h : (s.writeAll bytes).1 = .ok ()) :
    (s.writeAll bytes).2.content = s.content ++ bytes :=
  content_offer (Nat.le_refl _) h

/-- A string is taken if every offer of it has some success. -/
theorem offer_of_neverFails (turns : Nat) (bytes : Bytes) {s : Sink}
    (h : s.device.NeverFails) : (offer turns bytes s).1 = .ok () := by
  induction turns generalizing bytes s with
  | zero => rfl
  | succ turns ih =>
      rw [offer]
      by_cases hempty : bytes.isEmpty = true
      · rw [if_pos hempty]
      · rw [if_neg hempty]
        have hpos : 0 < bytes.length := by
          rw [List.length_pos_iff]
          intro hnil
          exact hempty (List.isEmpty_iff.mpr hnil)
        obtain ⟨count, hreply⟩ :=
          h s.calls s.received.size bytes.length hpos
        rw [hreply]
        exact ih _ h

end Sink

namespace Writer

/-! ## Written strings -/

/-- Between two states of a writer exactly one string was written. -/
structure Wrote (w : Writer) (bytes : Bytes) (w' : Writer) : Prop where
  content : w'.sink.content = w.sink.content ++ bytes
  offset : w'.offset = w.offset + bytes.length
  hash : w'.hash = w.hash.update bytes

theorem wrote_nil (w : Writer) : Wrote w [] w :=
  ⟨(List.append_nil _).symm, rfl, rfl⟩

/-- Two strings in a row are one string. -/
theorem Wrote.append {w w' w'' : Writer} {a b : Bytes} (ha : Wrote w a w')
    (hb : Wrote w' b w'') : Wrote w (a ++ b) w'' := by
  refine ⟨?_, ?_, ?_⟩
  · rw [hb.content, ha.content, List.append_assoc]
  · rw [hb.offset, ha.offset, List.length_append, Nat.add_assoc]
  · rw [hb.hash, ha.hash, SipHash.update_append]

/-- The position of the writer is the number of bytes in its sink. -/
def Counted (w : Writer) : Prop := w.offset = w.sink.content.length

/-- A writer counts from its first byte on. -/
theorem counted_fresh (device : Device) :
    Counted { sink := { device } } := rfl

/-- A writer that counts goes on to do so as long as nothing fails. -/
theorem Wrote.counted {w w' : Writer} {bytes : Bytes}
    (h : Wrote w bytes w') (hw : w.Counted) : w'.Counted := by
  rw [Counted, h.offset, h.content, List.length_append, hw]

/-! ## Plans -/

theorem eq_ok_of_isOk {result : Except Error Unit}
    (h : result.isOk = true) : result = .ok () := by
  cases result with
  | ok _ => rfl
  | error e => exact nomatch h

/-- Either the bytes were written and the result is the planned one, or the
    sink has failed. -/
def Done (w : Writer) (bytes : Bytes) (ending : Except Error Unit)
    (o : Outcome Writer Unit) : Prop :=
  (o.result = ending ∧ Wrote w bytes o.state)
    ∨ ∃ cause, o.result = .error (.io cause)

/-- Bytes are written, or the device has failed. -/
theorem done_write (bytes : Bytes) (w : Writer) :
    Done w bytes (.ok ()) ((write bytes).run w) := by
  show Done w bytes (.ok ()) (write bytes w)
  rw [write]
  have hcontent := @Sink.content_writeAll bytes w.sink
  generalize w.sink.writeAll bytes = answer at hcontent ⊢
  match answer with
  | (.ok (), sink) => exact Or.inl ⟨rfl, hcontent rfl, rfl, rfl⟩
  | (.error cause, sink) => exact Or.inr ⟨cause, rfl⟩

/-- Over a sink that never fails, a string is written. -/
theorem run_write_of_neverFails (bytes : Bytes) {w : Writer}
    (h : w.sink.device.NeverFails) :
    ((write bytes).run w).result = .ok ()
      ∧ w.Wrote bytes ((write bytes).run w).state := by
  have hok : ((write bytes).run w).result = .ok () := by
    show (write bytes w).result = .ok ()
    have htaken : (w.sink.writeAll bytes).1 = .ok () :=
      Sink.offer_of_neverFails bytes.length bytes h
    rw [write]
    generalize w.sink.writeAll bytes = answer at htaken ⊢
    obtain ⟨taken, sink⟩ := answer
    rw [show taken = .ok () from htaken]
  rcases done_write bytes w with ⟨-, hwrote⟩ | ⟨cause, he⟩
  · exact ⟨hok, hwrote⟩
  · rw [hok] at he
    cases he

/-- A piece is written, or the device has failed. -/
theorem done_writePiece (p : Piece) (w : Writer) :
    Done w p.bytes (.ok ()) ((writePiece p).run w) := by
  rw [writePiece, Action.run_bind_ok _ (Action.run_tell p.events w)]
  exact done_write p.bytes w

/-- Pieces are written one behind the other, or the device has failed. -/
theorem done_forM (pieces : List Piece) (w : Writer) :
    Done w (pieces.flatMap Piece.bytes) (.ok ())
      ((pieces.forM writePiece).run w) := by
  induction pieces generalizing w with
  | nil => exact Or.inl ⟨rfl, wrote_nil w⟩
  | cons p pieces ih =>
      show Done w (p.bytes ++ pieces.flatMap Piece.bytes) (.ok ())
        ((writePiece p >>= fun _ => pieces.forM writePiece).run w)
      rcases done_writePiece p w with ⟨hok, hp⟩ | ⟨cause, he⟩
      · rw [Action.run_bind_of_ok _ hok]
        rcases ih _ with ⟨hrest, hpieces⟩ | ⟨cause, he⟩
        · exact Or.inl ⟨hrest, hp.append hpieces⟩
        · exact Or.inr ⟨cause, he⟩
      · rw [Action.run_bind_of_error _ he]
        exact Or.inr ⟨cause, rfl⟩

/-- **PLANS ARE CARRIED OUT**: a performed plan has written its bytes and ends
    as planned, unless the sink has failed. -/
theorem done_perform (p : Plan) (w : Writer) :
    Done w p.bytes p.ending ((perform p).run w) := by
  rw [perform, Action.run_bind_ok _ (Action.run_tell p.events w)]
  rcases done_forM p.pieces w with ⟨hok, hp⟩ | ⟨cause, he⟩
  · rw [Action.run_bind_of_ok _ hok]
    -- the planned ending comes behind the bytes and writes nothing
    refine Or.inl ⟨?_, ?_⟩
    · cases p.ending with
      | ok _ => rfl
      | error e => rfl
    · cases p.ending with
      | ok _ => exact hp
      | error e => exact hp
  · rw [Action.run_bind_of_error _ he]
    exact Or.inr ⟨cause, rfl⟩

/-- A plan that fails before its first byte leaves the writer as it is. -/
theorem run_perform_failing (events : List Event) (e : Error) (w : Writer) :
    (perform (.failing events e)).run w = ⟨.error e, w, events⟩ := by
  rw [perform, Action.run_bind_ok _ (Action.run_tell _ w)]
  show (⟨.error e, w, events ++ ([] ++ [])⟩ : Outcome Writer Unit) = _
  rw [List.append_nil, List.append_nil]

/-- Flushing writes nothing, and fails only if the sink does. -/
theorem run_flush_cases (w : Writer) :
    (flush.run w).state = w
      ∧ ((flush.run w).result = .ok ()
        ∨ ∃ cause, (flush.run w).result = .error (.io cause)) := by
  show (flush w).state = w ∧ ((flush w).result = .ok ()
    ∨ ∃ cause, (flush w).result = .error (.io cause))
  rw [flush]
  cases w.sink.device.flushFailure with
  | none => exact ⟨rfl, Or.inl rfl⟩
  | some cause => exact ⟨rfl, Or.inr ⟨cause, rfl⟩⟩

end Writer

end Pdf
