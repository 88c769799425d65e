import Pdf.File.Layout
import Pdf.Proofs.Body.Reachable
import Pdf.Proofs.Output.Performance

/-! # Truncation — what a sink holds that stops in the middle of a file

    A sink may take so many bytes and no more, in parts of any size
    (`TakesUpTo`).  What it has received is then as much of the file as it
    takes, because the bytes of a file are planned before the first of them is
    offered and a failed write is the last one.

    The writer does not count the part of a string that was taken before the
    failure.  It counts the pieces of the plan that were written completely
    (`StopsAt`), so it is never ahead of its sink. -/

namespace Pdf

/-- The device takes so many bytes in all, in parts of any size, and none
    behind them. -/
structure Device.TakesUpTo (d : Device) (limit : Nat) : Prop where
  takes : ∀ calls received offered, received < limit → 0 < offered →
    ∃ count, d.reply calls received offered = .took count ∧ 0 < count
      ∧ count ≤ offered ∧ received + count ≤ limit
  stops : ∀ calls received offered, limit ≤ received → 0 < offered →
    d.reply calls received offered = .took 0
      ∨ ∃ cause, d.reply calls received offered = .refused cause

namespace Sink

variable {s : Sink} {limit : Nat}

/-- What a sink that takes so many bytes makes of a string. -/
structure Receives (limit : Nat) (s : Sink) (bytes : Bytes)
    (answer : Except IoError Unit × Sink) : Prop where
  device : answer.2.device = s.device
  content : answer.2.content = (s.content ++ bytes).take limit
  ok_iff : answer.1 = .ok () ↔ s.content.length + bytes.length ≤ limit

/-- A sink counts the bytes that it has received. -/
theorem length_content (s : Sink) : s.content.length = s.received.size :=
  Array.length_toList

/-- What a sink takes stands behind what it had. -/
theorem content_append (s : Sink) (calls : Nat) (bytes : Bytes) :
    content { s with calls, received := s.received ++ bytes }
      = s.content ++ bytes :=
  Array.toList_appendList

/-- The empty string is always taken. -/
theorem receives_nil (h : s.content.length ≤ limit) :
    Receives limit s [] (.ok (), s) := by
  refine ⟨rfl, ?_, ?_⟩
  · rw [List.append_nil, List.take_of_length_le h]
  · exact iff_of_true rfl h

/-- A sink that is full takes nothing. -/
theorem receives_full {bytes : Bytes} {cause : IoError} (calls : Nat)
    (h : s.content.length = limit) (hbytes : 0 < bytes.length) :
    Receives limit s bytes (.error cause, { s with calls }) := by
  refine ⟨rfl, ?_, ?_⟩
  · rw [← h, List.take_left]
    rfl
  · constructor
    · intro he
      cases he
    · omega

/-- Something is taken, and then the rest is offered. -/
theorem Receives.after {bytes : Bytes} {count calls : Nat}
    {answer : Except IoError Unit × Sink} (hcount : count ≤ bytes.length)
    (h : Receives limit
      { s with calls, received := s.received ++ bytes.take count }
      (bytes.drop count) answer) :
    Receives limit s bytes answer := by
  obtain ⟨hdevice, htaken, hok⟩ := h
  rw [content_append] at htaken hok
  refine ⟨hdevice, ?_, ?_⟩
  · rw [htaken, List.append_assoc, List.take_append_drop]
  · rw [hok, List.length_append, List.length_take, List.length_drop]
    omega

/-- Whatever the parts are that it takes, a sink ends up with as much of a
    string as there is room for. -/
theorem receives_offer {turns : Nat} {bytes : Bytes}
    (hd : s.device.TakesUpTo limit) (hs : s.content.length ≤ limit)
    (hturns : bytes.length ≤ turns) :
    Receives limit s bytes (offer turns bytes s) := by
  induction turns generalizing bytes s with
  | zero =>
      rw [List.eq_nil_of_length_eq_zero (Nat.le_zero.mp hturns)]
      exact receives_nil hs
  | succ turns ih =>
      rw [offer]
      by_cases hempty : bytes.isEmpty = true
      · rw [if_pos hempty, List.isEmpty_iff.mp hempty]
        exact receives_nil hs
      · rw [if_neg hempty]
        have hpos : 0 < bytes.length := by
          rw [List.length_pos_iff]
          exact fun he => hempty (List.isEmpty_iff.mpr he)
        rw [← length_content]
        rcases Nat.lt_or_ge s.content.length limit with hroom | hfull
        · obtain ⟨count, hreply, hcount, hoffered, hfits⟩ :=
            hd.takes s.calls s.content.length bytes.length hroom hpos
          obtain ⟨n, rfl⟩ := Nat.exists_eq_add_one.mpr hcount
          rw [hreply]
          refine Receives.after hoffered (ih hd ?_ ?_)
          · rw [content_append, List.length_append, List.length_take]
            omega
          · rw [List.length_drop]
            omega
        · have hlength : s.content.length = limit := Nat.le_antisymm hs hfull
          rcases hd.stops s.calls s.content.length bytes.length hfull hpos
            with hreply | ⟨cause, hreply⟩
          · rw [hreply]
            exact receives_full _ hlength hpos
          · rw [hreply]
            exact receives_full _ hlength hpos

end Sink

namespace Writer

variable {limit : Nat} {w : Writer}

/-! ## Pieces -/

/-- The writer has written some pieces completely and has failed at another
    one, and it has counted those that it has written. -/
structure StopsAt (w : Writer) (done : List Piece) (p : Piece)
    (result : Except Error Unit) (w' : Writer) : Prop where
  written : ((done.forM writePiece).run w).result = .ok ()
  failed : ((writePiece p).run ((done.forM writePiece).run w).state).result
    = result
  state : ((writePiece p).run ((done.forM writePiece).run w).state).state = w'
  offset : w'.offset = w.offset + (done.flatMap Piece.bytes).length

/-- What comes of some pieces over a sink that takes so many bytes. -/
inductive Cut (limit : Nat) (w : Writer) (pieces : List Piece)
    (result : Except Error Unit) (w' : Writer) : Prop where
  /-- There was room for all of them. -/
  | whole : w.sink.content.length + (pieces.flatMap Piece.bytes).length
        ≤ limit →
      result = .ok () → w.Wrote (pieces.flatMap Piece.bytes) w' →
      w'.sink.device = w.sink.device → Cut limit w pieces result w'
  /-- The sink has stopped at one of them. -/
  | part {cause : IoError} {done rest : List Piece} {p : Piece} :
      limit < w.sink.content.length
        + (pieces.flatMap Piece.bytes).length →
      result = .error (.io cause) →
      w'.sink.content
        = (w.sink.content ++ pieces.flatMap Piece.bytes).take limit →
      pieces = done ++ p :: rest → w.StopsAt done p result w' →
      Cut limit w pieces result w'

/-- A string is written if it fits, and is not counted if it does not. -/
theorem write_cases (bytes : Bytes) (hd : w.sink.device.TakesUpTo limit)
    (hw : w.sink.content.length ≤ limit) :
    (w.sink.content.length + bytes.length ≤ limit
        ∧ ((write bytes).run w).result = .ok ()
        ∧ w.Wrote bytes ((write bytes).run w).state
        ∧ ((write bytes).run w).state.sink.device = w.sink.device)
      ∨ (limit < w.sink.content.length + bytes.length
        ∧ (∃ cause, ((write bytes).run w).result = .error (.io cause))
        ∧ ((write bytes).run w).state.sink.content
          = (w.sink.content ++ bytes).take limit
        ∧ ((write bytes).run w).state.offset = w.offset) := by
  have hreceives : Sink.Receives limit w.sink bytes (w.sink.writeAll bytes) :=
    Sink.receives_offer hd hw (Nat.le_refl _)
  show _ ∧ (write bytes w).result = _ ∧ _ ∨ _
  rw [Action.run, write]
  generalize w.sink.writeAll bytes = answer at hreceives ⊢
  obtain ⟨hdevice, hcontent, hok⟩ := hreceives
  obtain ⟨result, sink⟩ := answer
  cases result with
  | ok _ =>
      have hfits := hok.mp rfl
      refine Or.inl ⟨hfits, rfl, ⟨?_, rfl, rfl⟩, hdevice⟩
      rw [← List.length_append] at hfits
      exact hcontent.trans (List.take_of_length_le hfits)
  | error cause =>
      have hnot : ¬ w.sink.content.length + bytes.length ≤ limit := by
        intro hfits
        cases hok.mpr hfits
      exact Or.inr ⟨Nat.lt_of_not_le hnot, ⟨cause, rfl⟩, hcontent, rfl⟩

/-- Telling events before a piece does not change how it is written. -/
theorem run_writePiece (p : Piece) (w : Writer) :
    ((writePiece p).run w).result = ((write p.bytes).run w).result
      ∧ ((writePiece p).run w).state = ((write p.bytes).run w).state := by
  rw [writePiece, Action.run_bind_ok _ (Action.run_tell p.events w)]
  exact ⟨rfl, rfl⟩

theorem run_forM_cons (p : Piece) (pieces : List Piece) (w : Writer) :
    ((p :: pieces).forM writePiece).run w
      = (writePiece p >>= fun _ => pieces.forM writePiece).run w := rfl

/-- A piece in front that was written takes no part in a later failure. -/
theorem StopsAt.cons {w' w'' : Writer} {done : List Piece} {p q : Piece}
    {result : Except Error Unit}
    (hq : ((writePiece q).run w).result = .ok ())
    (hstate : ((writePiece q).run w).state = w')
    (hoffset : w'.offset = w.offset + q.bytes.length)
    (h : w'.StopsAt done p result w'') :
    w.StopsAt (q :: done) p result w'' := by
  have hrun : (((q :: done).forM writePiece).run w).result
        = ((done.forM writePiece).run w').result
      ∧ (((q :: done).forM writePiece).run w).state
        = ((done.forM writePiece).run w').state := by
    rw [run_forM_cons, Action.run_bind_of_ok _ hq, hstate]
    exact ⟨rfl, rfl⟩
  refine ⟨?_, ?_, ?_, ?_⟩
  · rw [hrun.1]
    exact h.written
  · rw [hrun.2]
    exact h.failed
  · rw [hrun.2]
    exact h.state
  · rw [h.offset, hoffset, List.flatMap_cons, List.length_append,
      Nat.add_assoc]

theorem cut_forM (pieces : List Piece) (hd : w.sink.device.TakesUpTo limit)
    (hw : w.sink.content.length ≤ limit) :
    Cut limit w pieces ((pieces.forM writePiece).run w).result
      ((pieces.forM writePiece).run w).state := by
  induction pieces generalizing w with
  | nil => exact .whole hw rfl (wrote_nil w) rfl
  | cons p pieces ih =>
      obtain ⟨hresult, hstate⟩ := run_writePiece p w
      have hbytes : (p :: pieces).flatMap Piece.bytes
          = p.bytes ++ pieces.flatMap Piece.bytes := List.flatMap_cons
      rcases write_cases p.bytes hd hw
        with ⟨hfits, hok, hwrote, hdevice⟩
        | ⟨hlarge, ⟨cause, he⟩, hcontent, hoffset⟩
      · have hp : ((writePiece p).run w).result = .ok () := hresult.trans hok
        rw [run_forM_cons, Action.run_bind_of_ok _ hp, hstate]
        have hlength : ((write p.bytes).run w).state.sink.content.length
            = w.sink.content.length + p.bytes.length := by
          rw [hwrote.content, List.length_append]
        rw [← hdevice] at hd
        cases ih hd (Nat.le_trans (Nat.le_of_eq hlength) hfits) with
        | whole hrest hok' hwrote' hdevice' =>
            refine .whole ?_ hok' ?_ (hdevice'.trans hdevice)
            · rw [hbytes, List.length_append]
              omega
            · rw [hbytes]
              exact hwrote.append hwrote'
        | @part cause done rest q hrest he' hcontent' hpieces hstops =>
            have hlist : p :: pieces = p :: done ++ q :: rest :=
              congrArg (p :: ·) hpieces
            refine .part ?_ he' ?_ hlist (hstops.cons hp hstate hwrote.offset)
            · rw [hbytes, List.length_append]
              omega
            · rw [hcontent', hwrote.content, hbytes, List.append_assoc]
      · have hp : ((writePiece p).run w).result = .error (.io cause) :=
          hresult.trans he
        rw [run_forM_cons, Action.run_bind_of_error _ hp, hstate]
        have hlong : limit ≤ (w.sink.content ++ p.bytes).length := by
          rw [List.length_append]
          omega
        have hlist : p :: pieces = [] ++ p :: pieces := rfl
        refine .part ?_ rfl ?_ hlist ⟨rfl, hp, hstate, hoffset⟩
        · rw [hbytes, List.length_append]
          omega
        · rw [hcontent, hbytes, ← List.append_assoc,
            List.take_append_of_le_length hlong]

/-- There was room for the pieces that were written. -/
theorem StopsAt.fits {w' : Writer} {done : List Piece} {p : Piece}
    {result : Except Error Unit} (h : w.StopsAt done p result w')
    (hd : w.sink.device.TakesUpTo limit)
    (hw : w.sink.content.length ≤ limit) :
    w.sink.content.length + (done.flatMap Piece.bytes).length ≤ limit := by
  cases cut_forM done hd hw with
  | whole hfits _ _ _ => exact hfits
  | part _ he _ _ _ => cases h.written.symm.trans he

/-! ## Plans -/

/-- A plan that ends well comes to what its pieces come to. -/
theorem run_perform_ok {p : Plan} (h : p.ending = .ok ()) (w : Writer) :
    ((perform p).run w).result = ((p.pieces.forM writePiece).run w).result
      ∧ ((perform p).run w).state
        = ((p.pieces.forM writePiece).run w).state := by
  rw [perform, Action.run_bind_ok _ (Action.run_tell p.events w), h]
  cases hresult : ((p.pieces.forM writePiece).run w).result with
  | ok _ =>
      rw [Action.run_bind_of_ok _ hresult]
      exact ⟨rfl, rfl⟩
  | error e =>
      rw [Action.run_bind_of_error _ hresult]
      exact ⟨rfl, rfl⟩

theorem cut_perform {p : Plan} (h : p.ending = .ok ())
    (hd : w.sink.device.TakesUpTo limit)
    (hw : w.sink.content.length ≤ limit) :
    Cut limit w p.pieces ((perform p).run w).result
      ((perform p).run w).state := by
  obtain ⟨hresult, hstate⟩ := run_perform_ok h w
  rw [hresult, hstate]
  exact cut_forM p.pieces hd hw

end Writer

namespace Body

/-- A file that was written has a plan that ends well, and holds its bytes. -/
theorem plan_of_write {b : Body} {request : Request} {w : Writer}
    (h : ((b.write request).run w).result = .ok ()) :
    (b.plan request w.offset w.hash).ending = .ok ()
      ∧ w.Wrote (b.plan request w.offset w.hash).bytes
        ((b.write request).run w).state := by
  have hrun : (b.write request).run w
      = (Writer.perform (b.plan request w.offset w.hash)).run w := rfl
  rw [hrun] at h ⊢
  rcases Writer.done_perform (b.plan request w.offset w.hash) w
    with ⟨hending, hwrote⟩ | ⟨cause, he⟩
  · exact ⟨hending.symm.trans h, hwrote⟩
  · rw [he] at h
    cases h

/-- **A SINK THAT STOPS HOLDS THE BEGINNING OF THE FILE**: if a body can be
    written over some sink, then a sink that takes so many bytes receives as
    many bytes of the same file.  Writing succeeds if there is room for all of
    them, and otherwise the failure is the one of the sink; then the position
    of the writer is the length of the pieces that were written completely, and
    so at most that of what the sink has received. -/
theorem write_takesUpTo {b : Body} {request : Request}
    {unlimited limited : Device} {limit : Nat} {file : Bytes}
    (hwhole : ((b.write request).run
      { sink := { device := unlimited } }).result = .ok ())
    (hfile : ((b.write request).run
      { sink := { device := unlimited } }).state.sink.content = file)
    (hd : limited.TakesUpTo limit) :
    let w : Writer := { sink := { device := limited } }
    let o := (b.write request).run w
    o.state.sink.content = file.take limit
      ∧ (o.result = .ok () ↔ file.length ≤ limit)
      ∧ (limit < file.length → (∃ cause, o.result = .error (.io cause))
        ∧ ∃ done p rest,
          (b.plan request 0 .empty).pieces = done ++ p :: rest
            ∧ w.StopsAt done p o.result o.state
            ∧ o.state.offset ≤ o.state.sink.content.length) := by
  intro w o
  obtain ⟨hending, hwrote⟩ := plan_of_write hwhole
  -- both writers start at no offset, so the plan is the same
  have hbytes : (b.plan request 0 .empty).pieces.flatMap Piece.bytes = file :=
    hwrote.content.symm.trans hfile
  have hcut : Writer.Cut limit w (b.plan request 0 .empty).pieces o.result
      o.state := Writer.cut_perform hending hd (Nat.zero_le _)
  have hfresh : w.sink.content = [] := rfl
  cases hcut with
  | whole hfits hok hwrote' hdevice =>
      rw [hbytes, hfresh, List.length_nil, Nat.zero_add] at hfits
      refine ⟨?_, iff_of_true hok hfits, fun hlarge => ?_⟩
      · rw [List.take_of_length_le hfits]
        exact hwrote'.content.trans hbytes
      · omega
  | @part cause done rest p hlarge he hcontent hpieces hstops =>
      rw [hbytes, hfresh, List.length_nil, Nat.zero_add] at hlarge
      rw [hbytes, hfresh, List.nil_append] at hcontent
      refine ⟨hcontent, iff_of_false ?_ (Nat.not_le_of_lt hlarge), fun _ =>
        ⟨⟨cause, he⟩, done, p, rest, hpieces, hstops, ?_⟩⟩
      · intro hok
        cases hok.symm.trans he
      · have hfits := hstops.fits hd (Nat.zero_le _)
        have hoffset : o.state.offset = 0 + (done.flatMap Piece.bytes).length :=
          hstops.offset
        rw [hfresh, List.length_nil] at hfits
        rw [hoffset, hcontent, List.length_take]
        omega

/-- A device that takes at most seven bytes at once, and a hundred in all. -/
def sampleDevice : Device where
  reply _ received offered :=
    if received < 100 then .took (min offered (min 7 (100 - received)))
    else .refused ⟨.other, "disk full"⟩

/-- The sample device stops after its hundred bytes, seven at a time. -/
theorem takesUpTo_sampleDevice : sampleDevice.TakesUpTo 100 := by
  refine ⟨?_, ?_⟩
  · intro calls received offered hroom hoffered
    exact ⟨_, if_pos hroom, by omega, by omega, by omega⟩
  · intro calls received offered hfull hoffered
    exact Or.inr ⟨_, if_neg (Nat.not_lt_of_le hfull)⟩

/-- A request for the small body, which takes more than a hundred bytes. -/
def sampleRequest : Request where
  trailer := { root := ⟨1, 0⟩ }
  settings := { addsId := false }
  compressor data := .ok data

theorem write_sampleDevice :
    ((sample.write sampleRequest).run
        { sink := { device := .unlimited } }).result = .ok ()
      ∧ sampleDevice.TakesUpTo 100
      ∧ (∃ cause, ((sample.write sampleRequest).run
        { sink := { device := sampleDevice } }).result = .error (.io cause))
      ∧ ((sample.write sampleRequest).run
        { sink := { device := sampleDevice } }).state.sink.content.length
        = 100 := by
  have hok : ((sample.write sampleRequest).run
      { sink := { device := .unlimited } }).result = .ok () :=
    Writer.eq_ok_of_isOk (by decide +kernel)
  have hlarge : 100 < ((sample.write sampleRequest).run
      { sink := { device := .unlimited } }).state.sink.content.length := by
    decide +kernel
  obtain ⟨hcontent, -, hstops⟩ :=
    write_takesUpTo hok rfl takesUpTo_sampleDevice
  refine ⟨hok, takesUpTo_sampleDevice, (hstops hlarge).1, ?_⟩
  rw [hcontent, List.length_take]
  exact Nat.min_eq_left (Nat.le_of_lt hlarge)

end Body

end Pdf
