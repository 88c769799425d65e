import Pdf.Proofs.Xref.Records
import Pdf.Proofs.Xref.Rows

/-! # Packing — how wide the rows of a stream are

    A cross-reference stream describes itself: its dictionary says how many
    bytes each field of a row has and how many rows there are, and a reader has
    nothing else to cut the data by.  The second field is as wide as its largest
    value demands and no wider, so the width changes at the powers of 256.

    Whatever the width is, all rows have the same length, so cutting the data
    by it gives them back with nothing left over, and each row alone is read as
    its entry (`Packs`). -/

namespace Pdf.Xref

open Syntax

/-! ## The width of the second field -/

/-- A maximum of small numbers is small. -/
theorem foldl_max_lt {ns : List Nat} {start bound : Nat}
    (hstart : start < bound) (h : ∀ n ∈ ns, n < bound) :
    ns.foldl max start < bound := by
  induction ns generalizing start with
  | nil => exact hstart
  | cons n ns ih =>
      obtain ⟨hn, hrest⟩ := List.forall_mem_cons.mp h
      exact ih (Nat.max_lt.mpr ⟨hstart, hn⟩) hrest

/-- The width is the least one that holds the second field of every entry. -/
theorem offsetWidth_le_iff {entries : List Entry} {width : Nat}
    (hwidth : 1 ≤ width) :
    offsetWidth entries ≤ width
      ↔ ∀ e ∈ entries, e.fields.2.1 < 256 ^ width := by
  constructor
  · intro hle e he
    exact Nat.lt_of_lt_of_le (lt_pow_offsetWidth he)
      (Nat.pow_le_pow_right (by decide) hle)
  · intro h
    refine Bytes.byteWidth_le hwidth (foldl_max_lt ?_ ?_)
    · exact Nat.pow_pos (by decide)
    · intro n hn
      obtain ⟨e, he, rfl⟩ := List.mem_map.mp hn
      exact h e he

theorem one_le_offsetWidth (entries : List Entry) :
    1 ≤ offsetWidth entries :=
  Nat.succ_le_succ (Nat.zero_le _)

/-! ## Rows -/

/-- Each row alone is read as its entry. -/
theorem map_row?_row (entries : List Entry) :
    (entries.map (Entry.row (offsetWidth entries))).map
        (row? 1 (offsetWidth entries) 2) = entries.map some := by
  rw [List.map_map]
  refine List.map_congr_left ?_
  intro e he
  have hread := row?_append [] (lt_pow_offsetWidth he)
  rwa [List.append_nil] at hread

/-- A stream whose data is rows of one width, which are read as some entries. -/
structure Packs (inflate : Inflater) (entries : List Entry) (s : StreamData)
    (width : Nat) (rows : List Bytes) : Prop where
  widths : s.dict.get? (.key "W") = some (.integers [1, width, 2])
  range : s.dict.get? (.key "Index") = some (.integers [0, rows.length])
  size : s.dict.get? (.key "Size") = some (.integer rows.length)
  /-- Undoing the listed filters leaves the rows and no other byte. -/
  data : (s.dict.filterList.mapM Filter.named?).bind
    (fun filters => Filter.undoAll? inflate filters s.data)
      = some rows.flatten
  length : ∀ row ∈ rows, row.length = 1 + width + 2
  read : rows.map (row? 1 width 2) = entries.map some
  positive : 1 ≤ width
  least : ∀ width', 1 ≤ width' →
    (width ≤ width' ↔ ∀ e ∈ entries, e.fields.2.1 < 256 ^ width')

/-- The stream of some entries packs them. -/
theorem packs_behind {inflate : Inflater} {entries : List Entry} {t : Trailer}
    {f : Filtered}
    (h : Filter.undoAll? inflate f.filters f.data
      = some (packedRows entries)) :
    Packs inflate entries (f.behind (streamDict entries t))
      (offsetWidth entries)
      (entries.map (Entry.row (offsetWidth entries))) := by
  have hlength : (entries.map (Entry.row (offsetWidth entries))).length
      = entries.length := List.length_map _
  have hheads : Heads entries t (f.behind (streamDict entries t)).dict :=
    .stream f
  refine ⟨?_, ?_, ?_, ?_, ?_, map_row?_row entries,
    one_le_offsetWidth entries, ?_⟩
  · rw [f.get?_behind (by decide) (by decide), get?_streamDict_w]
    rfl
  · rw [f.get?_behind (by decide) (by decide), get?_streamDict_index, hlength]
    rfl
  · rw [hlength]
    exact hheads.carries _ _ (t.get?_dict_size _)
  · rw [mapM_named?_behind, ← List.flatMap_def]
    exact h
  · intro row hrow
    obtain ⟨e, -, rfl⟩ := List.mem_map.mp hrow
    exact length_row _ e
  · intro width hwidth
    exact offsetWidth_le_iff hwidth

/-- **CROSS-REFERENCE STREAMS UNPACK TO THEIR ENTRIES**: over a sink that never
    fails, the section is written unless the compressor refuses its rows.  Then
    it is a numbered stream whose data, once its filters are undone, is the
    rows of the entries that come of noting the place of the stream itself, and
    the number behind `startxref` is that place. -/
theorem write_stream {settings : Settings} {compressor : Compressor}
    {inflate : Inflater} (places : Places) (own : Ref) (t : Trailer)
    {w : Writer} (hsink : w.sink.device.NeverFails)
    (hinflate : Inverts inflate compressor) :
    let o := (write (stream settings compressor places own t)).run w
    let entries := (places.record own w.offset).entries
    (o.result = .ok ()
        ↔ ∃ packed, compressor (packedRows entries) = .ok packed)
      ∧ (o.result = .ok () → ∃ bytes s width rows, w.Wrote bytes o.state
        ∧ numbered? bytes = some (own, .stream s)
        ∧ start? bytes = some w.offset
        ∧ Packs inflate entries s width rows) := by
  intro o entries
  have hrun : o = _ :=
    run_write (stream settings compressor places own t) w
  rw [stream_eq] at hrun
  cases hpacked : compressor (packedRows entries) with
  | error message =>
      have ho : o
          = ⟨.error (.compressionFailed (some own) message), w, []⟩ := by
        rw [hrun, hpacked]
      rw [ho]
      refine ⟨iff_of_false ?_ ?_, ?_⟩
      · intro h
        cases h
      · rintro ⟨packed, h⟩
        cases h
      · intro h
        cases h
  | ok packed =>
      let s := (Filtered.armored settings.asciiOnly ⟨packed, [.flate]⟩).behind
        (streamDict entries t)
      have ho : o = (Writer.write (s.numbered own ++ closing w.offset)).run
          w := by
        rw [hrun, hpacked]
      obtain ⟨hok, hwrote⟩ := Writer.run_write_of_neverFails _ hsink
      rw [← ho] at hok hwrote
      refine ⟨iff_of_true hok ⟨packed, rfl⟩, ?_⟩
      intro _
      refine ⟨_, s, _, _, hwrote, ?_, start?_append_closing _ _,
        packs_behind (undoAll?_armored_flate settings.asciiOnly
          (hinflate _ _ hpacked))⟩
      exact @numbered?_append (.stream s) own (closing w.offset)
        (recognisable_behind _ (isPlain_streamDict entries t))

/-- A stream at an offset that no two bytes hold. -/
theorem write_stream_wide :
    let compressor : Compressor := fun data => .ok data.reverse
    let inflate : Inflater := fun data => some data.reverse
    let places := (Places.ofSize 3).record ⟨2, 7⟩ 15
    let w : Writer := { offset := 65536 }
    let o := (write (stream { asciiOnly := true } compressor places ⟨4, 0⟩
      { root := ⟨2, 7⟩ })).run w
    let entries : List Entry := [.free 1 65535, .free 3 0, .inUse 15 7,
      .free 0 0, .inUse 65536 0]
    Device.unlimited.NeverFails ∧ Inverts inflate compressor
      ∧ ∃ bytes s rows, w.Wrote bytes o.state
        ∧ numbered? bytes = some (⟨4, 0⟩, .stream s)
        ∧ start? bytes = some 65536
        ∧ Packs inflate entries s 3 rows := by
  intro compressor inflate places w o entries
  have hsink := Device.neverFails_unlimited
  have hinflate : Inverts inflate compressor := by
    intro data packed h
    rw [← Except.ok.inj h]
    exact congrArg some data.reverse_reverse
  have hentries : (places.record ⟨4, 0⟩ 65536).entries = entries := by
    decide +kernel
  obtain ⟨hiff, hread⟩ := @write_stream { asciiOnly := true } compressor
    inflate places ⟨4, 0⟩ { root := ⟨2, 7⟩ } w hsink hinflate
  obtain ⟨bytes, s, width, rows, hwrote, hnumbered, hstart, hpacks⟩ :=
    hread (hiff.mpr ⟨_, rfl⟩)
  rw [hentries] at hpacks
  have hthree : width ≤ 3 := (hpacks.least 3 (by decide)).mpr (by decide)
  have hmore : ¬ width ≤ 2 := by
    rw [hpacks.least 2 (by decide)]
    decide
  obtain rfl : width = 3 := by
    omega
  exact ⟨hsink, hinflate, bytes, s, rows, hwrote, hnumbered, hstart, hpacks⟩

end Pdf.Xref
