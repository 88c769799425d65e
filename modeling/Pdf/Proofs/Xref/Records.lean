import Pdf.Proofs.Output.Performance
import Pdf.Proofs.Xref.Table

/-! # Records — a table is written whole or not at all

    A reader finds the record of a number by multiplying, so every record takes
    exactly twenty bytes.  That holds of all entries but those in use whose
    offset has more than ten digits.  The entries are searched for one of these
    before anything is written, in ascending order, so the error names the
    lowest number (`FirstBeyond`) and the writer is still as it was.

    Without such an entry there is nothing that could fail besides the sink:
    the records are written one behind the other, and each of them alone is
    read back as its entry. -/

namespace Pdf.Xref

open Bytes (ascii)

/-! ## Laid-out sections -/

/-- A section is laid out for the offset of the writer and then written. -/
theorem run_write (layout : Nat → Except Error Bytes) (w : Writer) :
    (write layout).run w = match layout w.offset with
      | .ok bytes => (Writer.write bytes).run w
      | .error e => ⟨.error e, w, []⟩ := by
  rw [write, Action.run_bind_ok _ (Action.run_read w)]
  cases layout w.offset with
  | ok bytes => rfl
  | error e => rfl

/-! ## Offsets beyond a record -/

/-- An entry in use is too far behind for a record, and none in front of it
    is. -/
structure FirstBeyond (entries : List Entry) (n offset : Nat)
    (generation : UInt16) : Prop where
  entry : entries[n]? = some (.inUse offset generation)
  beyond : 9999999999 < offset
  earlier : ∀ m offset' generation', m < n →
    entries[m]? = some (.inUse offset' generation') → offset' ≤ 9999999999

/-- An entry fits a table unless its offset has more than ten digits. -/
theorem tableError_eq_none_iff {e : Entry} {number : Nat} :
    tableError (e, number) = none ↔ ∀ offset generation,
      e = .inUse offset generation → offset ≤ 9999999999 := by
  cases e with
  | free next generation =>
      refine iff_of_true rfl ?_
      intro offset generation' h
      cases h
  | inUse offset generation =>
      rw [tableError]
      constructor
      · intro hnone offset' generation' h
        obtain ⟨rfl, -⟩ := Entry.inUse.inj h
        refine Nat.le_of_not_lt ?_
        intro hbeyond
        rw [if_pos (show largestOffset < offset from hbeyond)] at hnone
        cases hnone
      · intro h
        exact if_neg (Nat.not_lt_of_le (h offset generation rfl))

/-- The error names the number, the generation and the offset. -/
theorem exists_of_tableError {e : Entry} {number : Nat} {error : Error}
    (h : tableError (e, number) = some error) :
    ∃ offset generation, e = .inUse offset generation
      ∧ 9999999999 < offset
      ∧ error = .offsetTooLarge ⟨number.toUInt32, generation⟩ offset := by
  cases e with
  | free next generation => cases h
  | inUse offset generation =>
      rw [tableError] at h
      by_cases hbeyond : largestOffset < offset
      · rw [if_pos hbeyond] at h
        exact ⟨offset, generation, rfl, hbeyond, (Option.some.inj h).symm⟩
      · rw [if_neg hbeyond] at h
        cases h

/-- The error that is found is the one of the lowest number. -/
theorem firstBeyond_of_findSome? {entries : List Entry} {error : Error}
    (h : entries.zipIdx.findSome? tableError = some error) :
    ∃ n offset generation, FirstBeyond entries n offset generation
      ∧ error = .offsetTooLarge ⟨n.toUInt32, generation⟩ offset := by
  obtain ⟨front, ⟨e, n⟩, back, hsplit, herror, hfront⟩ :=
    List.findSome?_eq_some_iff.mp h
  obtain ⟨offset, generation, rfl, hbeyond, rfl⟩ :=
    exists_of_tableError herror
  have hat : ∀ m : Nat,
      entries.zipIdx[m]? = entries[m]?.map fun e => (e, m) := by
    intro m
    rw [List.getElem?_zipIdx]
    simp
  have hhere := hat front.length
  rw [hsplit, List.getElem?_append_right (Nat.le_refl _), Nat.sub_self,
    List.getElem?_cons_zero, eq_comm, Option.map_eq_some_iff] at hhere
  obtain ⟨e, hentry, hpair⟩ := hhere
  obtain ⟨rfl, rfl⟩ := Prod.mk.inj hpair
  refine ⟨front.length, offset, generation, ⟨hentry, hbeyond, ?_⟩, rfl⟩
  intro m offset' generation' hm hearlier
  have hpassed := hat m
  rw [hsplit, List.getElem?_append_left hm, hearlier] at hpassed
  exact tableError_eq_none_iff.mp
    (hfront _ (List.mem_of_getElem? hpassed)) offset' generation' rfl

/-! ## Tables -/

/-- A record that its offset fits into has twenty bytes, which are read as the
    entry and leave nothing over. -/
theorem length_record {e : Entry}
    (h : ∀ offset generation, e = .inUse offset generation →
      offset ≤ largestOffset) : e.record.length = 20 := by
  have hten : ∀ n, n < 10 ^ 10 → (Bytes.paddedDecimal 10 n).length = 10 :=
    fun _ hn => Bytes.length_paddedDecimal_of_lt (by decide) hn
  have hfive : ∀ generation : UInt16,
      (Bytes.paddedDecimal 5 generation.toNat).length = 5 := by
    intro generation
    refine Bytes.length_paddedDecimal_of_lt (by decide) ?_
    have hlt := generation.toNat_lt
    omega
  cases e with
  | free next generation =>
      have hnext : next.toNat < 10 ^ 10 := by
        have hlt := next.toNat_lt
        omega
      simp [Entry.record, hten _ hnext, hfive, ascii]
  | inUse offset generation =>
      have hoffset : offset < 10 ^ 10 := by
        have hle := h offset generation rfl
        rw [largestOffset] at hle
        omega
      simp [Entry.record, hten _ hoffset, hfive, ascii]

/-- Each record alone is read as its entry. -/
theorem map_record?_record {entries : List Entry}
    (h : ∀ e ∈ entries, ∀ offset generation, e = .inUse offset generation →
      offset ≤ largestOffset) :
    (entries.map Entry.record).map record?
      = entries.map fun e => some (e, []) := by
  rw [List.map_map]
  refine List.map_congr_left ?_
  intro e he
  have hread := record?_append [] (h e he)
  rwa [List.append_nil] at hread

/-- **TABLES ARE EXACT OR REFUSED WHOLE**: over a sink that never fails, a
    table is refused exactly if an entry in use has an offset of more than ten
    digits.  Then the error names the lowest number with such an entry and the
    writer is as it was.  Otherwise there is a record of twenty bytes for every
    entry, and they are read back as the entries in order. -/
theorem write_table (entries : List Entry) (t : Trailer) {w : Writer}
    (hsink : w.sink.device.NeverFails) :
    let o := (write (table entries t)).run w
    let count := entries.length
    ((∃ r offset, o.result = .error (.offsetTooLarge r offset))
        ↔ ∃ offset generation, .inUse offset generation ∈ entries
          ∧ 9999999999 < offset)
      ∧ ((∃ n offset generation, FirstBeyond entries n offset generation
          ∧ o.result = .error
            (.offsetTooLarge ⟨n.toUInt32, generation⟩ offset)
          ∧ o.state = w)
        ∨ o.result = .ok () ∧ ∃ records : List Bytes,
          w.Wrote (ascii "xref\n0 " ++ Bytes.decimal count ++ ascii "\n"
              ++ records.flatten ++ ascii "trailer\n"
              ++ (t.dict count).written ++ ascii "\nstartxref\n"
              ++ Bytes.decimal w.offset ++ ascii "\n%%EOF\n") o.state
            ∧ records.map record? = entries.map (fun e => some (e, []))
            ∧ (∀ record ∈ records, record.length = 20)
            ∧ (t.dict count).get? (.key "Size") = some (.integer count)) := by
  intro o count
  have hrun : o = _ := run_write (table entries t) w
  cases hcheck : entries.zipIdx.findSome? tableError with
  | some error =>
      obtain ⟨n, offset, generation, hfirst, rfl⟩ :=
        firstBeyond_of_findSome? hcheck
      have ho : o = ⟨.error (.offsetTooLarge ⟨n.toUInt32, generation⟩ offset),
          w, []⟩ := by
        rw [hrun, table, hcheck]
      rw [ho]
      refine ⟨iff_of_true ⟨_, _, rfl⟩ ⟨offset, generation,
        List.mem_of_getElem? hfirst.entry, hfirst.beyond⟩, Or.inl ?_⟩
      exact ⟨n, offset, generation, hfirst, rfl, rfl⟩
  | none =>
      have hsmall : ∀ e ∈ entries, ∀ offset generation,
          e = .inUse offset generation → offset ≤ largestOffset := by
        rintro e he offset generation rfl
        exact le_largestOffset hcheck he
      have ho : o = (Writer.write (ascii "xref\n0 " ++ Bytes.decimal count
          ++ ascii "\n" ++ entries.flatMap Entry.record ++ ascii "trailer\n"
          ++ (t.dict count).written ++ ascii "\n" ++ closing w.offset)).run
          w := by
        rw [hrun, table, hcheck]
      obtain ⟨hok, hwrote⟩ := Writer.run_write_of_neverFails _ hsink
      rw [← ho] at hok hwrote
      refine ⟨iff_of_false ?_ ?_, Or.inr ⟨hok, entries.map Entry.record, ?_,
        map_record?_record hsmall, ?_, t.get?_dict_size _⟩⟩
      · rintro ⟨r, offset, he⟩
        rw [hok] at he
        cases he
      · rintro ⟨offset, generation, hmem, hbeyond⟩
        exact Nat.not_lt_of_le (hsmall _ hmem _ _ rfl) hbeyond
      · rw [← List.flatMap_def]
        have hclosing : ascii "\n" ++ closing w.offset
            = ascii "\nstartxref\n" ++ Bytes.decimal w.offset
              ++ ascii "\n%%EOF\n" := by
          rw [closing, ← List.append_assoc, ← List.append_assoc]
          rfl
        simpa only [List.append_assoc, hclosing] using hwrote
      · intro record hrecord
        obtain ⟨e, he, rfl⟩ := List.mem_map.mp hrecord
        exact length_record (hsmall e he)

/-- The last offset that fits and the first one that does not. -/
theorem write_table_largest :
    let t : Trailer := { root := ⟨1, 0⟩ }
    let fitting : List Entry := [.free 0 65535, .inUse 9999999999 0]
    let refused := (write (table (fitting ++ [.inUse 10000000000 7,
      .inUse 10000000001 0]) t)).run {}
    Device.unlimited.NeverFails
      ∧ (∃ records : List Bytes,
        records.map record? = fitting.map (fun e => some (e, []))
          ∧ ∀ record ∈ records, record.length = 20)
      ∧ refused.result = .error (.offsetTooLarge ⟨2, 7⟩ 10000000000)
      ∧ refused.state = {} := by
  intro t fitting refused
  have hsink := Device.neverFails_unlimited
  have hrefused : refused.result
      = .error (.offsetTooLarge ⟨2, 7⟩ 10000000000) := rfl
  refine ⟨hsink, ?_, hrefused, ?_⟩
  · have hok : ((write (table fitting t)).run {}).result = .ok () :=
      Writer.eq_ok_of_isOk (by decide +kernel)
    rcases (write_table fitting t (w := {}) hsink).2
      with ⟨n, offset, generation, -, he, -⟩
        | ⟨-, records, -, hread, hlength, -⟩
    · rw [hok] at he
      cases he
    · exact ⟨records, hread, hlength⟩
  · rcases (write_table _ t (w := {}) hsink).2
      with ⟨n, offset, generation, -, -, hstate⟩ | ⟨hok, -⟩
    · exact hstate
    · rw [show refused.result = .ok () from hok] at hrefused
      cases hrefused

end Pdf.Xref
