import Mathlib.Algebra.Group.Int.Defs
import Pdf.Proofs.Xref.Packing

/-! # Fidelity — what a reader learns about a trailer

    The dictionary below a table and the one of a cross-reference stream are
    read with the object grammar.  Under the names of a trailer both of them
    have an entry for each field that is present, and no others, with the
    references, the strings and the numbers that were given (`Says`).

    One field is not always given back: the offset of an earlier section is a
    64-bit number without sign, and the object that stands for it is the signed
    number of the same bits.  The two are the same number below 2^63 and
    nowhere else. -/

namespace Pdf

open Bytes (ascii)
open Syntax

namespace Trailer

/-! ## Offsets -/

/-- The number that is written for the offset of an earlier section. -/
def writtenOffset (offset : UInt64) : Int :=
  if offset.toNat < 2 ^ 63 then offset.toNat else offset.toNat - 2 ^ 64

/-- An offset is written as a signed number of 64 bits. -/
theorem ofUInt64_eq (offset : UInt64) :
    Object.ofUInt64 offset = .integer (writtenOffset offset) := by
  have hbits : offset.toInt64.toInt = if 2 * offset.toNat < 2 ^ 64
      then (offset.toNat : Int) else offset.toNat - (2 ^ 64 : Nat) :=
    BitVec.toInt_eq_toNat_cond offset.toBitVec
  rw [Object.ofUInt64, hbits, writtenOffset]
  by_cases h : offset.toNat < 2 ^ 63
  · rw [if_pos h, if_pos (by omega)]
  · rw [if_neg h, if_neg (by omega)]
    rfl

/-- Offsets of 63 bits are written as they are, larger ones are negative. -/
theorem writtenOffset_eq_iff (offset : UInt64) :
    writtenOffset offset = offset.toNat ↔ offset.toNat < 2 ^ 63 := by
  rw [writtenOffset]
  by_cases h : offset.toNat < 2 ^ 63
  · rw [if_pos h]
    exact iff_of_true rfl h
  · rw [if_neg h]
    refine iff_of_false ?_ h
    omega

/-! ## Entries -/

/-- What a dictionary has under the names of a trailer, if the offset of an
    earlier section is taken for some number. -/
structure Says (offset : UInt64 → Int) (t : Trailer) (size : Nat) (d : Dict) :
    Prop where
  nodup : d.keys.Nodup
  size : d.get? (.key "Size") = some (.integer size)
  root : d.get? (.key "Root") = some (.reference t.root)
  info : d.get? (.key "Info") = t.info.map fun r => .reference r
  encrypt : d.get? (.key "Encrypt") = t.encrypt.map fun r => .reference r
  id : d.get? (.key "ID")
    = t.id.map fun id => .array [.string .literal id.1, .string .literal id.2]
  prev : d.get? (.key "Prev") = t.prev.map fun p => .integer (offset p)

/-- The trailer alone says all that it was given. -/
theorem says_dict (t : Trailer) (size : Nat) :
    t.Says writtenOffset size (t.dict size) := by
  refine ⟨t.nodup_keys_dict size, t.get?_dict_size size, t.get?_dict_root size,
    t.get?_dict_info size, t.get?_dict_encrypt size,
    t.get?_dict_identifier size, ?_⟩
  rw [get?_dict_prev]
  exact congrArg t.prev.map (funext ofUInt64_eq)

/-- A dictionary of which this holds gives back the offset itself exactly if
    there is none or it has at most 63 bits. -/
theorem Says.toNat_iff {t : Trailer} {size : Nat} {d : Dict}
    (h : t.Says writtenOffset size d) :
    t.Says (fun p => p.toNat) size d
      ↔ ∀ p, t.prev = some p → p.toNat < 2 ^ 63 := by
  constructor
  · intro hexact p hp
    have hprev := h.prev.symm.trans hexact.prev
    rw [hp] at hprev
    exact (writtenOffset_eq_iff p).mp
      (Object.integer.inj (Option.some.inj hprev))
  · intro hsmall
    refine { h with prev := h.prev.trans ?_ }
    cases hp : t.prev with
    | none => rfl
    | some p =>
        exact congrArg (some ∘ Object.integer)
          ((writtenOffset_eq_iff p).mpr (hsmall p hp))

end Trailer

namespace Xref

open Trailer (writtenOffset Says)

/-! ## Both forms -/

/-- In either form, no name occurs twice. -/
theorem Heads.nodup_keys {entries : List Entry} {t : Trailer} {d : Dict}
    (h : Heads entries t d) : d.keys.Nodup := by
  cases h with
  | table => exact t.nodup_keys_dict _
  | stream f =>
      refine Dictionary.nodup_keys_insert _ _
        (Dict.nodup_keys_withFilters _ (Dictionary.nodup_keys_insert _ _
          (Dictionary.nodup_keys_insert _ _
            (Dictionary.nodup_keys_insertMany _ ?_))))
      exact Dictionary.nodup_keys_insert _ _ List.nodup_nil

/-- The other entries of a cross-reference stream have other names. -/
theorem Heads.tells {entries : List Entry} {t : Trailer} {d : Dict}
    (h : Heads entries t d) : t.Says writtenOffset entries.length d := by
  have hdict := t.says_dict entries.length
  have hget : ∀ key ∈ Trailer.names,
      d.get? key = (t.dict entries.length).get? key := by
    intro key hkey
    refine h.get? ?_
    intro hcoding
    exact not_mem_names_of_mem_codingNames key hcoding hkey
  refine ⟨h.nodup_keys, ?_, ?_, ?_, ?_, ?_, ?_⟩
  · rw [hget _ (by decide), hdict.size]
  · rw [hget _ (by decide), hdict.root]
  · rw [hget _ (by decide), hdict.info]
  · rw [hget _ (by decide), hdict.encrypt]
  · rw [hget _ (by decide), hdict.id]
  · rw [hget _ (by decide), hdict.prev]

/-- A section whose layout succeeds stands in a sink that never fails. -/
theorem write_of_layout {layout : Nat → Except Error Bytes} {w : Writer}
    {bytes : Bytes} (hsink : w.sink.device.NeverFails)
    (h : layout w.offset = .ok bytes) :
    ((write layout).run w).result = .ok ()
      ∧ w.Wrote bytes ((write layout).run w).state := by
  rw [run_write, h]
  exact Writer.run_write_of_neverFails bytes hsink

/-- Where the layout fails, nothing is written with success. -/
theorem write_ne_ok {layout : Nat → Except Error Bytes} {w : Writer}
    {e : Error} (h : layout w.offset = .error e) :
    ((write layout).run w).result ≠ .ok () := by
  rw [run_write, h]
  intro hok
  cases hok

/-- **BOTH FORMS SAY WHAT THE TRAILER WAS GIVEN**: over a sink that never
    fails, a table is written unless an offset has more than ten digits, and a
    stream is written unless the compressor refuses its rows.  The dictionary
    that is read behind `trailer`, or in front of the rows, has no name twice
    and has an entry for each field of the trailer that is present, with its
    very value; only the offset of an earlier section is the signed number of
    the same bits, which is the offset itself if and only if it is below
    2^63. -/
theorem says_write (t : Trailer) {w : Writer}
    (hsink : w.sink.device.NeverFails) :
    (∀ entries : List Entry, let o := (write (table entries t)).run w
      (o.result = .ok () ↔ ∀ offset generation,
          .inUse offset generation ∈ entries → offset ≤ 9999999999)
        ∧ (o.result = .ok () → ∃ bytes d, w.Wrote bytes o.state
          ∧ (keyword? "xref" bytes).bind table? = some (entries, d)
          ∧ t.Says writtenOffset entries.length d
          ∧ (t.Says (fun p => p.toNat) entries.length d
            ↔ ∀ p, t.prev = some p → p.toNat < 2 ^ 63)))
      ∧ ∀ (settings : Settings) (compressor : Compressor) (places : Places)
          (own : Ref),
        let o := (write (stream settings compressor places own t)).run w
        let entries := (places.record own w.offset).entries
        (o.result = .ok ()
            ↔ ∃ packed, compressor (packedRows entries) = .ok packed)
          ∧ (o.result = .ok () → ∃ bytes s, w.Wrote bytes o.state
            ∧ numbered? bytes = some (own, .stream s)
            ∧ t.Says writtenOffset entries.length s.dict
            ∧ (t.Says (fun p => p.toNat) entries.length s.dict
              ↔ ∀ p, t.prev = some p → p.toNat < 2 ^ 63)) := by
  constructor
  · intro entries o
    cases hcheck : entries.zipIdx.findSome? tableError with
    | some e =>
        obtain ⟨n, offset, generation, hfirst, -⟩ :=
          firstBeyond_of_findSome? hcheck
        have hlayout : table entries t w.offset = .error e := by
          rw [table, hcheck]
        have hne : o.result ≠ .ok () := write_ne_ok hlayout
        refine ⟨iff_of_false hne ?_, fun hok => absurd hok hne⟩
        intro hall
        have hle := hall offset generation
          (List.mem_of_getElem? hfirst.entry)
        exact Nat.not_lt_of_le hle hfirst.beyond
    | none =>
        have hlayout : ∃ bytes, table entries t w.offset = .ok bytes := by
          rw [table, hcheck]
          exact ⟨_, rfl⟩
        obtain ⟨bytes, hbytes⟩ := hlayout
        obtain ⟨hok, hwrote⟩ := write_of_layout hsink hbytes
        obtain ⟨-, -, hread⟩ := table?_of_table hbytes
        have hheads : Heads entries t (t.dict entries.length) := .table
        have hsays := hheads.tells
        refine ⟨iff_of_true hok fun _ _ => le_largestOffset hcheck, ?_⟩
        intro _
        exact ⟨bytes, _, hwrote, hread, hsays, hsays.toNat_iff⟩
  · intro settings compressor places own o entries
    cases hpacked : compressor (packedRows entries) with
    | error message =>
        have hlayout : stream settings compressor places own t w.offset
            = .error (.compressionFailed (some own) message) := by
          rw [stream_eq, hpacked]
        have hne : o.result ≠ .ok () := write_ne_ok hlayout
        refine ⟨iff_of_false hne ?_, fun hok => absurd hok hne⟩
        rintro ⟨packed, h⟩
        cases h
    | ok packed =>
        have hlayout : ∃ bytes,
            stream settings compressor places own t w.offset = .ok bytes := by
          rw [stream_eq, hpacked]
          exact ⟨_, rfl⟩
        obtain ⟨bytes, hstream⟩ := hlayout
        obtain ⟨hok, hwrote⟩ := write_of_layout hsink hstream
        obtain ⟨-, s, -, hbytes, hrecognisable, hheads, -⟩ :=
          readSection?_stream hstream
        have hnumbered := numbered?_append own (closing w.offset) hrecognisable
        refine ⟨iff_of_true hok ⟨packed, rfl⟩, ?_⟩
        intro _
        rw [hbytes] at hwrote
        exact ⟨_, s, hwrote, hnumbered, hheads.tells, hheads.tells.toNat_iff⟩

/-- A trailer with all its fields, the last of them as large as it can be
    given back. -/
def fullTrailer : Trailer where
  root := ⟨1, 0⟩
  info := some ⟨2, 0⟩
  encrypt := some ⟨3, 7⟩
  id := some ([0x28, 0x5C, 0x0D], [0x00, 0xFF])
  prev := some 0x7FFFFFFFFFFFFFFF

/-- It is given back from below a table and from a stream. -/
theorem says_write_full :
    let w : Writer := {}
    let compressor : Compressor := fun data => .ok data.reverse
    let places := (Places.ofSize 2).record ⟨1, 0⟩ 15
    let below := (write (table places.entries fullTrailer)).run w
    let within := (write (stream {} compressor places ⟨2, 0⟩ fullTrailer)).run w
    Device.unlimited.NeverFails
      ∧ (∃ bytes d, w.Wrote bytes below.state
        ∧ (keyword? "xref" bytes).bind table? = some (places.entries, d)
        ∧ fullTrailer.Says (fun p => p.toNat) 2 d)
      ∧ ∃ bytes s, w.Wrote bytes within.state
        ∧ numbered? bytes = some (⟨2, 0⟩, .stream s)
        ∧ fullTrailer.Says (fun p => p.toNat) 3 s.dict := by
  intro w compressor places below within
  have hsink : w.sink.device.NeverFails := Device.neverFails_unlimited
  obtain ⟨htable, hstream⟩ := says_write fullTrailer hsink
  have hsmall : ∀ p, fullTrailer.prev = some p → p.toNat < 2 ^ 63 := by
    intro p hp
    rw [← Option.some.inj hp]
    decide
  have htwo : places.entries.length = 2 := by decide +kernel
  have hthree : (places.record ⟨2, 0⟩ w.offset).entries.length = 3 := by
    decide +kernel
  have hoffsets : ∀ offset generation,
      .inUse offset generation ∈ places.entries → offset ≤ 9999999999 := by
    intro offset generation hmem
    have hentries : places.entries = [.free 0 65535, .inUse 15 0] := by
      decide +kernel
    rw [hentries] at hmem
    simp only [List.mem_cons, reduceCtorEq, Entry.inUse.injEq,
      List.not_mem_nil, or_false, false_or] at hmem
    omega
  obtain ⟨hiff, hbelow⟩ := htable places.entries
  obtain ⟨bytes, d, hwrote, hread, -, hexact⟩ := hbelow (hiff.mpr hoffsets)
  obtain ⟨hiff', hwithin⟩ := hstream {} compressor places ⟨2, 0⟩
  obtain ⟨bytes', s, hwrote', hread', -, hexact'⟩ :=
    hwithin (hiff'.mpr ⟨_, rfl⟩)
  rw [htwo] at hexact
  rw [hthree] at hexact'
  exact ⟨Device.neverFails_unlimited,
    ⟨bytes, d, hwrote, hread, hexact.mpr hsmall⟩,
    bytes', s, hwrote', hread', hexact'.mpr hsmall⟩

/-- The next larger offset is read as a negative number. -/
theorem not_says_largest :
    let t : Trailer := { root := ⟨1, 0⟩, prev := some 0x8000000000000000 }
    let entries : List Entry := [.free 0 65535, .inUse 15 0]
    ∃ bytes d, table entries t 0 = .ok bytes
      ∧ (keyword? "xref" bytes).bind table? = some (entries, d)
      ∧ d.get? (.key "Prev") = some (.integer (-9223372036854775808))
      ∧ ¬ t.Says (fun p => p.toNat) entries.length d := by
  intro t entries
  have hlayout : ∃ bytes, table entries t 0 = .ok bytes := ⟨_, rfl⟩
  obtain ⟨bytes, hbytes⟩ := hlayout
  obtain ⟨-, -, hread⟩ := table?_of_table hbytes
  refine ⟨bytes, _, hbytes, hread, rfl, ?_⟩
  rw [(t.says_dict entries.length).toNat_iff]
  intro hsmall
  exact absurd (hsmall _ rfl) (by decide)

end Xref

end Pdf
