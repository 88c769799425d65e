import Pdf.Proofs.Xref.Table

/-! # Cross-reference streams, read back

    A section that does not start with `xref` is a stream.  Its dictionary
    gives the widths of the three fields of a row and the range of the numbers,
    and the rows are what its filters were applied to.

    A row keeps its entry because the width of the second field was chosen for
    the largest value that stands in it. -/

namespace Pdf.Xref

open Bytes (byte ascii)
open Syntax

/-! ## Rows -/

/-- The entry of a row whose fields have some widths. -/
def row? (a b c : Nat) (bytes : Bytes) : Option Entry :=
  let kind := Bytes.ofBigEndian (bytes.take a)
  let second := Bytes.ofBigEndian ((bytes.drop a).take b)
  let third := Bytes.ofBigEndian (((bytes.drop a).drop b).take c)
  if bytes.length < a + b + c ∨ 2 ^ 16 ≤ third then none
  else if kind = 0 ∧ second < 2 ^ 32 then
    some (.free second.toUInt32 third.toUInt16)
  else if kind = 1 then some (.inUse second third.toUInt16)
  else none

/-- The entries of so many rows. -/
def rows? (a b c : Nat) : (count : Nat) → Bytes → Option (List Entry)
  | 0, _ => some []
  | count + 1, bytes => do
      let e ← row? a b c bytes
      let es ← rows? a b c count (bytes.drop (a + b + c))
      some (e :: es)

/-- A row is as long as the widths say. -/
theorem length_row (width : Nat) (e : Entry) :
    (e.row width).length = 1 + width + 2 := by
  rw [Entry.row, List.length_append, List.length_cons,
    Bytes.length_bigEndian, Bytes.length_bigEndian, Nat.add_comm width 1]

/-- The fields of a row are found at their places. -/
theorem row?_fields {width second : Nat} (kind : UInt8)
    (generation : UInt16) (rest : Bytes) (h : second < 256 ^ width) :
    row? 1 width 2 (kind :: Bytes.bigEndian width second
        ++ Bytes.bigEndian 2 generation.toNat ++ rest)
      = if kind.toNat = 0 ∧ second < 2 ^ 32 then
          some (.free second.toUInt32 generation)
        else if kind.toNat = 1 then some (.inUse second generation)
        else none := by
  have hgeneration : generation.toNat < 2 ^ 16 := generation.toNat_lt
  have hthird : Bytes.ofBigEndian (Bytes.bigEndian 2 generation.toNat)
      = generation.toNat := Bytes.ofBigEndian_bigEndian hgeneration
  have hkind : Bytes.ofBigEndian [kind] = kind.toNat := Nat.zero_add _
  have hlength : (kind :: Bytes.bigEndian width second
      ++ Bytes.bigEndian 2 generation.toNat ++ rest).length
      = 1 + width + 2 + rest.length := by
    rw [List.length_append, List.length_append, List.length_cons,
      Bytes.length_bigEndian, Bytes.length_bigEndian, Nat.add_comm width 1]
  have hpasses : ¬ ((kind :: Bytes.bigEndian width second
      ++ Bytes.bigEndian 2 generation.toNat ++ rest).length < 1 + width + 2
      ∨ 2 ^ 16 ≤ generation.toNat) := by
    omega
  have htake : (kind :: Bytes.bigEndian width second
      ++ Bytes.bigEndian 2 generation.toNat ++ rest).take 1 = [kind] := rfl
  have hdrop : (kind :: Bytes.bigEndian width second
      ++ Bytes.bigEndian 2 generation.toNat ++ rest).drop 1
      = Bytes.bigEndian width second
        ++ (Bytes.bigEndian 2 generation.toNat ++ rest) :=
    List.append_assoc _ _ _
  have hwidth := Bytes.length_bigEndian width second
  simp only [row?, htake, hdrop, List.take_left' hwidth,
    List.drop_left' hwidth,
    List.take_left' (Bytes.length_bigEndian 2 generation.toNat), hkind,
    hthird, Bytes.ofBigEndian_bigEndian h]
  rw [if_neg hpasses,
    show generation.toNat.toUInt16 = generation from UInt16.ofNat_toNat]

/-- A row whose field fits its width is read back. -/
theorem row?_append {width : Nat} {e : Entry} (rest : Bytes)
    (h : e.fields.2.1 < 256 ^ width) :
    row? 1 width 2 (e.row width ++ rest) = some e := by
  cases e with
  | free next generation =>
      refine (row?_fields 0 generation rest h).trans ?_
      rw [if_pos ⟨rfl, next.toNat_lt⟩]
      show some (Entry.free next.toNat.toUInt32 generation) = _
      rw [show next.toNat.toUInt32 = next from UInt32.ofNat_toNat]
  | inUse offset generation =>
      refine (row?_fields 1 generation rest h).trans ?_
      rw [if_neg (fun hk => absurd hk.1 (by decide))]
      exact if_pos rfl

/-- Rows that stand one behind the other are read back. -/
theorem rows?_flatMap {width : Nat} {entries : List Entry}
    (h : ∀ e ∈ entries, e.fields.2.1 < 256 ^ width) :
    rows? 1 width 2 entries.length (entries.flatMap (Entry.row width))
      = some entries := by
  induction entries with
  | nil => rfl
  | cons e entries ih =>
      have hrest := ih fun e' he => h e' (List.mem_cons_of_mem _ he)
      rw [List.length_cons, List.flatMap_cons, rows?]
      simp only [row?_append _ (h e List.mem_cons_self),
        List.drop_left' (length_row width e), hrest, Option.bind_eq_bind,
        Option.bind_some]

/-- No number is above the maximum. -/
theorem le_foldl_max {n : Nat} {ns : List Nat} (start : Nat)
    (h : n ≤ start ∨ n ∈ ns) : n ≤ ns.foldl max start := by
  induction ns generalizing start with
  | nil =>
      rcases h with h | h
      · exact h
      · exact nomatch h
  | cons m ns ih =>
      refine ih (max start m) ?_
      rcases h with h | h
      · exact Or.inl (Nat.le_trans h (Nat.le_max_left start m))
      rcases List.mem_cons.mp h with rfl | h
      · exact Or.inl (Nat.le_max_right start n)
      · exact Or.inr h

/-- Every field fits the width of the offsets. -/
theorem lt_pow_offsetWidth {entries : List Entry} {e : Entry}
    (h : e ∈ entries) : e.fields.2.1 < 256 ^ offsetWidth entries := by
  have hmem : e.fields.2.1 ∈ entries.map (·.fields.2.1) :=
    List.mem_map.mpr ⟨e, h, rfl⟩
  exact Nat.lt_of_le_of_lt (le_foldl_max 0 (Or.inr hmem))
    (Bytes.lt_pow_byteWidth _)

/-- The rows of all entries, as wide as they have to be. -/
def packedRows (entries : List Entry) : Bytes :=
  entries.flatMap (Entry.row (offsetWidth entries))

/-! ## Streams -/

/-- The natural number that an object is. -/
def natural? : Object → Option Nat
  | .integer i => if 0 ≤ i then some i.toNat else none
  | _ => none

/-- The natural numbers that an array holds. -/
def naturals? : Object → Option (List Nat)
  | .array items => items.mapM natural?
  | _ => none

/-- The entries of a cross-reference stream. -/
def ofStream? (inflate : Inflater) (s : StreamData) :
    Option (List Entry × Dict) := do
  let filters ← s.dict.filterList.mapM Filter.named?
  let rows ← Filter.undoAll? inflate filters s.data
  let widths ← (s.dict.get? (.key "W")).bind naturals?
  let range ← (s.dict.get? (.key "Index")).bind naturals?
  match widths, range with
  | [a, b, c], [0, count] =>
      (rows? a b c count rows).map fun entries => (entries, s.dict)
  | _, _ => none

/-- The entries of a section, and the dictionary with its trailer. -/
def readSection? (inflate : Inflater) (bytes : Bytes) :
    Option (List Entry × Dict) :=
  match keyword? "xref" bytes, numbered? bytes with
  | some rest, _ => table? rest
  | none, some (_, .stream s) => ofStream? inflate s
  | none, _ => none

theorem natural?_natCast (n : Nat) :
    natural? (.integer n) = some n := by
  rw [natural?, if_pos (Int.natCast_nonneg n), Int.toNat_natCast]

/-- Numbers that were made objects are read back. -/
theorem mapM_natural? (ns : List Nat) :
    (ns.map fun n : Nat => Object.integer n).mapM natural? = some ns := by
  induction ns with
  | nil => rfl
  | cons n ns ih =>
      rw [List.map_cons, List.mapM_cons, natural?_natCast, ih]
      rfl

theorem mapM_named? (fs : List Filter) :
    (fs.map Filter.listed).mapM Filter.named? = some fs := by
  induction fs with
  | nil => rfl
  | cons f fs ih =>
      rw [List.map_cons, List.mapM_cons, Filter.named?_listed, ih]
      rfl

/-- The dictionary tells the widths of the three fields. -/
theorem get?_streamDict_w (entries : List Entry) (t : Trailer) :
    (streamDict entries t).get? (.key "W")
      = some (.array ([1, offsetWidth entries, 2].map
        fun n : Nat => Object.integer n)) := by
  rw [streamDict, Dictionary.get?_insert, if_pos rfl]
  rfl

/-- The dictionary tells that the rows begin with number zero. -/
theorem get?_streamDict_index (entries : List Entry) (t : Trailer) :
    (streamDict entries t).get? (.key "Index")
      = some (.array ([0, entries.length].map
        fun n : Nat => Object.integer n)) := by
  rw [streamDict, Dictionary.get?_insert, if_neg (by decide),
    Dictionary.get?_insert, if_pos rfl]
  rfl

/-- The filters of a section are the ones that were applied to its rows. -/
theorem mapM_named?_behind (entries : List Entry) (t : Trailer)
    (f : Filtered) :
    (f.behind (streamDict entries t)).dict.filterList.mapM Filter.named?
      = some f.filters := by
  have hfilters : (f.behind (streamDict entries t)).dict.filterList
      = f.filters.map Filter.listed := by
    show Dict.filterList ((Dict.withFilters _ _).withLength _) = _
    rw [Dict.filterList_withLength, Dict.filterList_withFilters,
      filterList_streamDict, List.append_nil]
  rw [hfilters, mapM_named?]

/-- A stream whose filters lead back to the rows is read as their entries. -/
theorem ofStream?_behind {inflate : Inflater} {entries : List Entry}
    {t : Trailer} {f : Filtered}
    (h : Filter.undoAll? inflate f.filters f.data
      = some (packedRows entries)) :
    ofStream? inflate (f.behind (streamDict entries t))
      = some (entries, (f.behind (streamDict entries t)).dict) := by
  have hrows : rows? 1 (offsetWidth entries) 2 entries.length
      (packedRows entries) = some entries :=
    rows?_flatMap fun _ he => lt_pow_offsetWidth he
  have hdata : (f.behind (streamDict entries t)).data = f.data := rfl
  simp only [ofStream?, mapM_named?_behind, hdata, h,
    Filtered.get?_behind f (show Name.key "W" ≠ .key "Filter" by decide)
      (by decide),
    Filtered.get?_behind f (show Name.key "Index" ≠ .key "Filter" by decide)
      (by decide), get?_streamDict_w, get?_streamDict_index, naturals?,
    mapM_natural?, hrows, Option.bind_eq_bind, Option.bind_some,
    Option.map_some]

/-! ## Sections -/

/-- A table is read whatever expands compressed data. -/
theorem readSection?_table {entries : List Entry} {t : Trailer} {start : Nat}
    {bytes : Bytes} (inflate : Inflater)
    (h : table entries t start = .ok bytes) :
    readSection? inflate bytes = some (entries, t.dict entries.length) := by
  obtain ⟨-, -, hread⟩ := table?_of_table h
  -- whatever stands behind the keyword is left to the table
  obtain ⟨rest, hkeyword, htable⟩ := Option.bind_eq_some_iff.mp hread
  rw [readSection?, hkeyword]
  exact htable

/-- A section that is a stream is read as a stream. -/
theorem readSection?_numbered {s : StreamData} (inflate : Inflater)
    (own : Ref) (rest : Bytes) (h : Recognisable (.stream s)) :
    readSection? inflate (s.numbered own ++ rest) = ofStream? inflate s := by
  have hcontent : s.numbered own = (Content.stream s).numbered own := rfl
  -- it starts with a number, so it is not taken for a table
  have hnone : keyword? "xref" (s.numbered own ++ rest) = none := by
    obtain ⟨tail, htail⟩ := opening_prefix_numbered (.stream s) own
    rw [hcontent, ← htail, List.append_assoc]
    exact keyword?_opening own _ (by decide)
  rw [readSection?, hnone, hcontent, numbered?_append own rest h]

/-- What was coded behind a plain dictionary can be recognised. -/
theorem recognisable_behind {d : Dict} (f : Filtered)
    (h : d.isPlain = true) : Recognisable (.stream (f.behind d)) := by
  refine ⟨f.every_behind Object.passesCoding_isReadable h, ?_⟩
  show (Dict.withLength _ f.data).get? _ = _
  rw [Dict.get?_withLength, if_pos rfl]
  rfl

/-- A section that is a stream holds the compressed rows, in hexadecimal if
    the file has to be ASCII. -/
theorem stream_eq (settings : Settings) (compressor : Compressor)
    (places : Places) (own : Ref) (t : Trailer) (start : Nat) :
    let entries := (places.record own start).entries
    stream settings compressor places own t start
      = match compressor (packedRows entries) with
        | .ok packed => .ok (((Filtered.armored settings.asciiOnly
            ⟨packed, [.flate]⟩).behind (streamDict entries t)).numbered own
          ++ closing start)
        | .error message => .error (.compressionFailed (some own) message) := by
  intro entries
  rw [stream, filterData, if_pos rfl,
    show (places.record own start).entries.flatMap _ = packedRows entries
      from rfl, Filtered.compressed]
  cases compressor (packedRows entries) with
  | ok packed => rfl
  | error message => rfl

/-- The armor is undone first, and the compression behind it. -/
theorem undoAll?_armored_flate {inflate : Inflater} {packed data : Bytes}
    (asciiOnly : Bool) (h : inflate packed = some data) :
    let f := Filtered.armored asciiOnly ⟨packed, [.flate]⟩
    Filter.undoAll? inflate f.filters f.data = some data := by
  intro f
  obtain ⟨armor, harmor, hundo⟩ :=
    Filtered.armored_eq inflate asciiOnly ⟨packed, [.flate]⟩
  rw [harmor, Filter.undoAll?_append, hundo]
  show (inflate packed).bind some = some data
  rw [h]
  rfl

/-- **CROSS-REFERENCE STREAMS ARE READ BACK**: such a section is a numbered
    stream in front of the last lines, its dictionary carries the trailer, and
    whoever can expand its rows reads the entries that it was made from. -/
theorem readSection?_stream {settings : Settings} {compressor : Compressor}
    {places : Places} {own : Ref} {t : Trailer} {start : Nat} {bytes : Bytes}
    (h : stream settings compressor places own t start = .ok bytes) :
    let entries := (places.record own start).entries
    ∃ packed s, compressor (packedRows entries) = .ok packed
      ∧ bytes = s.numbered own ++ closing start
      ∧ Recognisable (.stream s)
      ∧ Heads entries t s.dict
      ∧ ∀ inflate : Inflater, inflate packed = some (packedRows entries) →
        readSection? inflate bytes = some (entries, s.dict) := by
  intro entries
  rw [stream_eq] at h
  cases hpacked : compressor (packedRows entries) with
  | error message =>
      rw [hpacked] at h
      cases h
  | ok packed =>
      rw [hpacked] at h
      have hrecognisable := recognisable_behind
        (Filtered.armored settings.asciiOnly ⟨packed, [.flate]⟩)
        (isPlain_streamDict entries t)
      refine ⟨packed, _, rfl, (Except.ok.inj h).symm, hrecognisable,
        .stream _, ?_⟩
      intro inflate hinflate
      rw [← Except.ok.inj h, readSection?_numbered inflate own _ hrecognisable]
      exact ofStream?_behind
        (undoAll?_armored_flate settings.asciiOnly hinflate)

end Pdf.Xref
