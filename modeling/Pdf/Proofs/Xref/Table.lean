import Pdf.Proofs.Syntax.Numbered
import Pdf.Proofs.Xref.Trailer

/-! # Tables, read back

    A reader finds the section by the number behind the last `startxref` of the
    file.  If the keyword `xref` stands there, the section is a table: a first
    number and a count, a record of twenty bytes for each entry, and the
    dictionary of the trailer.

    A record keeps its entry because the offset has at most ten digits, which
    is what the table was checked for. -/

namespace Pdf.Xref

open Bytes (byte ascii)
open Syntax

/-! ## Where the section starts -/

/-- What stands behind the last occurrence of a keyword. -/
def afterLast? (keyword : Bytes) : Bytes → Option Bytes
  | [] => none
  | b :: rest =>
      match afterLast? keyword rest with
      | some found => some found
      | none =>
          if keyword.isPrefixOf (b :: rest) then
            some ((b :: rest).drop keyword.length)
          else none

/-- The offset of the section that a file names last. -/
def start? (file : Bytes) : Option Nat := do
  let rest ← afterLast? (ascii "startxref") file
  let (start, _) ← natural? rest
  some start

/-- What stands in front of the last keyword does not matter. -/
theorem afterLast?_append {keyword found : Bytes} (front : Bytes)
    {rest : Bytes} (h : afterLast? keyword rest = some found) :
    afterLast? keyword (front ++ rest) = some found := by
  induction front with
  | nil => exact h
  | cons b front ih => rw [List.cons_append, afterLast?, ih]

/-- A keyword occurs nowhere without its first byte. -/
theorem afterLast?_eq_none {b : UInt8} {keyword rest : Bytes}
    (h : b ∉ rest) : afterLast? (b :: keyword) rest = none := by
  induction rest with
  | nil => rfl
  | cons c rest ih =>
      rw [List.mem_cons, not_or] at h
      obtain ⟨hc, hrest⟩ := h
      have hprefix : ¬ (b :: keyword).isPrefixOf (c :: rest) = true := by
        intro hp
        rw [List.isPrefixOf, Bool.and_eq_true] at hp
        exact hc (eq_of_beq hp.1)
      rw [afterLast?, ih hrest, if_neg hprefix]

/-- The number in the last lines is the last one of the file. -/
theorem start?_append_closing (front : Bytes) (start : Nat) :
    start? (front ++ closing start) = some start := by
  have hdigits : byte 's' ∉ Bytes.decimal start := by
    intro h
    obtain ⟨c, hc, he⟩ := List.mem_map.mp h
    have hdigit := Bytes.isDigit_of_mem_toDigits hc
    have hback := Bytes.ofNat_byte hdigit
    rw [he] at hback
    rw [← hback] at hdigit
    exact absurd hdigit (by decide)
  -- behind its first byte the keyword cannot start again
  have hrest : byte 's' ∉ ascii "tartxref\n"
      ++ (Bytes.decimal start ++ ascii "\n%%EOF\n") := by
    intro h
    rcases List.mem_append.mp h with h | h
    · exact absurd h (by decide)
    rcases List.mem_append.mp h with h | h
    · exact hdigits h
    · exact absurd h (by decide)
  have hlines : closing start = byte 's' :: (ascii "tartxref\n"
      ++ (Bytes.decimal start ++ ascii "\n%%EOF\n")) := by
    rw [closing, List.append_assoc]
    rfl
  have hfound : afterLast? (ascii "startxref") (closing start)
      = some (byte '\n' :: (Bytes.decimal start ++ ascii "\n%%EOF\n")) := by
    rw [hlines, afterLast?, show ascii "startxref"
      = byte 's' :: ascii "tartxref" from rfl, afterLast?_eq_none hrest]
    exact if_pos (List.isPrefixOf_iff_prefix.mpr
      (List.prefix_append (ascii "startxref") _))
  have hnumber : natural? (byte '\n' :: (Bytes.decimal start
      ++ ascii "\n%%EOF\n")) = some (start, ascii "\n%%EOF\n") :=
    natural?_space_decimal start (by decide) (endsWord_line _)
  rw [start?, afterLast?_append front hfound]
  simp only [hnumber, Option.bind_eq_bind, Option.bind_some]

/-! ## Records -/

/-- The entry of a record, and what stands behind it. -/
def record? (bytes : Bytes) : Option (Entry × Bytes) := do
  let first ← Text.digits? (Bytes.chars (bytes.take 10))
  let second ← Text.digits? (Bytes.chars ((bytes.drop 11).take 5))
  let kind := (bytes.drop 16).take 4
  if (bytes.drop 10).head? = some (byte ' ') ∧ second < 2 ^ 16 then
    if kind = ascii " n\r\n" then
      some (.inUse first second.toUInt16, bytes.drop 20)
    else if kind = ascii " f\r\n" ∧ first < 2 ^ 32 then
      some (.free first.toUInt32 second.toUInt16, bytes.drop 20)
    else none
  else none

/-- So many records, and what stands behind them. -/
def records? : (count : Nat) → Bytes → Option (List Entry × Bytes)
  | 0, bytes => some ([], bytes)
  | count + 1, bytes => do
      let (e, rest) ← record? bytes
      let (es, rest) ← records? count rest
      some (e :: es, rest)

/-- The fields of a record are found at their places. -/
theorem record?_fields {first second : Nat} {kind : Bytes} (rest : Bytes)
    (hfirst : first < 10 ^ 10) (hsecond : second < 2 ^ 16)
    (hkind : kind.length = 4) :
    record? (Bytes.paddedDecimal 10 first
        ++ byte ' ' :: (Bytes.paddedDecimal 5 second ++ (kind ++ rest)))
      = if kind = ascii " n\r\n" then
          some (.inUse first second.toUInt16, rest)
        else if kind = ascii " f\r\n" ∧ first < 2 ^ 32 then
          some (.free first.toUInt32 second.toUInt16, rest)
        else none := by
  have h10 : (Bytes.paddedDecimal 10 first).length = 10 :=
    Bytes.length_paddedDecimal_of_lt (by decide) hfirst
  have h5 : (Bytes.paddedDecimal 5 second).length = 5 :=
    Bytes.length_paddedDecimal_of_lt (by decide) (by omega)
  -- each field is cut off behind the fields in front of it
  generalize hbytes : Bytes.paddedDecimal 10 first
    ++ byte ' ' :: (Bytes.paddedDecimal 5 second ++ (kind ++ rest)) = bytes
  have htake : bytes.take 10 = Bytes.paddedDecimal 10 first := by
    rw [← hbytes, List.take_left' h10]
  have hdrop10 : bytes.drop 10
      = byte ' ' :: (Bytes.paddedDecimal 5 second ++ (kind ++ rest)) := by
    rw [← hbytes, List.drop_left' h10]
  have hdrop11 : bytes.drop 11
      = Bytes.paddedDecimal 5 second ++ (kind ++ rest) := by
    rw [← List.drop_drop (i := 1) (j := 10), hdrop10]
    rfl
  have hdrop16 : bytes.drop 16 = kind ++ rest := by
    rw [← List.drop_drop (i := 5) (j := 11), hdrop11, List.drop_left' h5]
  have hdrop20 : bytes.drop 20 = rest := by
    rw [← List.drop_drop (i := 4) (j := 16), hdrop16, List.drop_left' hkind]
  rw [record?, htake, hdrop11, List.take_left' h5, hdrop16,
    List.take_left' hkind, hdrop10, hdrop20,
    Bytes.digits?_chars_paddedDecimal, Bytes.digits?_chars_paddedDecimal]
  exact if_pos ⟨rfl, hsecond⟩

/-- A record is read back if its offset has at most ten digits. -/
theorem record?_append {e : Entry} (rest : Bytes)
    (h : ∀ offset generation, e = .inUse offset generation →
      offset ≤ largestOffset) :
    record? (e.record ++ rest) = some (e, rest) := by
  cases e with
  | free next generation =>
      have hnext : next.toNat < 2 ^ 32 := next.toNat_lt
      have happ : (Entry.free next generation).record ++ rest
          = Bytes.paddedDecimal 10 next.toNat ++ byte ' ' ::
            (Bytes.paddedDecimal 5 generation.toNat
              ++ (ascii " f\r\n" ++ rest)) := by
        simp [Entry.record]
      rw [happ, record?_fields rest (by omega) generation.toNat_lt rfl,
        if_neg (by decide), if_pos ⟨rfl, hnext⟩]
      rw [show next.toNat.toUInt32 = next from UInt32.ofNat_toNat,
        show generation.toNat.toUInt16 = generation from UInt16.ofNat_toNat]
  | inUse offset generation =>
      have hoffset : offset ≤ 9999999999 := h offset generation rfl
      have happ : (Entry.inUse offset generation).record ++ rest
          = Bytes.paddedDecimal 10 offset ++ byte ' ' ::
            (Bytes.paddedDecimal 5 generation.toNat
              ++ (ascii " n\r\n" ++ rest)) := by
        simp [Entry.record]
      rw [happ, record?_fields rest (by omega) generation.toNat_lt rfl,
        if_pos rfl]
      rw [show generation.toNat.toUInt16 = generation from UInt16.ofNat_toNat]

/-- Records are read back, in front of anything. -/
theorem records?_append {entries : List Entry} (rest : Bytes)
    (h : ∀ offset generation, .inUse offset generation ∈ entries →
      offset ≤ largestOffset) :
    records? entries.length (entries.flatMap Entry.record ++ rest)
      = some (entries, rest) := by
  induction entries with
  | nil => rfl
  | cons e entries ih =>
      have he : ∀ offset generation, e = .inUse offset generation →
          offset ≤ largestOffset := by
        rintro offset generation rfl
        exact h offset generation List.mem_cons_self
      have hrest := ih fun offset generation hm =>
        h offset generation (List.mem_cons_of_mem _ hm)
      rw [List.length_cons, List.flatMap_cons, List.append_assoc, records?]
      simp only [record?_append _ he, hrest, Option.bind_eq_bind,
        Option.bind_some]

/-! ## Tables -/

/-- The entries of a table whose keyword was just read, and the dictionary of
    its trailer. -/
def table? (bytes : Bytes) : Option (List Entry × Dict) := do
  let (first, rest) ← natural? bytes
  let (count, rest) ← natural? rest
  if first = 0 then
    let (entries, rest) ← records? count (skipSpace rest)
    let rest ← keyword? "trailer" rest
    let (object, _) ← read? rest
    let d ← object.dictionary?
    some (entries, d)
  else none

/-- No blank stands in front of a table's first record or of its trailer. -/
theorem skipSpace_records (entries : List Entry) (rest : Bytes) :
    skipSpace (byte '\n' :: (entries.flatMap Entry.record
      ++ (ascii "trailer" ++ rest)))
      = entries.flatMap Entry.record ++ (ascii "trailer" ++ rest) := by
  have hpadded : ∀ n (t : Bytes), skipSpace (Bytes.paddedDecimal 10 n ++ t)
      = Bytes.paddedDecimal 10 n ++ t := by
    intro n t
    have hne : Bytes.paddedDecimal 10 n ≠ [] :=
      List.append_ne_nil_of_right_ne_nil _ (Bytes.decimal_ne_nil n)
    have hreg : ∀ b ∈ Bytes.paddedDecimal 10 n, isRegular b = true := by
      intro b hb
      rcases List.mem_append.mp hb with hz | hd
      · rw [List.eq_of_mem_replicate hz]
        decide
      · exact isRegular_of_mem_decimal hd
    cases hp : Bytes.paddedDecimal 10 n with
    | nil => exact absurd hp hne
    | cons b bs =>
        refine skipSpace_of_not _ (isSpace_of_isRegular (hreg b ?_))
        rw [hp]
        exact List.mem_cons_self
  rw [skipSpace_of_isSpace _ (by decide)]
  cases entries with
  | nil => exact skipSpace_of_not _ (by decide)
  | cons e entries =>
      rw [List.flatMap_cons]
      cases e with
      | free next generation =>
          simp only [Entry.record, List.append_assoc]
          exact hpadded _ _
      | inUse offset generation =>
          simp only [Entry.record, List.append_assoc]
          exact hpadded _ _

/-- What the check of a table has ruled out. -/
theorem le_largestOffset {entries : List Entry} {offset : Nat}
    {generation : UInt16} (h : entries.zipIdx.findSome? tableError = none)
    (hm : .inUse offset generation ∈ entries) : offset ≤ largestOffset := by
  obtain ⟨i, hi⟩ := List.mem_iff_getElem?.mp hm
  have hpair : (.inUse offset generation, i) ∈ entries.zipIdx :=
    List.mk_mem_zipIdx_iff_getElem?.mpr hi
  have hnone := List.findSome?_eq_none_iff.mp h _ hpair
  rw [tableError] at hnone
  by_cases hlarge : largestOffset < offset
  · rw [if_pos hlarge] at hnone
    exact nomatch hnone
  · exact Nat.le_of_not_lt hlarge

theorem follows_closing (start : Nat) :
    Follows (byte '\n' :: closing start) := by
  have hlines : closing start = ascii "startxref" ++ byte '\n'
      :: (Bytes.decimal start ++ ascii "\n%%EOF\n") := by
    rw [closing, List.append_assoc]
    rfl
  rw [hlines]
  exact follows_line _ (by decide) (by decide) (by decide)

/-- **TABLES ARE READ BACK**: behind its keyword, a table is read as the
    entries and the trailer that it was made from. -/
theorem table?_of_table {entries : List Entry} {t : Trailer} {start : Nat}
    {bytes : Bytes} (h : table entries t start = .ok bytes) :
    ∃ front, bytes = front ++ closing start
      ∧ (keyword? "xref" bytes).bind table?
        = some (entries, t.dict entries.length) := by
  rw [table] at h
  split at h
  · exact nomatch h
  · next hcheck =>
      have hwhole := Except.ok.inj h
      refine ⟨_, hwhole.symm, ?_⟩
      -- the parts from the end to the front, each with what stands behind it
      let d : Object := .dictionary (t.dict entries.length)
      let trailer := byte '\n' :: (d.written ++ byte '\n' :: closing start)
      let records := byte '\n'
        :: (entries.flatMap Entry.record ++ (ascii "trailer" ++ trailer))
      have hbytes : bytes = ascii "xref" ++ byte '\n'
          :: (Bytes.decimal 0 ++ byte ' '
            :: (Bytes.decimal entries.length ++ records)) := by
        rw [← hwhole]
        simp only [List.append_assoc, records, trailer, d]
        rfl
      have hkeyword : keyword? "xref" bytes = some (byte '\n'
          :: (Bytes.decimal 0 ++ byte ' '
            :: (Bytes.decimal entries.length ++ records))) := by
        rw [hbytes]
        exact keyword?_append (by decide) (endsWord_line _)
      have hfirst : natural? (byte '\n' :: (Bytes.decimal 0 ++ byte ' '
          :: (Bytes.decimal entries.length ++ records)))
          = some (0, byte ' ' :: (Bytes.decimal entries.length ++ records)) :=
        natural?_space_decimal 0 (by decide) (endsWord_blank _)
      have hcount : natural? (byte ' '
          :: (Bytes.decimal entries.length ++ records))
          = some (entries.length, records) :=
        natural?_space_decimal _ (by decide) (endsWord_line _)
      have hrecords : records? entries.length (skipSpace records)
          = some (entries, ascii "trailer" ++ trailer) := by
        rw [skipSpace_records]
        exact records?_append _ fun _ _ hm => le_largestOffset hcheck hm
      have htrailer : keyword? "trailer" (ascii "trailer" ++ trailer)
          = some trailer :=
        keyword?_append (by decide) (endsWord_line _)
      have hdict : read? trailer = some (d, byte '\n' :: closing start) :=
        read?_line (t.isPlain_dict _) (follows_closing start)
      rw [hkeyword, Option.bind_some, table?]
      simp only [hfirst, hcount, hrecords, htrailer, hdict, d,
        Object.dictionary?, Option.bind_eq_bind, Option.bind_some, if_true]

end Pdf.Xref
