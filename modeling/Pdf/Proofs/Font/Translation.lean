import Pdf.Proofs.Document.Rejection

/-! # Translation — no code leads out of a table

    A source may give code mappings of any length.  They are cut off or filled
    up with zeros before anything is looked up in them, so a table has an entry
    for each code that there is.

    Here the tables are arrays, and to look something up beyond the end of one
    is to fail.  Putting in a line feed, laying one table over another and
    translating codes look up what they need in this way, and never fail: they
    do what the mappings of the library do. -/

namespace Pdf

/-! ## Tables with an end -/

namespace CodeTable

/-- The number of codes. -/
def codeCount : Nat := 65536

/-- The entries of all codes: what stands behind them is cut off, and missing
    ones are zero. -/
def resized (entries : Array UInt16) : Array UInt16 :=
  entries.extract 0 codeCount ++ Array.replicate (codeCount - entries.size) 0

/-- A table with a line feed under its code, if it is long enough. -/
def lineFed? (table : Array UInt16) : Option (Array UInt16) :=
  if h : CodeMap.lineFeedCode.toNat < table.size then
    some (table.set CodeMap.lineFeedCode.toNat 10 h)
  else none

/-- An entry that is laid over the one of a base; where it is zero, the base is
    looked up, if it is long enough. -/
def covering? (base : Array UInt16) (code : Nat) (entry : UInt16) :
    Option UInt16 :=
  if entry = 0 then base[code]? else some entry

/-- The entries from a code on, laid over a base. -/
def mergedFrom? (base : Array UInt16) (code : Nat) :
    List UInt16 → Option (List UInt16)
  | [] => some []
  | entry :: entries => do
      let merged ← covering? base code entry
      let rest ← mergedFrom? base (code + 1) entries
      return merged :: rest

/-- A table laid over a base. -/
def merged? (base top : Array UInt16) : Option (Array UInt16) :=
  (mergedFrom? base 0 top.toList).map List.toArray

/-- Whether a table has an entry for each code, and no others. -/
structure Lists (table : Array UInt16) (entry : UInt16 → UInt16) :
    Prop where
  size : table.size = codeCount
  get : ∀ code : UInt16, table[code.toNat]? = some (entry code)

/-- A table that was resized has as many entries as there are codes. -/
theorem size_resized (entries : Array UInt16) :
    (resized entries).size = codeCount := by
  rw [resized, Array.size_append, Array.size_extract, Array.size_replicate]
  omega

/-- It has the entry of the source, or zero. -/
theorem getElem?_resized (entries : Array UInt16) {code : Nat}
    (h : code < codeCount) :
    (resized entries)[code]? = some (entries.getD code 0) := by
  have hfront : (entries.extract 0 codeCount).size
      = min codeCount entries.size := Array.size_extract
  rw [resized, Array.getElem?_append, Array.getD_eq_getD_getElem?, hfront]
  by_cases hlt : code < entries.size
  · rw [if_pos (by omega), Array.getElem?_extract, if_pos (by omega),
      Nat.zero_add, Array.getElem?_eq_getElem hlt, Option.getD_some]
  · rw [if_neg (by omega), Array.getElem?_replicate, if_pos (by omega),
      Array.getElem?_eq_none (by omega), Option.getD_none]

/-- A base with an entry for the code is enough. -/
theorem covering?_eq_some {base : Array UInt16} {code : Nat}
    (h : code < base.size) (entry : UInt16) :
    ∃ merged, covering? base code entry = some merged := by
  rw [covering?]
  by_cases he : entry = 0
  · rw [if_pos he]
    exact ⟨base[code], Array.getElem?_eq_getElem h⟩
  · rw [if_neg he]
    exact ⟨entry, rfl⟩

/-- A base that is long enough is never looked up beyond its end. -/
theorem mergedFrom?_eq_some {base : Array UInt16} {code : Nat}
    {entries : List UInt16} (h : code + entries.length ≤ base.size) :
    ∃ merged, mergedFrom? base code entries = some merged
      ∧ merged.length = entries.length
      ∧ ∀ i entry, entries[i]? = some entry →
        merged[i]? = covering? base (code + i) entry := by
  induction entries generalizing code with
  | nil => exact ⟨[], rfl, rfl, fun _ _ hi => nomatch hi⟩
  | cons entry entries ih =>
      rw [List.length_cons] at h
      obtain ⟨rest, hrest, hlength, hget⟩ := @ih (code + 1) (by omega)
      have hcode : code < base.size := by omega
      obtain ⟨first, hfirst⟩ := covering?_eq_some hcode entry
      refine ⟨first :: rest, ?_, congrArg (· + 1) hlength, ?_⟩
      · rw [mergedFrom?, hfirst, hrest]
        rfl
      · intro i other hi
        cases i with
        | zero =>
            rw [← Option.some.inj hi]
            exact hfirst.symm
        | succ i =>
            have hother := hget i other hi
            rw [Nat.add_assoc, Nat.add_comm 1 i] at hother
            exact hother

/-- A base that is too short is noticed where the other table is zero. -/
example : merged? #[7] #[0, 8] = some #[7, 8]
    ∧ merged? #[7] #[8, 0] = none := by decide

end CodeTable

open CodeTable

/-! ## The tables of mappings -/

namespace CodeMap

/-- The entries of a mapping as a table. -/
def entries (m : CodeMap) : Array UInt16 := m.table.toArray

theorem size_entries (m : CodeMap) : m.entries.size = codeCount :=
  m.table.size_toArray

theorem getElem?_entries (m : CodeMap) (code : UInt16) :
    m.entries[code.toNat]? = some (m.get code) := by
  have hlt : code.toNat < m.entries.size := by
    rw [size_entries]
    exact code.toNat_lt
  rw [Array.getElem?_eq_getElem hlt]
  rfl

/-- A mapping is a table with an entry for each code. -/
theorem lists_entries (m : CodeMap) : Lists m.entries m.get :=
  ⟨m.size_entries, m.getElem?_entries⟩

/-- A mapping is all that is looked up in it. -/
theorem eq_entries {table : Array UInt16} {m : CodeMap}
    (h : Lists table m.get) : table = m.entries := by
  refine Array.ext_getElem? ?_
  intro i
  by_cases hi : i < codeCount
  · have hcode : i.toUInt16.toNat = i := Nat.mod_eq_of_lt hi
    rw [← hcode, h.get, m.getElem?_entries]
  · rw [Array.getElem?_eq_none (by rw [h.size]; omega),
      Array.getElem?_eq_none (by rw [size_entries]; omega)]

/-- What is loaded is cut off or filled up. -/
theorem resized_eq (raw : Array UInt16) :
    resized raw = (ofArray raw).entries := by
  refine eq_entries ⟨size_resized raw, ?_⟩
  intro code
  rw [getElem?_resized raw code.toNat_lt, get_ofArray]

/-- The code of a line feed is within the table. -/
theorem lineFed?_entries (m : CodeMap) :
    lineFed? m.entries = some m.withLineFeed.entries := by
  have hlt : lineFeedCode.toNat < m.entries.size := by
    rw [size_entries]
    exact lineFeedCode.toNat_lt
  rw [lineFed?, dif_pos hlt]
  rfl

/-- The base is as long as what is laid over it. -/
theorem merged?_entries (base top : CodeMap) :
    merged? base.entries top.entries = some (base.overlay top).entries := by
  have hlength : top.entries.toList.length = codeCount := by
    rw [Array.length_toList, size_entries]
  obtain ⟨merged, hmerged, hsize, hget⟩ :=
    @mergedFrom?_eq_some base.entries 0 top.entries.toList
      (by rw [hlength, size_entries]; omega)
  rw [merged?, hmerged, Option.map_some]
  refine congrArg some (eq_entries ⟨hsize.trans hlength, ?_⟩)
  intro code
  have hentry := top.getElem?_entries code
  rw [← Array.getElem?_toList] at hentry
  rw [List.getElem?_toArray, hget _ _ hentry, Nat.zero_add, covering?,
    base.getElem?_entries, get_overlay]
  by_cases h : top.get code = 0
  · rw [if_pos h, if_pos h]
  · rw [if_neg h, if_neg h]

end CodeMap

namespace CompositeFont

/-! ## Texts, translated by a table -/

/-- The character identifier of a code. -/
def cidOf? (f : CompositeFont) (table : Array UInt16) (code : UInt16) :
    Option UInt16 :=
  if f.isDirect then some code else table[code.toNat]?

/-- The Unicode code of a code. -/
def unicodeOf? (f : CompositeFont) (table : Array UInt16) (code : UInt16) :
    Option UInt16 :=
  if f.isDirect then table[code.toNat]? else some code

/-- The character identifiers of a text. -/
def cids? (f : CompositeFont) (table : Array UInt16) (text : String) :
    Option (List UInt16) :=
  (Text.units text).mapM (f.cidOf? table)

/-- The font that has shown a text, and the bytes that show it. -/
def encode? (f : CompositeFont) (table : Array UInt16) (text : String) :
    Option (CompositeFont × Bytes) :=
  (f.cids? table text).map fun cids =>
    ({ f with used := cids.foldl (·.insert ·) f.used }, shown text)

/-- The advance of a text. -/
def width? (f : CompositeFont) (table : Array UInt16) (text : String) :
    Option (Except Error Int32) :=
  (f.cids? table text).map fun cids => Advances.fit
    (cids.foldl (fun total cid => total + (f.advanceOf cid).toInt) 0)

section

variable {f : CompositeFont} {table : Array UInt16}

/-- To look up a character identifier never fails. -/
theorem cidOf?_eq_some (h : Lists table f.codes.get) (code : UInt16) :
    f.cidOf? table code = some (f.cidOf code) := by
  rw [cidOf?, cidOf]
  cases f.isDirect with
  | true => rfl
  | false => exact h.get code

/-- To look up a code never fails. -/
theorem unicodeOf?_eq_some (h : Lists table f.codes.get) (code : UInt16) :
    f.unicodeOf? table code = some (f.unicodeOf code) := by
  rw [unicodeOf?, unicodeOf]
  cases f.isDirect with
  | true => exact h.get code
  | false => rfl

/-- The characters of a text all have identifiers in the table. -/
theorem cids?_eq_some (h : Lists table f.codes.get) (text : String) :
    f.cids? table text = some (f.cids text) := by
  rw [cids?, cids]
  induction Text.units text with
  | nil => rfl
  | cons unit units ih =>
      rw [List.mapM_cons, cidOf?_eq_some h unit, ih]
      rfl

/-- A text is encoded by the table as by the mapping. -/
theorem encode?_eq_some (h : Lists table f.codes.get) (text : String) :
    f.encode? table text = some (f.use text, shown text) := by
  rw [encode?, cids?_eq_some h, Option.map_some, use]

/-- A text is measured by the table as by the mapping. -/
theorem width?_eq_some (h : Lists table f.codes.get) (text : String) :
    f.width? table text = some (f.width text) := by
  rw [width?, cids?_eq_some h, Option.map_some, width]

end

/-- Whether a font finds all that it looks up in a table, whatever it is asked
    to translate, to show or to measure. -/
structure Translates (f : CompositeFont) (table : Array UInt16) : Prop where
  cidOf : ∀ code, f.cidOf? table code = some (f.cidOf code)
  unicodeOf : ∀ code, f.unicodeOf? table code = some (f.unicodeOf code)
  encode : ∀ text, f.encode? table text = some (f.use text, shown text)
  width : ∀ text, f.width? table text = some (f.width text)

/-- The table of a font does what its mapping does. -/
theorem translates_entries (f : CompositeFont) :
    f.Translates f.codes.entries :=
  have h := f.codes.lists_entries
  ⟨cidOf?_eq_some h, unicodeOf?_eq_some h, encode?_eq_some h,
    width?_eq_some h⟩

end CompositeFont

/-! ## The tables of a source -/

namespace FontSource

/-- A code mapping as it is loaded. -/
def rawMapping (s : FontSource) (name : String) :
    Except Error (Array UInt16) :=
  (s.codeMapping name).mapError (FontLibrary.loadError name)

/-- The table of a font from character identifiers to Unicode; none if it is
    too short for a line feed. -/
def unicodeTable (s : FontSource) (font : String) :
    Except Error (Option (Array UInt16)) := do
  let entry ← found font (s.fontEntry font)
  let raw ← s.rawMapping (FontLibrary.mappingName entry)
  return lineFed? (resized raw)

/-- The table that the words of an encoding's entry describe; none if a base is
    too short for what is laid over it. -/
def composedTable (s : FontSource) (encoding : String) :
    List (List Char) → Except Error (Option (Array UInt16))
  | [] => .error (.missingResource encoding)
  | [base] => do
      let base ← s.rawMapping (String.ofList base)
      return some (resized base)
  | base :: top :: _ => do
      let base ← s.rawMapping (String.ofList base)
      let top ← s.rawMapping (String.ofList top)
      return merged? (resized base) (resized top)

/-- The table of an encoding from its codes to character identifiers. -/
def encodingTable (s : FontSource) (encoding : String) :
    Except Error (Option (Array UInt16)) := do
  let entry ← found encoding (s.encodingEntry encoding)
  s.composedTable encoding (Text.words entry.toList)

variable (s : FontSource)

/-- A mapping is what the source has, resized. -/
theorem mapping_eq (name : String) :
    s.mapping name = (s.rawMapping name).map CodeMap.ofArray := by
  rw [mapping, rawMapping]
  cases s.codeMapping name with
  | ok raw => rfl
  | error cause => rfl

/-- The table of a font's characters is read without a failure. -/
theorem unicodeTable_eq (font : String) : s.unicodeTable font
    = (s.unicodeMap font).map fun m => some m.entries := by
  rw [unicodeTable, unicodeMap]
  cases found font (s.fontEntry font) with
  | error e => rfl
  | ok entry =>
      show (do return lineFed? (resized (← s.rawMapping _)))
        = (s.lineFedMapping (FontLibrary.mappingName entry)).map _
      rw [lineFedMapping, mapping_eq]
      cases s.rawMapping (FontLibrary.mappingName entry) with
      | error e => rfl
      | ok raw =>
          show Except.ok (lineFed? (resized raw)) = _
          rw [CodeMap.resized_eq, CodeMap.lineFed?_entries]
          rfl

/-- The table that words describe is put together without a failure. -/
theorem composedTable_eq (encoding : String) (words : List (List Char)) :
    s.composedTable encoding words
      = (s.composed encoding words).map fun m => some m.entries := by
  cases words with
  | nil => rfl
  | cons base words =>
      cases words with
      | nil =>
          rw [composedTable, composed, mapping_eq]
          cases s.rawMapping (String.ofList base) with
          | error e => rfl
          | ok base =>
              show Except.ok (some (resized base)) = _
              rw [CodeMap.resized_eq]
              rfl
      | cons top words =>
          rw [composedTable, composed, mapping_eq, mapping_eq]
          cases s.rawMapping (String.ofList base) with
          | error e => rfl
          | ok base =>
              cases s.rawMapping (String.ofList top) with
              | error e => rfl
              | ok top =>
                  show Except.ok (merged? (resized base) (resized top)) = _
                  rw [CodeMap.resized_eq, CodeMap.resized_eq,
                    CodeMap.merged?_entries]
                  rfl

/-- The table of an encoding is put together without a failure. -/
theorem encodingTable_eq (encoding : String) : s.encodingTable encoding
    = (s.encodingMap encoding).map fun m => some m.entries := by
  rw [encodingTable, encodingMap]
  cases found encoding (s.encodingEntry encoding) with
  | error e => rfl
  | ok entry => exact s.composedTable_eq encoding _

/-! ## What is found in them -/

variable {s : FontSource} {m : CodeMap}

/-- What one step after another gives, the first one gives something for. -/
theorem exists_of_bind_eq_ok {α β : Type} {x : Except Error α}
    {f : α → Except Error β} {value : β} (h : (x >>= f) = .ok value) :
    ∃ a, x = .ok a ∧ f a = .ok value := by
  cases x with
  | error e => cases h
  | ok a => exact ⟨a, rfl, h⟩

theorem eq_some_of_found {α : Type} {name : String} {value? : Option α}
    {value : α} (h : found name value? = .ok value) : value? = some value := by
  cases value? with
  | none => cases h
  | some a => exact congrArg some (Except.ok.inj h)

/-- A mapping that is read was there to be resized. -/
theorem exists_of_mapping_eq_ok {name : String} (h : s.mapping name = .ok m) :
    ∃ raw, s.codeMapping name = .ok raw ∧ m = .ofArray raw := by
  rw [mapping] at h
  cases hraw : s.codeMapping name with
  | ok raw =>
      rw [hraw] at h
      exact ⟨raw, rfl, (Except.ok.inj h).symm⟩
  | error cause =>
      rw [hraw] at h
      cases h

/-- The mapping of a font has a line feed put into what was there. -/
theorem exists_of_unicodeMap_eq_ok {font : String}
    (h : s.unicodeMap font = .ok m) :
    ∃ entry raw, s.fontEntry font = some entry
      ∧ s.codeMapping (FontLibrary.mappingName entry) = .ok raw
      ∧ m = (CodeMap.ofArray raw).withLineFeed := by
  rw [unicodeMap] at h
  obtain ⟨entry, hentry, hfed⟩ := exists_of_bind_eq_ok h
  obtain ⟨bare, hbare, hm⟩ := exists_of_bind_eq_ok hfed
  obtain ⟨raw, hraw, rfl⟩ := exists_of_mapping_eq_ok hbare
  exact ⟨entry, raw, eq_some_of_found hentry, hraw, (Except.ok.inj hm).symm⟩

/-- The first word leads to the base, and the second one to what is laid over
    it. -/
theorem exists_of_encodingMap_eq_ok {encoding : String}
    (h : s.encodingMap encoding = .ok m) :
    ∃ entry base rest raw, s.encodingEntry encoding = some entry
      ∧ Text.words entry.toList = base :: rest
      ∧ s.codeMapping (String.ofList base) = .ok raw
      ∧ match rest with
        | [] => m = .ofArray raw
        | top :: _ => ∃ upper, s.codeMapping (String.ofList top) = .ok upper
          ∧ m = (CodeMap.ofArray raw).overlay (.ofArray upper) := by
  rw [encodingMap] at h
  obtain ⟨entry, hentry, hcomposed⟩ := exists_of_bind_eq_ok h
  have hsome := eq_some_of_found hentry
  cases hwords : Text.words entry.toList with
  | nil =>
      rw [hwords] at hcomposed
      cases hcomposed
  | cons base rest =>
      rw [hwords] at hcomposed
      cases rest with
      | nil =>
          obtain ⟨raw, hraw, hm⟩ := exists_of_mapping_eq_ok hcomposed
          exact ⟨entry, base, [], raw, hsome, hwords, hraw, hm⟩
      | cons top rest =>
          obtain ⟨b, hb, hcomposed⟩ := exists_of_bind_eq_ok hcomposed
          obtain ⟨t, ht, hm⟩ := exists_of_bind_eq_ok hcomposed
          obtain ⟨raw, hraw, rfl⟩ := exists_of_mapping_eq_ok hb
          obtain ⟨upper, hupper, rfl⟩ := exists_of_mapping_eq_ok ht
          exact ⟨entry, base, top :: rest, raw, hsome, hwords, hraw, upper,
            hupper, (Except.ok.inj hm).symm⟩

end FontSource

namespace CompositeFont

/-- A font translates by the mapping that its name and its encoding lead to. -/
theorem codesFrom_of_createFrom {s : FontSource} {font encoding : String}
    {f : CompositeFont} (h : createFrom s font encoding = .ok f) :
    f.encoding = encoding ∧ codesFrom s f.name encoding = .ok f.codes := by
  rw [createFrom] at h
  cases hname : nameAndStyle font with
  | mk name style =>
      rw [hname] at h
      cases hsupports : FontLibrary.supports { source := s } name encoding with
      | false =>
          simp only [hsupports] at h
          cases h
      | true =>
          simp only [hsupports] at h
          obtain ⟨codes, hcodes, hrest⟩ := FontSource.exists_of_bind_eq_ok h
          obtain ⟨metrics, -, hf⟩ := FontSource.exists_of_bind_eq_ok hrest
          obtain rfl := Except.ok.inj hf
          exact ⟨rfl, hcodes⟩

end CompositeFont

namespace FontLibrary

open CompositeFont

variable {l : FontLibrary}

/-- **EVERY CODE IS TRANSLATED.**  Of whatever lengths the mappings of a source
    are, and whatever its library was asked before: the tables that the library
    hands out are those that come from looking up what is needed, and nothing
    is looked up beyond the end of a table.  Each of them has an entry for each
    code: that of the mapping, or a line feed; that of the overlay, or of the
    base where there is none.  So a font finds whatever it looks up in its
    table. -/
theorem tables_total (h : l.Reachable) :
    (∀ font, l.source.unicodeTable font
        = ((unicodeMap font).run l).result.map fun m => some m.entries)
      ∧ (∀ encoding, l.source.encodingTable encoding
        = ((encodingMap encoding).run l).result.map fun m => some m.entries)
      ∧ (∀ font m, ((unicodeMap font).run l).result = .ok m →
        ∃ entry raw, l.source.fontEntry font = some entry
          ∧ l.source.codeMapping (mappingName entry) = .ok raw
          ∧ Lists m.entries fun code =>
            if code = CodeMap.lineFeedCode then 10 else raw.getD code.toNat 0)
      ∧ (∀ encoding m, ((encodingMap encoding).run l).result = .ok m →
        ∃ entry base rest raw, l.source.encodingEntry encoding = some entry
          ∧ Text.words entry.toList = base :: rest
          ∧ l.source.codeMapping (String.ofList base) = .ok raw
          ∧ match rest with
            | [] => Lists m.entries fun code => raw.getD code.toNat 0
            | top :: _ => ∃ upper,
              l.source.codeMapping (String.ofList top) = .ok upper
                ∧ Lists m.entries fun code =>
                  if upper.getD code.toNat 0 = 0 then raw.getD code.toNat 0
                  else upper.getD code.toNat 0)
      ∧ ∀ font encoding f, ((create font encoding).run l).result = .ok f →
        f.encoding = encoding
          ∧ (if isIdentity encoding then l.source.unicodeTable f.name
            else l.source.encodingTable encoding) = .ok (some f.codes.entries)
          ∧ ∀ used, { f with used }.Translates f.codes.entries := by
  have hunicode := fun font =>
    (answers_unicodeMap l.source font l h.sound rfl).result
  have hencoding := fun encoding =>
    (answers_encodingMap l.source encoding l h.sound rfl).result
  refine ⟨?_, ?_, ?_, ?_, ?_⟩
  · intro font
    rw [hunicode font]
    exact l.source.unicodeTable_eq font
  · intro encoding
    rw [hencoding encoding]
    exact l.source.encodingTable_eq encoding
  · intro font m hm
    rw [hunicode font] at hm
    obtain ⟨entry, raw, hentry, hraw, rfl⟩ :=
      FontSource.exists_of_unicodeMap_eq_ok hm
    refine ⟨entry, raw, hentry, hraw, CodeMap.size_entries _, ?_⟩
    intro code
    rw [CodeMap.getElem?_entries, CodeMap.get_withLineFeed,
      CodeMap.get_ofArray]
  · intro encoding m hm
    rw [hencoding encoding] at hm
    obtain ⟨entry, base, rest, raw, hentry, hwords, hraw, hrest⟩ :=
      FontSource.exists_of_encodingMap_eq_ok hm
    refine ⟨entry, base, rest, raw, hentry, hwords, hraw, ?_⟩
    cases rest with
    | nil =>
        obtain rfl := hrest
        refine ⟨CodeMap.size_entries _, ?_⟩
        intro code
        rw [CodeMap.getElem?_entries, CodeMap.get_ofArray]
    | cons top rest =>
        obtain ⟨upper, hupper, rfl⟩ := hrest
        refine ⟨upper, hupper, CodeMap.size_entries _, ?_⟩
        intro code
        rw [CodeMap.getElem?_entries, CodeMap.get_overlay,
          CodeMap.get_ofArray, CodeMap.get_ofArray]
  · intro font encoding f hf
    rw [(answers_create l.source font encoding l h.sound rfl).result] at hf
    obtain ⟨hname, hcodes⟩ := codesFrom_of_createFrom hf
    refine ⟨hname, ?_, fun used => translates_entries { f with used }⟩
    rw [codesFrom] at hcodes
    cases hidentity : isIdentity encoding with
    | true =>
        rw [hidentity, if_pos rfl] at hcodes
        rw [if_pos rfl, FontSource.unicodeTable_eq, hcodes]
        rfl
    | false =>
        rw [hidentity, if_neg Bool.false_ne_true] at hcodes
        rw [if_neg Bool.false_ne_true, FontSource.encodingTable_eq, hcodes]
        rfl

/-- A source with two short mappings, one laid over the other. -/
def shortSource : FontSource where
  fontEntry _ := some "J_H_"
  encodingEntry encoding := if encoding = "H" then some "J K" else none
  metricRecord font :=
    if font = "Gothic" then some CompositeFont.negativeRecord else none
  codeMapping name :=
    if name = "J" then .ok #[7, 9]
    else if name = "K" then .ok #[0, 8]
    else .error (FontTables.noMapping name)

/-- The composite font that the library gives. -/
def shortFont : CompositeFont where
  name := "Gothic"
  style := ""
  encoding := "H"
  codes := (CodeMap.ofArray #[7, 9]).overlay (.ofArray #[0, 8])
  metrics := CompositeFont.negativeFont.metrics

/-- Mappings with one entry, and with none, are enough. -/
theorem tables_total_short :
    let l : FontLibrary := { source := shortSource }
    ∃ m upper, ((unicodeMap "Gothic").run l).result = .ok m
      ∧ ((encodingMap "H").run l).result = .ok upper
      ∧ ((create "Gothic" "H").run l).result = .ok shortFont
      ∧ m.entries[0xFF00]? = some 10 ∧ m.entries[0xFFFF]? = some 0
      ∧ upper.entries[0]? = some 7 ∧ upper.entries[1]? = some 8
      ∧ upper.entries[0xFFFF]? = some 0
      ∧ shortFont.Translates shortFont.codes.entries := by
  intro l
  have hunicode : ((unicodeMap "Gothic").run l).result
      = .ok (CodeMap.ofArray #[7, 9]).withLineFeed :=
    (answers_unicodeMap shortSource "Gothic" l (sound_fresh _) rfl).result
  have hencoding : ((encodingMap "H").run l).result
      = .ok ((CodeMap.ofArray #[7, 9]).overlay (.ofArray #[0, 8])) :=
    (answers_encodingMap shortSource "H" l (sound_fresh _) rfl).result
  have hcreate : ((create "Gothic" "H").run l).result = .ok shortFont :=
    (answers_create shortSource "Gothic" "H" l (sound_fresh _) rfl).result
  obtain ⟨-, -, htables, hencodings, hfonts⟩ :=
    tables_total (.fresh shortSource)
  obtain ⟨entry, raw, hentry, hraw, hlists⟩ := htables _ _ hunicode
  obtain rfl := Option.some.inj hentry
  obtain rfl := Except.ok.inj hraw
  obtain ⟨entry, base, rest, raw, hentry, hwords, hraw, hrest⟩ :=
    hencodings _ _ hencoding
  obtain rfl := Option.some.inj hentry
  obtain ⟨rfl, rfl⟩ := List.cons.inj hwords
  obtain rfl := Except.ok.inj hraw
  obtain ⟨upper, hupper, hmerged⟩ := hrest
  obtain rfl := Except.ok.inj hupper
  exact ⟨_, _, hunicode, hencoding, hcreate, hlists.get 0xFF00,
    hlists.get 0xFFFF, hmerged.get 0, hmerged.get 1, hmerged.get 0xFFFF,
    (hfonts _ _ _ hcreate).2.2 .empty⟩

end FontLibrary

end Pdf
