import Pdf.Proofs.Filter.Undo

/-! # Filter chains — what is listed, and what was done

    The filters that a stream lists are those that were put in front of it and
    those that it listed before, as names.  What was put in front is of two
    kinds: the filter under which the data is coded, which is either the
    compression or the filter that the policy says has been applied already
    (`coding`), and the hexadecimal digits around binary data (`armor`).  Only
    the compression and the digits were really applied; undoing these two leads
    back to the data, whatever stands behind them in the list. -/

namespace Pdf

/-! ## Lists of names -/

namespace Dict

/-- The names of the filters of a dictionary, if its entry is a name or an array
    of names or does not exist at all. -/
def filterNames? (d : Dict) : Option (List Name) :=
  match d.get? (.key "Filter") with
  | none => some []
  | some (.name n) => some [n]
  | some (.array items) => items.mapM Object.name?
  | some _ => none

/-- Objects are read as names exactly if they are these names. -/
theorem mapM_name?_eq_some_iff {items : List Object} {names : List Name} :
    items.mapM Object.name? = some names ↔ items = names.map .name := by
  induction items generalizing names with
  | nil =>
      constructor
      · intro h
        rw [← Option.some.inj h]
        rfl
      · intro h
        rw [List.map_eq_nil_iff.mp h.symm]
        rfl
  | cons item items ih =>
      rw [List.mapM_cons]
      cases item with
      | name n =>
          constructor
          · intro h
            obtain ⟨n', hn, htail⟩ := Option.bind_eq_some_iff.mp h
            obtain ⟨rest, hrest, he⟩ := Option.bind_eq_some_iff.mp htail
            rw [← Option.some.inj he, List.map_cons, ih.mp hrest,
              Option.some.inj hn]
          · intro h
            obtain ⟨n', rest, rfl, hn, hrest⟩ := List.map_eq_cons_iff.mp h.symm
            rw [← Object.name.inj hn, ih.mpr hrest.symm]
            rfl
      | _ =>
          constructor
          · intro h
            cases h
          · intro h
            obtain ⟨n', rest, -, hn, -⟩ := List.map_eq_cons_iff.mp h.symm
            cases hn

/-- Names are listed if the filters are names, in whichever form. -/
theorem filterNames?_eq_some_iff {d : Dict} {names : List Name} :
    d.filterNames? = some names ↔ d.filterList = names.map .name := by
  have hsingle : ∀ o : Object, [o] = names.map Object.name →
      ∃ n, o = .name n ∧ names = [n] := by
    intro o h
    obtain ⟨n, rest, rfl, hn, hrest⟩ := List.map_eq_cons_iff.mp h.symm
    rw [List.map_eq_nil_iff.mp hrest]
    exact ⟨n, hn.symm, rfl⟩
  rw [filterNames?, filterList]
  cases d.get? (.key "Filter") with
  | none =>
      constructor
      · intro h
        rw [← Option.some.inj h]
        rfl
      · intro h
        rw [List.map_eq_nil_iff.mp h.symm]
  | some o =>
      cases o with
      | name n =>
          constructor
          · intro h
            rw [← Option.some.inj h]
            rfl
          · intro h
            obtain ⟨n', hn, rfl⟩ := hsingle _ h
            rw [Object.name.inj hn]
      | array items => exact mapM_name?_eq_some_iff
      | _ =>
          constructor
          · intro h
            cases h
          · intro h
            obtain ⟨n, hn, -⟩ := hsingle _ h
            cases hn

end Dict

/-! ## The filters of a stream -/

/-- The filter that the data of a stream has gone through already. -/
def Policy.own : Policy → List Filter
  | encoded filter => [filter]
  | _ => []

/-- Whether a policy has data compressed. -/
def Policy.compresses (settings : Settings) : Policy → Bool
  | automatic => settings.compress
  | compressed => true
  | uncompressed => false
  | encoded _ => false

namespace Stream

/-- The filter under which the data of a stream is coded, if there is one. -/
def coding (settings : Settings) (s : Stream) : List Filter :=
  if s.policy.compresses settings then [.flate] else s.policy.own

/-- Whether the data is spelled in hexadecimal. -/
def isArmored (settings : Settings) (s : Stream) : Bool :=
  settings.asciiOnly && (s.coding settings).any Filter.leavesBinary

/-- The filter around the coded data, if there is one. -/
def armor (settings : Settings) (s : Stream) : List Filter :=
  if s.isArmored settings then [.asciiHex] else []

/-- The filters that were applied to the data, the last one in front. -/
def applied (settings : Settings) (s : Stream) : List Filter :=
  s.armor settings ++ if s.policy.compresses settings then [.flate] else []

/-- The data of a stream as it is written, once it is coded. -/
def spelled (settings : Settings) (s : Stream) (packed : Bytes) : Bytes :=
  if s.isArmored settings then hexLines packed else packed

/-- What the policy makes of the data of a stream. -/
def Packs (settings : Settings) (compressor : Compressor) (s : Stream)
    (packed : Bytes) : Prop :=
  if s.policy.compresses settings then compressor s.data = .ok packed
  else packed = s.data

/-- The data of a stream is compressed under its policy, or left as it is with
    its own filter listed. -/
theorem filtered_eq (settings : Settings) (compressor : Compressor)
    (s : Stream) :
    s.filtered settings compressor = if s.policy.compresses settings
      then Filtered.compressed compressor s.data
      else .ok ⟨s.data, s.policy.own⟩ := by
  rw [filtered]
  cases s.policy with
  | automatic => rfl
  | compressed => rfl
  | uncompressed => rfl
  | encoded filter => rfl

/-- A coded stream is armored as its settings and its coding say. -/
theorem armored_coding {settings : Settings} {s : Stream} (packed : Bytes) :
    Filtered.armored settings.asciiOnly ⟨packed, s.coding settings⟩
      = ⟨s.spelled settings packed,
        s.armor settings ++ s.coding settings⟩ := by
  have hbinary : Filtered.isBinary ⟨packed, s.coding settings⟩
      = (s.coding settings).any Filter.leavesBinary := by
    rw [Filtered.isBinary, coding]
    cases s.policy.compresses settings with
    | true => rfl
    | false =>
        cases s.policy with
        | encoded filter => exact (Bool.or_false _).symm
        | _ => rfl
  rw [Filtered.armored, hbinary, spelled, armor, isArmored]
  split
  · rfl
  · rfl

/-- Encoding packs the data, spells it, and describes what was done. -/
theorem encode_eq_ok_iff {settings : Settings} {compressor : Compressor}
    {s : Stream} {e : StreamData} :
    s.encode settings compressor = .ok e
      ↔ ∃ packed, s.Packs settings compressor packed
        ∧ e = Filtered.behind ⟨s.spelled settings packed,
          s.armor settings ++ s.coding settings⟩ s.dict := by
  rw [encode, filtered_eq]
  simp only [Packs, ← armored_coding]
  rw [coding]
  cases s.policy.compresses settings with
  | true =>
      rw [if_pos rfl, if_pos rfl, Filtered.compressed]
      cases compressor s.data with
      | ok packed => simp [Except.map, eq_comm]
      | error message => simp [Except.map]
  | false => simp [Except.map, eq_comm]

/-- An encoded stream has the entries that describe its coding, and those that
    it had. -/
theorem exists_behind_of_encode {settings : Settings} {compressor : Compressor}
    {s : Stream} {e : StreamData} (h : s.encode settings compressor = .ok e) :
    ∃ f : Filtered, e = f.behind s.dict := by
  obtain ⟨packed, -, he⟩ := encode_eq_ok_iff.mp h
  exact ⟨_, he⟩

/-- Encoding fails only if the data is to be compressed and cannot be. -/
theorem encode_eq_error_iff {settings : Settings} {compressor : Compressor}
    {s : Stream} {e : Error} :
    s.encode settings compressor = .error e
      ↔ s.policy.compresses settings = true
        ∧ ∃ message, compressor s.data = .error message
          ∧ e = .compressionFailed none message := by
  rw [encode, filtered_eq]
  cases s.policy.compresses settings with
  | true =>
      rw [if_pos rfl, Filtered.compressed]
      cases compressor s.data with
      | ok packed => simp [Except.map]
      | error message => simp [Except.map, eq_comm]
  | false => simp [Except.map]

/-- Of the filters in front, all were applied but the one of the policy. -/
theorem armor_append_coding (settings : Settings) (s : Stream) :
    s.armor settings ++ s.coding settings
      = s.applied settings ++ s.policy.own := by
  rw [applied, coding, List.append_assoc]
  congr 1
  cases hc : s.policy.compresses settings with
  | true =>
      cases hp : s.policy with
      | encoded filter =>
          rw [hp] at hc
          cases hc
      | _ => rfl
  | false => rfl

/-- The hexadecimal digits are undone first, then the compression. -/
theorem undoAll?_applied {inflate : Inflater} {compressor : Compressor}
    {settings : Settings} {s : Stream} {packed : Bytes}
    (h : Inverts inflate compressor)
    (hpacks : s.Packs settings compressor packed) :
    Filter.undoAll? inflate (s.applied settings) (s.spelled settings packed)
      = some s.data := by
  have harmor : Filter.undoAll? inflate (s.armor settings)
      (s.spelled settings packed) = some packed := by
    rw [armor, spelled]
    cases s.isArmored settings with
    | true =>
        show (ofHexLines? (hexLines packed)).bind some = some packed
        rw [ofHexLines?_hexLines]
        rfl
    | false => rfl
  rw [applied, Filter.undoAll?_append, harmor]
  rw [Packs] at hpacks
  cases hc : s.policy.compresses settings with
  | true =>
      rw [if_pos hc] at hpacks
      show (inflate packed).bind some = some s.data
      rw [h _ _ hpacks]
      rfl
  | false =>
      rw [if_neg (Bool.eq_false_iff.mp hc)] at hpacks
      exact congrArg some hpacks

/-- **ENCODING CAN BE UNDONE**: the filters that stand in front of the own ones
    of a stream lead back to its data, and its dictionary has not changed
    otherwise. -/
theorem encode_eq_ok {inflate : Inflater} {compressor : Compressor}
    {settings : Settings} {s : Stream} {e : StreamData}
    (h : Inverts inflate compressor)
    (he : s.encode settings compressor = .ok e) :
    (∃ front, e.dict.filterList
        = (front ++ s.policy.own).map Filter.listed ++ s.dict.filterList
        ∧ Filter.undoAll? inflate front e.data = some s.data)
      ∧ e.dict.get? (.key "Length") = some (.integer e.data.length)
      ∧ e.dict.uncoded = s.dict.uncoded
      ∧ (s.dict.isPlain = true → e.dict.isPlain = true) := by
  obtain ⟨packed, hpacks, rfl⟩ := encode_eq_ok_iff.mp he
  refine ⟨⟨s.applied settings, ?_, undoAll?_applied h hpacks⟩, ?_, ?_, ?_⟩
  · rw [Filtered.behind, Dict.filterList_withLength,
      Dict.filterList_withFilters, armor_append_coding]
  · exact (Dict.get?_withLength _ _ _).trans (if_pos rfl)
  · exact (Dict.uncoded_withLength _ _).trans (Dict.uncoded_withFilters _ _)
  · exact Filtered.every_behind Object.passesCoding_isReadable _

/-! ## Coded streams -/

/-- What a stream has become that listed some filters and was encoded under some
    settings. -/
structure IsCoded (inflate : Inflater) (settings : Settings) (s : Stream)
    (old : List Name) (e : StreamData) : Prop where
  /-- The digits are listed first, then the coding, then what was listed. -/
  listed : e.dict.filterNames? = some
    ((s.armor settings ++ s.coding settings).map Filter.label ++ old)
  /-- What was applied leads back to the data. -/
  undone : Filter.undoAll? inflate (s.applied settings) e.data = some s.data
  /-- The length is the number of bytes that are written. -/
  length : e.dict.get? (.key "Length") = some (.integer e.data.length)
  /-- No name occurs twice. -/
  distinct : e.dict.keys.Nodup
  /-- All other entries stand as they stood, in their order. -/
  others : e.dict.uncoded = s.dict.uncoded

theorem isCoded_of_encode_eq_ok {inflate : Inflater} {compressor : Compressor}
    {settings : Settings} {s : Stream} {old : List Name} {e : StreamData}
    (h : Inverts inflate compressor) (hold : s.dict.filterNames? = some old)
    (hkeys : s.dict.keys.Nodup) (he : s.encode settings compressor = .ok e) :
    s.IsCoded inflate settings old e := by
  obtain ⟨-, hlength, hothers, -⟩ := encode_eq_ok h he
  obtain ⟨packed, hpacks, rfl⟩ := encode_eq_ok_iff.mp he
  refine ⟨?_, undoAll?_applied h hpacks, hlength, ?_, hothers⟩
  · rw [Dict.filterNames?_eq_some_iff, Filtered.behind,
      Dict.filterList_withLength, Dict.filterList_withFilters,
      Dict.filterNames?_eq_some_iff.mp hold, List.map_append (f := Object.name),
      List.map_map]
    rfl
  · exact Dictionary.nodup_keys_insert _ _ (Dict.nodup_keys_withFilters _ hkeys)

/-- Data that is coded without a policy is coded like a stream with one. -/
theorem filterData_eq_encode {settings : Settings} {compressor : Compressor}
    {s : Stream} (h : ∀ filter, s.policy ≠ .encoded filter) :
    filterData compressor (s.policy.compresses settings) settings.asciiOnly
      s.dict s.data = s.encode settings compressor := by
  have hown : s.policy.own = [] := by
    cases hp : s.policy with
    | encoded filter => exact absurd hp (h filter)
    | _ => rfl
  rw [filterData, encode, filtered_eq, hown]

/-- **FILTER CHAINS ARE UNDONE BY WHAT IS LISTED**: an encoded stream lists, in
    front of the names that it listed before, the filters of its coding and of
    the digits around it, and those that were applied lead back to its data.
    Encoding fails if compressing fails, and only then.  Where a policy names no
    filter of its own, the two ways to encode data agree. -/
theorem isCoded_encode {inflate : Inflater} {compressor : Compressor}
    (h : Inverts inflate compressor) (settings : Settings) {s : Stream}
    {old : List Name} (hold : s.dict.filterNames? = some old)
    (hkeys : s.dict.keys.Nodup) :
    (∀ e, s.encode settings compressor = .ok e →
        s.IsCoded inflate settings old e)
      ∧ (∀ e, s.encode settings compressor = .error e
        ↔ s.policy.compresses settings = true
          ∧ ∃ message, compressor s.data = .error message
            ∧ e = .compressionFailed none message)
      ∧ ((∀ filter, s.policy ≠ .encoded filter) →
        filterData compressor (s.policy.compresses settings)
          settings.asciiOnly s.dict s.data = s.encode settings compressor) :=
  ⟨fun _ he => isCoded_of_encode_eq_ok h hold hkeys he,
    fun _ => encode_eq_error_iff, filterData_eq_encode⟩

/-- An image that is compressed once more, and spelled in digits. -/
theorem isCoded_encode_image :
    let compressor : Compressor := fun data => .ok (0x78 :: data)
    let inflate : Inflater := fun packed => some packed.tail
    let settings : Settings := { asciiOnly := true }
    let s : Stream := {
      dict := .ofList [(.key "Filter", .name (.key "DCTDecode"))]
      data := [0xFF, 0xD8]
      policy := .compressed }
    Inverts inflate compressor
      ∧ s.dict.filterNames? = some [.key "DCTDecode"] ∧ s.dict.keys.Nodup
      ∧ ∃ e, s.encode settings compressor = .ok e
        ∧ s.IsCoded inflate settings [.key "DCTDecode"] e
        ∧ e.dict.filterNames? = some [.key "ASCIIHexDecode",
          .key "FlateDecode", .key "DCTDecode"] := by
  intro compressor inflate settings s
  have hinverts : Inverts inflate compressor := by
    intro data packed h
    rw [← Except.ok.inj h]
    rfl
  have hold : s.dict.filterNames? = some [.key "DCTDecode"] := by
    decide +kernel
  have hkeys : s.dict.keys.Nodup := by decide +kernel
  have hcoded := (isCoded_encode hinverts settings hold hkeys).1 _ rfl
  exact ⟨hinverts, hold, hkeys, _, rfl, hcoded, hcoded.listed⟩

end Stream

end Pdf
