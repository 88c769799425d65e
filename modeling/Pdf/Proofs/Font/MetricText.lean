import Pdf.Proofs.Font.RecordText
import Pdf.Proofs.Syntax.RoundTrip

/-! # Metrics as records — what is spelled out is parsed back

    The metrics of a font are spelled as the thirteen entries of a record:
    numbers in decimal, the rectangle in brackets, and the advances as words,
    two for each code.  The spelling of every value has a reader that gives the
    value back, so parsing gives back the metrics from any layout of the
    entries. -/

namespace Pdf

open Text (isBlank Trimmed AreWords)
open Record (IsKey IsValue Legible Layout)

/-! ## Numbers -/

namespace Text

/-- A number in decimal. -/
def integer (i : Int) : List Char := Bytes.chars (Bytes.signedDecimal i)

/-- A code in decimal. -/
def code (c : UInt16) : List Char := Bytes.chars (Bytes.decimal c.toNat)

/-- A digit or a sign. -/
def IsFigure (c : Char) : Prop := c.isDigit = true ∨ c = '-'

instance (c : Char) : Decidable (IsFigure c) :=
  inferInstanceAs (Decidable (_ ∨ _))

/-- An integer is written with figures only. -/
theorem isFigure_of_mem_integer {i : Int} {c : Char} (h : c ∈ integer i) :
    IsFigure c := by
  rw [integer, Bytes.signedDecimal] at h
  split at h
  · rw [Syntax.chars_minus] at h
    rcases List.mem_cons.mp h with hminus | hdigit
    · exact Or.inr hminus
    · exact Or.inl (Bytes.isDigit_of_mem_chars_decimal hdigit)
  · exact Or.inl (Bytes.isDigit_of_mem_chars_decimal h)

theorem isFigure_of_mem_code {n : UInt16} {c : Char} (h : c ∈ code n) :
    IsFigure c :=
  Or.inl (Bytes.isDigit_of_mem_chars_decimal h)

/-- No figure is blank. -/
theorem isBlank_of_isFigure {c : Char} (h : IsFigure c) :
    isBlank c = false := by
  rcases h with hdigit | rfl
  · exact forall_digit (P := (isBlank · = false)) (by decide) hdigit
  · decide

theorem integer_ne_nil (i : Int) : integer i ≠ [] :=
  fun h => Syntax.signedDecimal_ne_nil i (List.map_eq_nil_iff.mp h)

theorem code_ne_nil (c : UInt16) : code c ≠ [] :=
  fun h => Bytes.decimal_ne_nil c.toNat (List.map_eq_nil_iff.mp h)

/-- What is written of an integer is read back as the integer. -/
theorem int32?_integer (i : Int32) : int32? (integer i.toInt) = some i := by
  have hmin : Int32.minValue.toInt = -2 ^ 31 := rfl
  have hmax : Int32.maxValue.toInt = 2 ^ 31 - 1 := rfl
  have hlow := i.le_toInt
  have hhigh := i.toInt_lt
  rw [int32?, integer, Syntax.integer?_chars_signedDecimal, Option.bind_some,
    if_pos (by rw [hmin, hmax]; omega)]
  exact congrArg some i.ofInt_toInt

/-- What is written of a code is read back as the code. -/
theorem code?_code (c : UInt16) : code? (code c) = some c := by
  rw [code?, code, Bytes.natural?_chars_decimal, Option.bind_some,
    if_pos c.toNat_lt_size]
  exact congrArg some UInt16.ofNat_toNat

end Text

namespace Text

/-- Words of digits and signs. -/
def AreNumbers (ws : List (List Char)) : Prop :=
  ∀ w ∈ ws, w ≠ [] ∧ ∀ c ∈ w, IsFigure c

/-- Numbers are words without a blank. -/
theorem AreNumbers.areWords {ws : List (List Char)} (h : AreNumbers ws) :
    AreWords isBlank ws :=
  fun w hw => ⟨(h w hw).1, fun c hc => isBlank_of_isFigure ((h w hw).2 c hc)⟩

/-- Numbers that are joined by blanks fit on a line. -/
theorem AreNumbers.newline_not_mem {ws : List (List Char)} (h : AreNumbers ws) :
    '\n' ∉ [' '].intercalate ws := by
  intro hmem
  rcases mem_intercalate hmem with hc | ⟨w, hw, hc⟩
  · exact absurd hc (by decide)
  · exact absurd (isBlank_of_isFigure ((h w hw).2 _ hc)) (by decide)

/-- Numbers that are joined by blanks are a value of a record. -/
theorem AreNumbers.isValue {ws : List (List Char)} (h : AreNumbers ws) :
    IsValue (String.ofList ([' '].intercalate ws)) := by
  rw [IsValue, String.toList_ofList]
  exact ⟨trimmed_intercalate ' ' h.areWords, h.newline_not_mem⟩

end Text

/-! ## Advances -/

namespace Advances

/-- Each code in front of its width. -/
def spelled (pairs : List (UInt16 × Int32)) : List (List Char) :=
  pairs.flatMap fun (code, width) => [Text.code code, Text.integer width.toInt]

/-- The codes with their widths, in ascending order of codes. -/
def text (a : Advances) : String :=
  String.ofList ([' '].intercalate (spelled a.toList))

/-- The pairs of codes and widths are spelled by numbers. -/
theorem areNumbers_spelled (pairs : List (UInt16 × Int32)) :
    Text.AreNumbers (spelled pairs) := by
  intro w hw
  obtain ⟨⟨code, width⟩, -, hpair⟩ := List.mem_flatMap.mp hw
  rcases List.mem_pair.mp hpair with rfl | rfl
  · exact ⟨Text.code_ne_nil code, fun _ => Text.isFigure_of_mem_code⟩
  · exact ⟨Text.integer_ne_nil _, fun _ => Text.isFigure_of_mem_integer⟩

theorem pairs?_spelled (pairs : List (UInt16 × Int32)) :
    pairs? (spelled pairs) = some pairs := by
  induction pairs with
  | nil => rfl
  | cons pair pairs ih =>
      obtain ⟨code, width⟩ := pair
      have hcons : spelled ((code, width) :: pairs)
          = Text.code code :: Text.integer width.toInt :: spelled pairs := rfl
      rw [hcons, pairs?, Text.code?_code, Text.int32?_integer, ih]
      rfl

/-- The codes of a table are different, so no width takes the place of
    another one. -/
theorem ofList_toList (a : Advances) : ofList a.toList = a := by
  have hmap : Std.ExtTreeMap.ofList a.widths.toList compare = a.widths := by
    refine Std.ExtTreeMap.ext_getElem? fun code => ?_
    cases hcode : a.widths[code]? with
    | some width =>
        exact Std.ExtTreeMap.getElem?_ofList_of_mem Std.ReflCmp.compare_self
          Std.ExtTreeMap.distinct_keys_toList
          (Std.ExtTreeMap.mem_toList_iff_getElem?_eq_some.mpr hcode)
    | none =>
        refine Std.ExtTreeMap.getElem?_ofList_of_contains_eq_false ?_
        refine Bool.eq_false_iff.mpr fun hcontains => ?_
        obtain ⟨⟨_, width⟩, hpair, rfl⟩ :=
          List.mem_map.mp (List.contains_iff_mem.mp hcontains)
        rw [Std.ExtTreeMap.mem_toList_iff_getElem?_eq_some.mp hpair] at hcode
        exact nomatch hcode
  exact congrArg Advances.mk hmap

/-- The words of some advances are read back in pairs. -/
theorem parse_text (a : Advances) : parse a.text.toList = some a := by
  have hwords : Text.words a.text.toList = spelled a.toList := by
    have hfields : Text.fields isBlank
        ([' '].intercalate (spelled a.toList) ++ []) = spelled a.toList :=
      Text.fields_intercalate (areNumbers_spelled a.toList).areWords
        (by decide) (by simp)
    rw [List.append_nil] at hfields
    rw [text, String.toList_ofList]
    exact hfields
  rw [parse, hwords, pairs?_spelled]
  exact congrArg some (ofList_toList a)

/-- Widths are written as a value of a record. -/
theorem isValue_text (a : Advances) : IsValue a.text :=
  (areNumbers_spelled a.toList).isValue

end Advances

/-! ## Rectangles -/

namespace BoundingBox

/-- The four numbers in brackets. -/
def text (b : BoundingBox) : String :=
  String.ofList ('[' ::
    ([' '].intercalate (b.toList.map fun i => Text.integer i.toInt) ++ [']']))

theorem areNumbers_toList (b : BoundingBox) :
    Text.AreNumbers (b.toList.map fun i => Text.integer i.toInt) := by
  intro w hw
  obtain ⟨i, -, rfl⟩ := List.mem_map.mp hw
  exact ⟨Text.integer_ne_nil _, fun _ => Text.isFigure_of_mem_integer⟩

/-- No figure separates a key from its value. -/
theorem separates_of_isFigure {c : Char} (h : Text.IsFigure c) :
    separates c = false := by
  rw [separates, Text.isBlank_of_isFigure h, Bool.or_false,
    Bool.or_eq_false_iff, beq_eq_false_iff_ne, beq_eq_false_iff_ne]
  constructor
  · rintro rfl
    exact absurd h (by decide)
  · rintro rfl
    exact absurd h (by decide)

/-- The brackets and the blanks separate the numbers. -/
theorem parse_text (b : BoundingBox) : parse b.text.toList = some b := by
  have hwords : AreWords separates
      (b.toList.map fun i => Text.integer i.toInt) := fun w hw =>
    ⟨(areNumbers_toList b w hw).1, fun c hc =>
      separates_of_isFigure ((areNumbers_toList b w hw).2 c hc)⟩
  have hfields : Text.fields separates b.text.toList
      = b.toList.map fun i => Text.integer i.toInt := by
    rw [text, String.toList_ofList, Text.fields_of_separates (by decide)]
    exact Text.fields_intercalate hwords (by decide)
      (List.forall_mem_singleton.mpr (by decide))
  rw [parse, hfields, toList]
  simp only [List.map_cons, Text.int32?_integer]
  rfl

/-- A box is written as a value of a record. -/
theorem isValue_text (b : BoundingBox) : IsValue b.text := by
  rw [IsValue, text, String.toList_ofList]
  constructor
  · refine Text.trimmed_of_ends (fun c hc => Option.some.inj hc ▸ by decide) ?_
    rw [← List.cons_append, List.getLast?_concat]
    exact fun c hc => Option.some.inj hc ▸ by decide
  · intro hmem
    rcases List.mem_cons.mp hmem with hopen | hrest
    · exact absurd hopen (by decide)
    rcases List.mem_append.mp hrest with hnumbers | hclose
    · exact (areNumbers_toList b).newline_not_mem hnumbers
    · exact absurd hclose (by decide)

end BoundingBox

/-! ## Metrics -/

namespace FontMetrics

/-- A number as the value of an entry. -/
def spelled (i : Int32) : String := String.ofList (Text.integer i.toInt)

/-- The fields that are numbers. -/
def numbers (m : FontMetrics) : List (String × Int32) :=
  [("Ascent", m.ascent), ("CapHeight", m.capHeight), ("Descent", m.descent),
    ("Flags", m.flags), ("ItalicAngle", m.italicAngle), ("StemV", m.stemV),
    ("Supplement", m.supplement)]

/-- The fields that are texts. -/
def texts (m : FontMetrics) : List (String × String) :=
  [("Panose", m.panose), ("Registry", m.registry), ("Ordering", m.ordering)]

/-- The entries of a record that spell some metrics. -/
def entries (m : FontMetrics) : List (String × String) :=
  m.numbers.map (fun (key, i) => (key, spelled i)) ++ m.texts
    ++ [("FontBBox", m.bbox.text), ("W", m.widths.text),
      ("W2", m.verticalWidths.text)]

/-- The texts of some metrics have no blanks at their ends, and no line feed. -/
def FitsLines (m : FontMetrics) : Prop := ∀ e ∈ m.texts, IsValue e.2

theorem isValue_spelled (i : Int32) : IsValue (spelled i) := by
  have hnumber : Text.AreNumbers [Text.integer i.toInt] := by
    intro w hw
    rw [List.mem_singleton.mp hw]
    exact ⟨Text.integer_ne_nil _, fun _ => Text.isFigure_of_mem_integer⟩
  have hvalue := hnumber.isValue
  rwa [List.intercalate_singleton] at hvalue

/-- The keys do not depend on the metrics. -/
theorem map_fst_entries (m : FontMetrics) : m.entries.map Prod.fst
    = ["Ascent", "CapHeight", "Descent", "Flags", "ItalicAngle", "StemV",
      "Supplement", "Panose", "Registry", "Ordering", "FontBBox", "W", "W2"] :=
  rfl

/-- The entries of metrics have values that fit on a line. -/
theorem isValue_of_mem_entries {m : FontMetrics} (h : m.FitsLines) :
    ∀ e ∈ m.entries, IsValue e.2 := by
  intro e he
  rcases List.mem_append.mp he with hplain | htables
  · rcases List.mem_append.mp hplain with hnumber | htext
    · obtain ⟨⟨key, i⟩, -, rfl⟩ := List.mem_map.mp hnumber
      exact isValue_spelled i
    · exact h e htext
  · simp only [List.mem_cons, List.not_mem_nil, or_false] at htables
    rcases htables with rfl | rfl | rfl
    · exact m.bbox.isValue_text
    · exact m.widths.isValue_text
    · exact m.verticalWidths.isValue_text

/-- The entries of metrics can be told from their surroundings. -/
theorem legible_of_mem_entries {m : FontMetrics} (h : m.FitsLines) :
    ∀ e ∈ m.entries, Legible e := by
  have hkeys : ∀ key ∈ m.entries.map Prod.fst, IsKey key := by
    rw [map_fst_entries]
    decide
  exact fun e he =>
    ⟨hkeys _ (List.mem_map_of_mem he), isValue_of_mem_entries h e he⟩

section Fields

variable {font field value : String} {record : Record}

/-- A field that fits on a line is read as it is. -/
theorem text_eq (hrecord : record[field]? = some value)
    (hvalue : IsValue value) :
    text font record field = .ok value.toList := by
  rw [text, hrecord]
  exact congrArg Except.ok hvalue.1

/-- A field that spells a number is read as the number. -/
theorem number_eq {i : Int32} (hrecord : record[field]? = some (spelled i)) :
    number font record field = .ok i := by
  rw [number, text_eq hrecord (isValue_spelled i), spelled,
    String.toList_ofList]
  show formed font field (Text.int32? (Text.integer i.toInt)) = .ok i
  rw [Text.int32?_integer]
  rfl

theorem string_eq (hrecord : record[field]? = some value)
    (hvalue : IsValue value) : string font record field = .ok value := by
  rw [string, text_eq hrecord hvalue]
  show Except.ok (String.ofList value.toList) = Except.ok value
  rw [String.ofList_toList]

end Fields

/-- **METRICS SURVIVE THEIR RECORD.**  If the texts of some metrics fit on a
    line, then the entries that spell the metrics, on lines in any order and
    laid out in any way, are parsed as exactly these metrics. -/
theorem parse_layout_text {m : FontMetrics} {layout : Layout} (font : String)
    (hm : m.FitsLines) (hlayout : layout.entries.Perm m.entries) :
    FontMetrics.parse font (Record.parse layout.text) = .ok m := by
  have hkeys : (m.entries.map Prod.fst).Nodup := by
    rw [map_fst_entries]
    decide
  have hread : ∀ {key value : String}, (key, value) ∈ m.entries →
      (Record.parse layout.text)[key]? = some value :=
    Layout.getElem?_parse_text (legible_of_mem_entries hm) hkeys hlayout
  generalize Record.parse layout.text = record at hread ⊢
  -- each kind of field has one reader
  have hnumbers : ∀ e ∈ m.numbers, number font record e.1 = .ok e.2 :=
    fun e he => number_eq (hread (List.mem_append_left _
      (List.mem_append_left _ (List.mem_map_of_mem he))))
  have htexts : ∀ e ∈ m.texts, string font record e.1 = .ok e.2 :=
    fun e he => string_eq (hread (List.mem_append_left _
      (List.mem_append_right _ he))) (hm e he)
  have hbbox : text font record "FontBBox" = .ok m.bbox.text.toList :=
    text_eq (hread (by simp [entries])) m.bbox.isValue_text
  have hwidths : text font record "W" = .ok m.widths.text.toList :=
    text_eq (hread (by simp [entries])) m.widths.isValue_text
  have hvertical : record["W2"]? = some m.verticalWidths.text :=
    hread (by simp [entries])
  simp only [numbers, texts, List.forall_mem_cons] at hnumbers htexts
  obtain ⟨hascent, hcapHeight, hdescent, hflags, hitalicAngle, hstemV,
    hsupplement, -⟩ := hnumbers
  obtain ⟨hpanose, hregistry, hordering, -⟩ := htexts
  simp only [parse, vertical, formed, bind, Except.bind, hbbox,
    BoundingBox.parse_text, hwidths, Advances.parse_text, hvertical, hascent,
    hcapHeight, hdescent, hflags, hitalicAngle, hstemV, hpanose, hregistry,
    hordering, hsupplement]
  rfl

/-- Metrics whose texts hold separators and marks, and whose advances are
    extreme. -/
def oddMetrics : FontMetrics where
  ascent := 880
  capHeight := 0
  descent := -2147483648
  flags := 6
  bbox := ⟨-2147483648, -254, 2147483647, 880⟩
  italicAngle := -12
  stemV := 93
  panose := "2:11 # 6=9"
  registry := "!Adobe"
  ordering := ""
  supplement := 2
  widths := .ofList [(65535, -2147483648), (65, 0)]
  verticalWidths := .empty

def noGap : Record.Gap := ⟨[], rfl, nofun⟩

def wideGap : Record.Gap := ⟨['\t', ' '], by decide, by decide⟩

/-- The entries of the metrics from the last to the first, on lines with two
    characters at their ends, behind a comment and an empty line. -/
def oddLayout : Layout where
  ended := (.comment wideGap .hash "W=1 2".toList (by decide), .lf)
    :: (.empty wideGap, .crlf)
    :: oddMetrics.entries.reverse.map fun (key, value) =>
      (.entry noGap key wideGap .colon wideGap value noGap, .crlf)
  last := .comment noGap .bang [] (by decide)

/-- The odd layout has everything that a layout may have, and is parsed. -/
theorem parse_oddLayout_text :
    oddMetrics.FitsLines ∧ oddLayout.entries.Perm oddMetrics.entries
      ∧ FontMetrics.parse "Gothic" (Record.parse oddLayout.text)
        = .ok oddMetrics := by
  have hm : oddMetrics.FitsLines := by
    rw [FitsLines]
    decide
  have hlayout : oddLayout.entries.Perm oddMetrics.entries :=
    List.reverse_perm oddMetrics.entries
  exact ⟨hm, hlayout, parse_layout_text "Gothic" hm hlayout⟩

end FontMetrics

end Pdf
