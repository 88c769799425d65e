import Pdf.Proofs.Font.MetricText
import Pdf.Proofs.Text.Reading

/-! # Malformed records — the first bad field is reported

    Each field of a metric record has a form: a rectangle, advances, a number
    or any text.  A field is bad if its value does not have its form, or if it
    is missing and must not be.

    The fields are read in a fixed order.  Reading stops at the first bad field
    and names it (`Reports`), so nothing is said of any bad field behind it,
    and a record without bad fields is read to the end.  What is read then is
    what the record spells; of several widths of one code the last one stays. -/

namespace Pdf

open Text (isBlank trim SpellsNatural SpellsInteger Parted)

namespace Advances

/-! ## Advances -/

/-- Whether words are codes and widths in turns. -/
inductive Paired : List (List Char) → List (UInt16 × Int32) → Prop where
  | nil : Paired [] []
  | cons {c w : List Char} {words : List (List Char)} {code : UInt16}
      {width : Int32} {pairs : List (UInt16 × Int32)} :
      SpellsNatural c code.toNat → SpellsInteger w width.toInt →
      Paired words pairs → Paired (c :: w :: words) ((code, width) :: pairs)

/-- Whether the words of a text are codes with their widths. -/
def Spells (cs : List Char) (pairs : List (UInt16 × Int32)) : Prop :=
  ∃ words, Parted isBlank cs words ∧ Paired words pairs

/-- Whether a width is the last one that a code has. -/
def IsLast (pairs : List (UInt16 × Int32)) (code : UInt16) (width : Int32) :
    Prop :=
  ∃ front back, pairs = front ++ (code, width) :: back
    ∧ ∀ pair ∈ back, pair.1 ≠ code

/-- Whether advances are the last widths of all codes. -/
def KeepsLast (a : Advances) (pairs : List (UInt16 × Int32)) : Prop :=
  ∀ code width, a.widths[code]? = some width ↔ IsLast pairs code width

/-- The words that are read as pairs are the ones that spell them. -/
theorem pairs?_eq_some_iff {words : List (List Char)}
    {pairs : List (UInt16 × Int32)} :
    pairs? words = some pairs ↔ Paired words pairs := by
  constructor
  · intro h
    induction words using pairs?.induct generalizing pairs with
    | case1 =>
        rw [← Option.some.inj h]
        exact .nil
    | case2 => exact nomatch h
    | case3 c w words ih =>
        obtain ⟨code, hcode, h⟩ := Option.bind_eq_some_iff.mp h
        obtain ⟨width, hwidth, h⟩ := Option.bind_eq_some_iff.mp h
        obtain ⟨rest, hrest, h⟩ := Option.bind_eq_some_iff.mp h
        rw [← Option.some.inj h]
        exact .cons (Text.code?_eq_some_iff.mp hcode)
          (Text.int32?_eq_some_iff.mp hwidth) (ih hrest)
  · intro h
    induction h with
    | nil => rfl
    | cons hcode hwidth _ ih =>
        rw [pairs?, Text.code?_eq_some_iff.mpr hcode,
          Text.int32?_eq_some_iff.mpr hwidth, ih]
        rfl

/-- A text is read as widths where it spells pairs that make them up. -/
theorem parse_eq_some_iff {cs : List Char} {a : Advances} :
    parse cs = some a ↔ ∃ pairs, Spells cs pairs ∧ ofList pairs = a := by
  rw [parse, Option.map_eq_some_iff]
  refine exists_congr fun pairs => and_congr_left fun _ => ?_
  rw [pairs?_eq_some_iff]
  constructor
  · exact fun h => ⟨Text.words cs, Text.fields_eq_iff.mp rfl, h⟩
  · rintro ⟨words, hwords, h⟩
    rw [Text.words, hwords.fields_eq]
    exact h

/-- The last width in front of some pairs stays if they do not have its code. -/
theorem isLast_cons_iff {pair : UInt16 × Int32}
    {pairs : List (UInt16 × Int32)} {code : UInt16} {width : Int32} :
    IsLast (pair :: pairs) code width ↔ IsLast pairs code width
      ∨ (pair = (code, width) ∧ ∀ other ∈ pairs, other.1 ≠ code) := by
  constructor
  · rintro ⟨front, back, he, hback⟩
    cases front with
    | nil =>
        obtain ⟨rfl, rfl⟩ := List.cons.inj he
        exact Or.inr ⟨rfl, hback⟩
    | cons first front =>
        obtain ⟨-, rfl⟩ := List.cons.inj he
        exact Or.inl ⟨front, back, rfl, hback⟩
  · rintro (⟨front, back, rfl, hback⟩ | ⟨rfl, hpairs⟩)
    · exact ⟨pair :: front, back, rfl, hback⟩
    · exact ⟨[], pairs, rfl, hpairs⟩

/-- Pairs that are inserted into a table one after the other hide what it had
    under their codes. -/
theorem getElem?_insertMany_iff {table : Std.ExtTreeMap UInt16 Int32}
    {pairs : List (UInt16 × Int32)} {code : UInt16} {width : Int32} :
    (table.insertMany pairs)[code]? = some width ↔ IsLast pairs code width
      ∨ (table[code]? = some width ∧ ∀ pair ∈ pairs, pair.1 ≠ code) := by
  induction pairs generalizing table with
  | nil =>
      rw [Std.ExtTreeMap.insertMany_nil]
      constructor
      · exact fun h => Or.inr ⟨h, nofun⟩
      · rintro (⟨front, back, he, -⟩ | ⟨h, -⟩)
        · exact absurd he (List.append_ne_nil_of_right_ne_nil _
            (List.cons_ne_nil _ _)).symm
        · exact h
  | cons pair pairs ih =>
      obtain ⟨k, v⟩ := pair
      rw [Std.ExtTreeMap.insertMany_cons, ih, isLast_cons_iff,
        Std.ExtTreeMap.getElem?_insert, List.forall_mem_cons]
      by_cases hk : k = code
      · -- the pair stays unless a later one has its code
        rw [hk]
        have hself : compare code code = .eq := Std.ReflCmp.compare_self
        rw [if_pos hself]
        constructor
        · rintro (hlast | ⟨hv, hpairs⟩)
          · exact Or.inl (Or.inl hlast)
          · exact Or.inl (Or.inr ⟨by rw [Option.some.inj hv], hpairs⟩)
        · rintro ((hlast | ⟨hv, hpairs⟩) | ⟨-, hne, -⟩)
          · exact Or.inl hlast
          · exact Or.inr ⟨congrArg some (Prod.mk.inj hv).2, hpairs⟩
          · exact absurd rfl hne
      · have hcompare : ¬compare k code = .eq :=
          fun h => hk (Std.LawfulEqCmp.eq_of_compare h)
        rw [if_neg hcompare]
        constructor
        · rintro (hlast | ⟨ht, hpairs⟩)
          · exact Or.inl (Or.inl hlast)
          · exact Or.inr ⟨ht, hk, hpairs⟩
        · rintro ((hlast | ⟨hv, -⟩) | ⟨ht, -, hpairs⟩)
          · exact Or.inl hlast
          · exact absurd (Prod.mk.inj hv).1 hk
          · exact Or.inr ⟨ht, hpairs⟩

/-- Of several widths of a code the last one counts. -/
theorem keepsLast_ofList (pairs : List (UInt16 × Int32)) :
    (ofList pairs).KeepsLast pairs := by
  intro code width
  show (Std.ExtTreeMap.ofList pairs)[code]? = some width ↔ _
  rw [Std.ExtTreeMap.ofList_eq_insertMany_empty, getElem?_insertMany_iff,
    Std.ExtTreeMap.getElem?_empty]
  exact or_iff_left fun h => nomatch h.1

end Advances

/-! ## Rectangles -/

namespace BoundingBox

/-- Whether the parts of a text begin with the four numbers of a rectangle. -/
def Spells (cs : List Char) (b : BoundingBox) : Prop :=
  ∃ left bottom right top rest,
    Parted separates cs (left :: bottom :: right :: top :: rest)
      ∧ SpellsInteger left b.left.toInt ∧ SpellsInteger bottom b.bottom.toInt
      ∧ SpellsInteger right b.right.toInt ∧ SpellsInteger top b.top.toInt

/-- A text is read as a box exactly if it spells this box. -/
theorem parse_eq_some_iff {cs : List Char} {b : BoundingBox} :
    parse cs = some b ↔ Spells cs b := by
  constructor
  · intro h
    rw [parse.eq_def] at h
    split at h
    · next left bottom right top rest hfields =>
        obtain ⟨l, hl, h⟩ := Option.bind_eq_some_iff.mp h
        obtain ⟨b, hb, h⟩ := Option.bind_eq_some_iff.mp h
        obtain ⟨r, hr, h⟩ := Option.bind_eq_some_iff.mp h
        obtain ⟨t, ht, h⟩ := Option.bind_eq_some_iff.mp h
        rw [← Option.some.inj h]
        exact ⟨left, bottom, right, top, rest, Text.fields_eq_iff.mp hfields,
          Text.int32?_eq_some_iff.mp hl, Text.int32?_eq_some_iff.mp hb,
          Text.int32?_eq_some_iff.mp hr, Text.int32?_eq_some_iff.mp ht⟩
    · exact nomatch h
  · rintro ⟨left, bottom, right, top, rest, hparts, hl, hb, hr, ht⟩
    rw [parse, hparts.fields_eq]
    simp only [Text.int32?_eq_some_iff.mpr hl, Text.int32?_eq_some_iff.mpr hb,
      Text.int32?_eq_some_iff.mpr hr, Text.int32?_eq_some_iff.mpr ht]
    rfl

end BoundingBox

/-! ## Fields -/

namespace FontMetrics

/-- What the value of a field is a text of. -/
inductive Form where
  | rectangle
  | advances
  | number
  | text

/-- A field of a metric record. -/
structure Field where
  key : String
  form : Form
  isOptional : Bool := false

/-- The fields in the order in which they are read. -/
def fields : List Field :=
  [⟨"FontBBox", .rectangle, false⟩, ⟨"W", .advances, false⟩,
    ⟨"W2", .advances, true⟩, ⟨"Ascent", .number, false⟩,
    ⟨"CapHeight", .number, false⟩, ⟨"Descent", .number, false⟩,
    ⟨"Flags", .number, false⟩, ⟨"ItalicAngle", .number, false⟩,
    ⟨"StemV", .number, false⟩, ⟨"Panose", .text, false⟩,
    ⟨"Registry", .text, false⟩, ⟨"Ordering", .text, false⟩,
    ⟨"Supplement", .number, false⟩]

/-- Whether a value has a form.  Blanks at the ends of a number do not count,
    and elsewhere they separate. -/
def Form.Fits : Form → List Char → Prop
  | rectangle, cs => ∃ b, BoundingBox.Spells cs b
  | advances, cs => ∃ pairs, Advances.Spells cs pairs
  | number, cs => ∃ i : Int32, SpellsInteger (trim cs) i.toInt
  | text, _ => True

/-- Whether a field cannot be read from a record. -/
def Field.IsBad (record : Record) (field : Field) : Prop :=
  match record[field.key]? with
  | none => field.isOptional = false
  | some value => ¬ field.form.Fits value.toList

/-- Whether a field is bad and stands behind no other bad one. -/
def IsFirstBad (record : Record) (fields : List Field) (field : Field) :
    Prop :=
  ∃ before after, fields = before ++ field :: after
    ∧ (∀ other ∈ before, ¬ other.IsBad record) ∧ field.IsBad record

/-- The first bad field is in front, or the first bad one of the others. -/
theorem isFirstBad_cons_iff {record : Record} {first field : Field}
    {rest : List Field} : IsFirstBad record (first :: rest) field
      ↔ (first.IsBad record ∧ field = first)
        ∨ (¬ first.IsBad record ∧ IsFirstBad record rest field) := by
  constructor
  · rintro ⟨before, after, he, hbefore, hbad⟩
    cases before with
    | nil =>
        obtain ⟨rfl, -⟩ := List.cons.inj he
        exact Or.inl ⟨hbad, rfl⟩
    | cons other before =>
        obtain ⟨rfl, hrest⟩ := List.cons.inj he
        obtain ⟨hfirst, hothers⟩ := List.forall_mem_cons.mp hbefore
        exact Or.inr ⟨hfirst, before, after, hrest, hothers, hbad⟩
  · rintro (⟨hbad, rfl⟩ | ⟨hfirst, before, after, rfl, hbefore, hbad⟩)
    · exact ⟨[], rest, rfl, List.forall_mem_nil _, hbad⟩
    · exact ⟨first :: before, after, rfl,
        List.forall_mem_cons.mpr ⟨hfirst, hbefore⟩, hbad⟩

/-! ## Reading field by field -/

section

variable {α β : Type} {font : String} {record : Record} {P : β → Prop}

/-- Whether a result is what reading fields comes to: the first bad one is
    named, and if none is bad, then there is a value of which something
    holds. -/
def Reports (font : String) (record : Record) (P : β → Prop) :
    List Field → Except Error β → Prop
  | [], x => ∃ value, x = .ok value ∧ P value
  | field :: rest, x =>
      (field.IsBad record ∧ x = .error (.malformedField font field.key))
        ∨ (¬ field.IsBad record ∧ Reports font record P rest x)

/-- A parser that reports its fields fails with the first bad one. -/
theorem Reports.eq_error_iff {fields : List Field} {x : Except Error β}
    (h : Reports font record P fields x) {e : Error} :
    x = .error e ↔ ∃ field, IsFirstBad record fields field
      ∧ e = .malformedField font field.key := by
  induction fields with
  | nil =>
      obtain ⟨value, rfl, -⟩ := h
      constructor
      · exact fun he => nomatch he
      · rintro ⟨field, ⟨before, after, he, -⟩, -⟩
        exact absurd he.symm (List.append_ne_nil_of_right_ne_nil _
          (List.cons_ne_nil _ _))
  | cons first rest ih =>
      simp only [isFirstBad_cons_iff]
      rcases h with ⟨hbad, rfl⟩ | ⟨hgood, hrest⟩
      · constructor
        · intro he
          exact ⟨first, Or.inl ⟨hbad, rfl⟩, (Except.error.inj he).symm⟩
        · rintro ⟨field, ⟨-, rfl⟩ | ⟨hgood, -⟩, rfl⟩
          · rfl
          · exact absurd hbad hgood
      · rw [ih hrest]
        constructor
        · rintro ⟨field, hfirst, he⟩
          exact ⟨field, Or.inr ⟨hgood, hfirst⟩, he⟩
        · rintro ⟨field, ⟨hbad, -⟩ | ⟨-, hfirst⟩, he⟩
          · exact absurd hbad hgood
          · exact ⟨field, hfirst, he⟩

/-- It fails exactly if one of its fields is bad. -/
theorem Reports.exists_error_iff {fields : List Field} {x : Except Error β}
    (h : Reports font record P fields x) :
    (∃ e, x = .error e) ↔ ∃ field ∈ fields, field.IsBad record := by
  induction fields with
  | nil =>
      obtain ⟨value, rfl, -⟩ := h
      constructor
      · exact fun ⟨e, he⟩ => nomatch he
      · exact fun ⟨field, hmem, _⟩ => nomatch hmem
  | cons first rest ih =>
      rcases h with ⟨hbad, rfl⟩ | ⟨hgood, hrest⟩
      · exact iff_of_true ⟨_, rfl⟩ ⟨first, List.mem_cons_self, hbad⟩
      · rw [ih hrest]
        constructor
        · rintro ⟨field, hmem, hbad⟩
          exact ⟨field, List.mem_cons_of_mem first hmem, hbad⟩
        · rintro ⟨field, hmem, hbad⟩
          rcases List.mem_cons.mp hmem with rfl | hmem
          · exact absurd hbad hgood
          · exact ⟨field, hmem, hbad⟩

/-- A result of such a parser is as promised. -/
theorem Reports.of_ok {fields : List Field} {value : β}
    (h : Reports font record P fields (.ok value)) : P value := by
  induction fields with
  | nil =>
      obtain ⟨other, he, hvalue⟩ := h
      rw [Except.ok.inj he]
      exact hvalue
  | cons first rest ih =>
      rcases h with ⟨-, he⟩ | ⟨-, hrest⟩
      · exact nomatch he
      · exact ih hrest

/-- A field that must be there is read by a reader of its form. -/
theorem Reports.formed {key : String} {form : Form} {rest : List Field}
    {read : List Char → Option α} {f : α → Except Error β}
    (hform : ∀ cs, form.Fits cs ↔ ∃ a, read (trim cs) = some a)
    (hf : ∀ value a, record[key]? = some value →
      read (trim value.toList) = some a → Reports font record P rest (f a)) :
    Reports font record P (⟨key, form, false⟩ :: rest)
      (FontMetrics.text font record key >>= fun cs =>
        FontMetrics.formed font key (read cs) >>= f) := by
  rw [Reports, Field.IsBad, FontMetrics.text]
  cases hrecord : record[key]? with
  | none => exact Or.inl ⟨rfl, rfl⟩
  | some value =>
      cases hread : read (trim value.toList) with
      | none =>
          refine Or.inl ⟨?_, ?_⟩
          · intro hfits
            obtain ⟨a, ha⟩ := (hform _).mp hfits
            rw [hread] at ha
            cases ha
          · show (FontMetrics.formed font key _ >>= f) = _
            rw [hread]
            rfl
      | some a =>
          refine Or.inr ⟨not_not_intro ((hform _).mpr ⟨a, hread⟩), ?_⟩
          show Reports font record P rest (FontMetrics.formed font key _ >>= f)
          rw [hread]
          exact hf value a hrecord hread

/-- Whether a record has a number under a key. -/
def HasNumber (record : Record) (key : String) (i : Int32) : Prop :=
  ∃ value, record[key]? = some value
    ∧ SpellsInteger (trim value.toList) i.toInt

/-- Whether a record has a text under a key, with or without blanks at its
    ends. -/
def HasText (record : Record) (key text : String) : Prop :=
  ∃ value, record[key]? = some value ∧ trim value.toList = text.toList

/-- Whether a record has advances under a key. -/
def HasAdvances (record : Record) (key : String) (a : Advances) : Prop :=
  ∃ value pairs, record[key]? = some value
    ∧ Advances.Spells value.toList pairs ∧ a.KeepsLast pairs

/-- To read a number is to report its field first. -/
theorem Reports.number {key : String} {rest : List Field}
    {f : Int32 → Except Error β}
    (hf : ∀ i, HasNumber record key i → Reports font record P rest (f i)) :
    Reports font record P (⟨key, .number, false⟩ :: rest)
      (FontMetrics.number font record key >>= f) := by
  rw [FontMetrics.number, bind_assoc]
  refine Reports.formed ?_ ?_
  · intro cs
    exact exists_congr fun i => Text.int32?_eq_some_iff.symm
  · intro value i hvalue hi
    exact hf i ⟨value, hvalue, Text.int32?_eq_some_iff.mp hi⟩

/-- To read a text is to report its field first. -/
theorem Reports.string {key : String} {rest : List Field}
    {f : String → Except Error β}
    (hf : ∀ text, HasText record key text →
      Reports font record P rest (f text)) :
    Reports font record P (⟨key, .text, false⟩ :: rest)
      (FontMetrics.string font record key >>= f) := by
  rw [FontMetrics.string, bind_assoc]
  -- a text is always formed
  show Reports font record P _ (FontMetrics.text font record key >>= fun cs =>
    FontMetrics.formed font key (some (String.ofList cs)) >>= f)
  refine Reports.formed (fun cs => iff_of_true trivial ⟨_, rfl⟩) ?_
  intro value text hvalue htext
  refine hf text ⟨value, hvalue, ?_⟩
  rw [← Option.some.inj htext, String.toList_ofList]

/-- Advances may be missing in one field only. -/
theorem Reports.vertical {rest : List Field} {f : Advances → Except Error β}
    (hf : ∀ a, (record["W2"]? = none → a = .empty) →
      (record["W2"]? ≠ none → HasAdvances record "W2" a) →
      Reports font record P rest (f a)) :
    Reports font record P (⟨"W2", .advances, true⟩ :: rest)
      (FontMetrics.vertical font record >>= f) := by
  rw [Reports, Field.IsBad, FontMetrics.vertical]
  cases hrecord : record["W2"]? with
  | none =>
      refine Or.inr ⟨Bool.noConfusion, hf .empty (fun _ => rfl) ?_⟩
      exact fun h => absurd hrecord h
  | some value =>
      have hsome : record["W2"]? ≠ none := by
        rw [hrecord]
        exact Option.some_ne_none value
      cases hparse : Advances.parse value.toList with
      | none =>
          refine Or.inl ⟨?_, ?_⟩
          · rintro ⟨pairs, hpairs⟩
            rw [Advances.parse_eq_some_iff.mpr ⟨pairs, hpairs, rfl⟩] at hparse
            cases hparse
          · show (FontMetrics.formed font "W2" _ >>= f) = _
            rw [hparse]
            rfl
      | some a =>
          obtain ⟨pairs, hpairs, rfl⟩ := Advances.parse_eq_some_iff.mp hparse
          refine Or.inr ⟨not_not_intro ⟨pairs, hpairs⟩, ?_⟩
          show Reports font record P rest
            (FontMetrics.formed font "W2" _ >>= f)
          rw [hparse]
          exact hf _ (fun h => absurd h hsome) fun _ =>
            ⟨value, pairs, hrecord, hpairs, Advances.keepsLast_ofList pairs⟩

end

/-- Whether a record spells some metrics. -/
structure IsToldBy (record : Record) (m : FontMetrics) : Prop where
  bbox : ∃ value, record["FontBBox"]? = some value
    ∧ BoundingBox.Spells value.toList m.bbox
  widths : HasAdvances record "W" m.widths
  noVerticalWidths : record["W2"]? = none → m.verticalWidths = .empty
  verticalWidths : record["W2"]? ≠ none →
    HasAdvances record "W2" m.verticalWidths
  numbers : ∀ e ∈ m.numbers, HasNumber record e.1 e.2
  texts : ∀ e ∈ m.texts, HasText record e.1 e.2

/-- Blanks separate the parts of a rectangle. -/
theorem parse_trim_eq_some_iff {cs : List Char} {b : BoundingBox} :
    BoundingBox.parse (trim cs) = some b ↔ BoundingBox.Spells cs b := by
  have hfields : Text.fields BoundingBox.separates (trim cs)
      = Text.fields BoundingBox.separates cs := by
    refine Text.fields_trim ?_ cs
    intro c hc
    rw [BoundingBox.separates, hc, Bool.or_true]
  rw [← BoundingBox.parse_eq_some_iff, BoundingBox.parse, hfields]
  rfl

theorem advances_parse_trim (cs : List Char) :
    Advances.parse (trim cs) = Advances.parse cs := by
  rw [Advances.parse, Text.words, Text.fields_trim (fun _ hc => hc)]
  rfl

/-- The parser of metrics reports their fields, in the order of its reading. -/
theorem reports_parse (font : String) (record : Record) :
    Reports font record (IsToldBy record) fields (parse font record) := by
  rw [parse]
  -- one step for each field, in the order of the list
  refine .formed (fun cs => exists_congr fun b =>
    parse_trim_eq_some_iff.symm) fun bboxText bbox hbboxText hbbox => ?_
  refine .formed ?_ fun widthsText widths hwidthsText hwidths => ?_
  · intro cs
    rw [advances_parse_trim]
    constructor
    · rintro ⟨pairs, hpairs⟩
      exact ⟨_, Advances.parse_eq_some_iff.mpr ⟨pairs, hpairs, rfl⟩⟩
    · rintro ⟨a, ha⟩
      obtain ⟨pairs, hpairs, -⟩ := Advances.parse_eq_some_iff.mp ha
      exact ⟨pairs, hpairs⟩
  refine .vertical fun verticalWidths hnone hsome => ?_
  refine .number fun ascent hascent => ?_
  refine .number fun capHeight hcapHeight => ?_
  refine .number fun descent hdescent => ?_
  refine .number fun flags hflags => ?_
  refine .number fun italicAngle hitalicAngle => ?_
  refine .number fun stemV hstemV => ?_
  refine .string fun panose hpanose => ?_
  refine .string fun registry hregistry => ?_
  refine .string fun ordering hordering => ?_
  refine .number fun supplement hsupplement => ?_
  -- nothing was bad, and each step has left what it has read
  refine ⟨_, rfl, ?_⟩
  rw [advances_parse_trim] at hwidths
  obtain ⟨pairs, hpairs, rfl⟩ := Advances.parse_eq_some_iff.mp hwidths
  refine ⟨⟨bboxText, hbboxText, parse_trim_eq_some_iff.mp hbbox⟩,
    ⟨widthsText, pairs, hwidthsText, hpairs,
      Advances.keepsLast_ofList pairs⟩, hnone, hsome, ?_, ?_⟩
  · simp only [numbers, List.forall_mem_cons]
    exact ⟨hascent, hcapHeight, hdescent, hflags, hitalicAngle, hstemV,
      hsupplement, List.forall_mem_nil _⟩
  · simp only [texts, List.forall_mem_cons]
    exact ⟨hpanose, hregistry, hordering, List.forall_mem_nil _⟩

/-- **THE FIRST BAD FIELD IS REPORTED.**  A record fails to be parsed exactly if
    one of its fields is bad, and the error names the first one in the order of
    reading.  If the record is parsed, then the metrics are what it spells; a
    code that occurs more than once has its last width. -/
theorem parse_reports (font : String) (record : Record) :
    ((∃ e, parse font record = .error e)
        ↔ ∃ field ∈ fields, field.IsBad record)
      ∧ (∀ e, parse font record = .error e ↔ ∃ field,
        IsFirstBad record fields field ∧ e = .malformedField font field.key)
      ∧ ∀ m, parse font record = .ok m → IsToldBy record m := by
  have h := reports_parse font record
  refine ⟨h.exists_error_iff, fun e => h.eq_error_iff, ?_⟩
  intro m hm
  rw [hm] at h
  exact h.of_ok

/-- A record with two widths of one code. -/
def repeatingRecord : Record := .ofList
  [("Ascent", " +0880 "), ("CapHeight", "880"), ("Descent", "-120"),
    ("Flags", "6"), ("FontBBox", "[-25 -254 1000 880]"),
    ("ItalicAngle", "0"), ("Ordering", "Japan1"), ("Panose", "0"),
    ("Registry", "Adobe"), ("StemV", "93"), ("Supplement", "2"),
    ("W", "65 -500 66 300 065 250")]

/-- The metrics that are read from it. -/
def repeatingMetrics : FontMetrics where
  ascent := 880
  capHeight := 880
  descent := -120
  flags := 6
  bbox := ⟨-25, -254, 1000, 880⟩
  italicAngle := 0
  stemV := 93
  panose := "0"
  registry := "Adobe"
  ordering := "Japan1"
  supplement := 2
  widths := .ofList [(65, -500), (66, 300), (65, 250)]
  verticalWidths := .empty

/-- The record without one field and without the width of a code. -/
def brokenRecord : Record :=
  (repeatingRecord.erase "FontBBox").insert "W" "65 -500 66"

/-- A code with two widths keeps the last one; of two bad fields the first one
    is named. -/
theorem parse_reports_repeating :
    parse "Gothic" repeatingRecord = .ok repeatingMetrics
      ∧ IsToldBy repeatingRecord repeatingMetrics
      ∧ repeatingMetrics.widths.get 65 = 250
      ∧ (∃ field ∈ fields, field.IsBad brokenRecord)
      ∧ ∃ field, IsFirstBad brokenRecord fields field
        ∧ field.key = "FontBBox" := by
  have hok : parse "Gothic" repeatingRecord = .ok repeatingMetrics := rfl
  have herror : parse "Gothic" brokenRecord
      = .error (.malformedField "Gothic" "FontBBox") := rfl
  obtain ⟨-, -, htold⟩ := parse_reports "Gothic" repeatingRecord
  obtain ⟨hfails, hfirst, -⟩ := parse_reports "Gothic" brokenRecord
  obtain ⟨field, hfield, he⟩ := (hfirst _).mp herror
  exact ⟨hok, htold _ hok, rfl, hfails.mp ⟨_, herror⟩, field, hfield,
    (Error.malformedField.inj he).2.symm⟩

end FontMetrics

end Pdf
