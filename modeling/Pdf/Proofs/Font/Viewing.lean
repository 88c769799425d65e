import Pdf.Font.Composite
import Pdf.Proofs.Font.Compaction
import Pdf.Proofs.Object.Entries

/-! # Viewing — advances as layout and as a viewer have them

    Layout measures a text with the metrics of the font.  A viewer measures it
    with the dictionary that was written: it takes the advance of a character
    from the `/W` array or, for vertical writing, the opposite of its
    displacement from the `/W2` array, and the standard advance for characters
    that are not listed.

    A character that was used is listed if its metric is not zero, while layout
    replaces every metric that is not positive.  So the two of them differ by
    the negative metrics, and by nothing else. -/

namespace Pdf

open Bytes (byte)
open Syntax

/-! ## The reader -/

/-- The displacements among numbers that are three for each code: behind a
    displacement stands the position of an origin. -/
def displacements? : List Int → Option (List Int)
  | [] => some []
  | displacement :: _ :: _ :: rest =>
      (displacements? rest).map (displacement :: ·)
  | _ => none

/-- The codes and displacements that the items of a `/W2` array stand for. -/
def listedDisplacements? : List Object → Option (List (Nat × Int))
  | [] => some []
  | .integer first :: .array metrics :: rest => do
      let first ← first.toNat?
      let metrics ← metrics.mapM Object.integer?
      let displacements ← displacements? metrics
      let entries ← listedDisplacements? rest
      some (consecutive first displacements ++ entries)
  | .integer first :: .integer last :: .integer displacement
      :: .integer _ :: .integer _ :: rest => do
    let first ← first.toNat?
    let last ← last.toNat?
    let entries ← listedDisplacements? rest
    some ((List.range' first (last + 1 - first)).map (·, displacement)
      ++ entries)
  | _ => none

/-- The codes and displacements that a `/W2` array stands for. -/
def displacementArray? (bytes : Bytes) : Option (List (Nat × Int)) :=
  match read? bytes with
  | some (.array items, []) => listedDisplacements? items
  | _ => none

/-- The advances that the dictionary of a descendant font lists.  Vertical
    writing runs downwards, so an advance is the opposite of a displacement. -/
def viewedAdvances? (vertical : Bool) (d : Dict) : Option (List (Nat × Int)) :=
  if vertical then
    (d.get? (.key "W2")).elim (some []) fun array =>
      (displacementArray? array.written).map (·.map fun e => (e.1, -e.2))
  else (d.get? (.key "W")).elim (some []) fun array =>
    widthArray? array.written

/-- The advance of a character, the standard one if it is not listed. -/
def viewedAdvance (entries : List (Nat × Int)) (cid : UInt16) : Int :=
  (entries.lookup cid.toNat).getD 1000

/-- The advance of some characters. -/
def viewedWidth (entries : List (Nat × Int)) (cids : List UInt16) : Int :=
  cids.foldl (fun total cid => total + viewedAdvance entries cid) 0

namespace Syntax

/-! ## Integers with a blank behind each of them -/

/-- Integers, each with a blank behind it, may stand behind a blank. -/
theorem follows_flatMap_terminated (integers : List Int) (rest : Bytes) :
    Follows (byte ' ' :: (integers.flatMap terminated ++ byte ']' :: rest))
    := by
  induction integers with
  | nil => exact @follows_of_blanks [byte ' '] _ rest (by decide) (by decide)
  | cons i integers ih =>
      rw [List.flatMap_cons, List.append_assoc]
      exact follows_terminated i ih

/-- Integers that stand one behind the other are read one by one. -/
theorem items?_flatMap_terminated (integers : List Int) (turns : Nat)
    (rest : Bytes) :
    items? (turns + integers.length + 1)
        (integers.flatMap terminated ++ byte ']' :: rest)
      = some (integers.map .integer, rest) := by
  induction integers with
  | nil => exact items?_nil turns rest
  | cons i integers ih =>
      rw [List.flatMap_cons, List.append_assoc]
      exact items?_terminated i (follows_flatMap_terminated integers rest) ih

theorem length_le_flatMap_terminated (integers : List Int) :
    integers.length ≤ (integers.flatMap terminated).length := by
  induction integers with
  | nil => exact Nat.le_refl 0
  | cons i integers ih =>
      rw [List.flatMap_cons, List.length_append, terminated,
        List.length_append, List.length_cons, List.length_singleton]
      omega

/-- An array of such integers is read back. -/
theorem read?_terminated (integers : List Int) :
    read? (byte '[' :: integers.flatMap terminated ++ [byte ']'])
      = some (.array (integers.map .integer), []) := by
  obtain ⟨t, ht⟩ :=
    Nat.exists_eq_add_of_le' (length_le_flatMap_terminated integers)
  rw [read?, List.cons_append, List.length_cons, List.length_append, ht]
  exact object?_array (items?_flatMap_terminated integers t [])

end Syntax

namespace Advances

/-! ## The `/W2` array, read -/

/-- A number fits unless it is too large or too small. -/
theorem fit_of_le {i : Int} (hmin : Int32.minValue.toInt ≤ i)
    (hmax : i ≤ Int32.maxValue.toInt) :
    ∃ w, fit i = .ok w ∧ w.toInt = i := by
  refine ⟨i.toInt32, if_pos ⟨hmin, hmax⟩, ?_⟩
  exact Int32.toInt_ofInt_of_le hmin (Int.lt_add_one_of_le hmax)

theorem toInt_of_fit {i : Int} {w : Int32} (h : fit i = .ok w) :
    w.toInt = i := by
  by_cases hi : Int32.minValue.toInt ≤ i ∧ i ≤ Int32.maxValue.toInt
  · obtain ⟨w', hfit, hw'⟩ := fit_of_le hi.1 hi.2
    rw [hfit] at h
    rw [← Except.ok.inj h]
    exact hw'
  · rw [fit, if_neg hi] at h
    exact nomatch h

/-- The numbers of a code: the code twice, its displacement, and its origin. -/
def verticalNumbers (horizontal : Advances) (e : UInt16 × Int32) : List Int :=
  let width :=
    if horizontal.get e.1 = 0 then standard else horizontal.get e.1
  [e.1.toNat, e.1.toNat, -e.2.toInt, width.toInt.tdiv 2, originHeight]

/-- The entry of a code is written unless its advance has no opposite. -/
theorem verticalEntry_eq (horizontal : Advances) (e : UInt16 × Int32) :
    verticalEntry horizontal e
      = if e.2 = Int32.minValue then .error .overflow
        else .ok ((verticalNumbers horizontal e).flatMap terminated) := by
  obtain ⟨code, advance⟩ := e
  by_cases hmin : advance = Int32.minValue
  · rw [if_pos hmin, hmin]
    rfl
  · have hne : advance.toInt ≠ Int32.minValue.toInt :=
      fun he => hmin (Int32.toInt_inj.mp he)
    have hlow : (-2147483648 : Int) ≤ advance.toInt := advance.le_toInt
    have hhigh : advance.toInt < 2147483648 := advance.toInt_lt
    have hminValue : Int32.minValue.toInt = -2147483648 := rfl
    have hmaxValue : Int32.maxValue.toInt = 2147483647 := rfl
    obtain ⟨down, hfit, hdown⟩ := @fit_of_le (-advance.toInt)
      (by omega) (by omega)
    rw [if_neg hmin, verticalEntry, hfit]
    show Except.ok _ = Except.ok _
    simp [verticalNumbers, terminated, Segment.spaced,
      signedDecimal_natCast, hdown]

/-- Vertical metrics are written unless one of them cannot be negated. -/
theorem mapM_verticalEntry (horizontal : Advances)
    (entries : List (UInt16 × Int32)) :
    entries.mapM (verticalEntry horizontal)
      = if ∃ e ∈ entries, e.2 = Int32.minValue then .error .overflow
        else .ok (entries.map fun e =>
          (verticalNumbers horizontal e).flatMap terminated) := by
  induction entries with
  | nil => exact (if_neg (by simp)).symm
  | cons e entries ih =>
      rw [List.mapM_cons, ih, verticalEntry_eq]
      simp only [List.mem_cons, exists_eq_or_imp]
      by_cases hhead : e.2 = Int32.minValue
      · rw [if_pos hhead, if_pos (Or.inl hhead)]
        rfl
      · rw [if_neg hhead]
        by_cases htail : ∃ e ∈ entries, e.2 = Int32.minValue
        · rw [if_pos htail, if_pos (Or.inr htail)]
          rfl
        · rw [if_neg htail, if_neg (not_or_intro hhead htail)]
          rfl

/-- The numbers of some codes are read as their displacements. -/
theorem listedDisplacements?_verticalNumbers (horizontal : Advances)
    (entries : List (UInt16 × Int32)) :
    listedDisplacements?
        ((entries.flatMap (verticalNumbers horizontal)).map .integer)
      = some (entries.map fun e => (e.1.toNat, -e.2.toInt)) := by
  induction entries with
  | nil => rfl
  | cons e entries ih =>
      have hitems : ∀ rest, (verticalNumbers horizontal e ++ rest).map
          Object.integer = .integer e.1.toNat :: .integer e.1.toNat
          :: .integer (-e.2.toInt) :: .integer _ :: .integer _
          :: rest.map .integer := fun _ => rfl
      have hone : e.1.toNat + 1 - e.1.toNat = 1 := by omega
      rw [List.flatMap_cons, hitems, listedDisplacements?, ih]
      show some ((List.range' e.1.toNat (e.1.toNat + 1 - e.1.toNat)).map _
        ++ _) = _
      rw [hone]
      rfl

/-- The array of codes with an advance. -/
def verticalText (horizontal : Advances)
    (entries : List (UInt16 × Int32)) : Bytes :=
  byte '[' :: (entries.flatMap (verticalNumbers horizontal)).flatMap
    terminated ++ [byte ']']

/-- A reader gets the negated displacements back. -/
theorem displacementArray?_verticalText (horizontal : Advances)
    (entries : List (UInt16 × Int32)) :
    displacementArray? (verticalText horizontal entries)
      = some (entries.map fun e => (e.1.toNat, -e.2.toInt)) := by
  rw [displacementArray?, verticalText, read?_terminated]
  exact listedDisplacements?_verticalNumbers horizontal entries

/-- There is no array if some advance has no opposite. -/
theorem verticalArray_eq_error {vertical : Advances} (horizontal : Advances)
    {codes : Std.ExtTreeSet UInt16}
    (h : ∃ code ∈ codes, vertical.get code = Int32.minValue) :
    vertical.verticalArray horizontal codes = .error .overflow := by
  obtain ⟨code, hcode, hmin⟩ := h
  have hused : (code, Int32.minValue) ∈ vertical.used codes :=
    mem_used.mpr ⟨hcode, hmin, by decide⟩
  rw [verticalArray]
  split
  · next hnil =>
      rw [hnil] at hused
      exact nomatch hused
  · next hne =>
      rw [mapM_verticalEntry, if_pos ⟨_, hused, rfl⟩]
      rfl

/-- Otherwise there is one unless it would be empty. -/
theorem verticalArray_eq_ok {vertical : Advances} (horizontal : Advances)
    {codes : Std.ExtTreeSet UInt16}
    (h : ∀ code ∈ codes, vertical.get code ≠ Int32.minValue) :
    vertical.verticalArray horizontal codes
      = .ok (if vertical.used codes = [] then none
        else some (verticalText horizontal (vertical.used codes))) := by
  have hused : ¬ ∃ e ∈ vertical.used codes, e.2 = Int32.minValue := by
    rintro ⟨⟨code, advance⟩, he, rfl⟩
    obtain ⟨hcode, hadvance, -⟩ := mem_used.mp he
    exact h code hcode hadvance
  rw [verticalArray]
  split
  · next hnil => rw [hnil, if_pos rfl]
  · next hne =>
      rw [mapM_verticalEntry, if_neg hused, if_neg hne, verticalText,
        List.flatMap_assoc, List.flatMap_def]
      rfl

/-! ## The advance of one character -/

/-- In a list of ascending codes every code leads to its own width. -/
theorem lookup_of_mem {entries : List (Nat × Int)} {code : Nat} {width : Int}
    (h : entries.Pairwise fun e e' => e.1 < e'.1)
    (hmem : (code, width) ∈ entries) : entries.lookup code = some width := by
  obtain ⟨front, back, rfl⟩ := List.append_of_mem hmem
  refine List.lookup_eq_some_iff.mpr ⟨front, back, rfl, ?_⟩
  intro e he
  have hlt := (List.pairwise_append.mp h).2.2 e he _ List.mem_cons_self
  exact bne_iff_ne.mpr (Nat.ne_of_gt hlt)

/-- A viewer has the advance of every code that was used, unless it is zero. -/
theorem viewedAdvance_listed (a : Advances) {codes : Std.ExtTreeSet UInt16}
    {code : UInt16} (h : code ∈ codes) :
    viewedAdvance (a.listed codes) code
      = if a.get code = 0 then 1000 else (a.get code).toInt := by
  rw [viewedAdvance]
  by_cases hzero : a.get code = 0
  · have hnone : (a.listed codes).lookup code.toNat = none := by
      refine List.lookup_eq_none_iff.mpr ?_
      intro e he
      obtain ⟨c, -, hc, -, hne⟩ := mem_listed.mp he
      refine bne_iff_ne.mpr ?_
      intro heq
      rw [UInt16.toNat_inj.mp (hc.trans heq.symm)] at hne
      exact hne hzero
    rw [hnone, if_pos hzero]
    rfl
  · have hmem : (code.toNat, (a.get code).toInt) ∈ a.listed codes :=
      mem_listed.mpr ⟨code, h, rfl, rfl, hzero⟩
    rw [lookup_of_mem (a.ascending_listed codes) hmem, if_neg hzero]
    rfl

end Advances

namespace CompositeFont

/-! ## The dictionary, viewed -/

/-- Only the array of vertical writing may be impossible to write. -/
theorem descendantDict_eq_ok_iff {f : CompositeFont} {descriptor : Ref} :
    (∃ d, f.descendantDict descriptor = .ok d)
      ↔ (f.isVertical = true → ∀ cid ∈ f.used,
        f.metrics.verticalWidths.get cid ≠ Int32.minValue) := by
  rw [descendantDict, verticalArray]
  cases f.isVertical with
  | false => exact iff_of_true ⟨_, rfl⟩ nofun
  | true =>
      rw [if_pos rfl]
      by_cases hmin : ∃ cid ∈ f.used,
        f.metrics.verticalWidths.get cid = Int32.minValue
      · rw [Advances.verticalArray_eq_error _ hmin]
        obtain ⟨cid, hcid, he⟩ := hmin
        exact iff_of_false (fun ⟨_, h⟩ => nomatch h)
          (fun h => h rfl cid hcid he)
      · have hne : ∀ cid ∈ f.used,
            f.metrics.verticalWidths.get cid ≠ Int32.minValue :=
          fun cid hcid he => hmin ⟨cid, hcid, he⟩
        rw [Advances.verticalArray_eq_ok _ hne]
        exact iff_of_true ⟨_, rfl⟩ fun _ => hne

variable {f : CompositeFont} {descriptor : Ref} {d : Dict}

/-- A descendant font in the order in which its dictionary is built. -/
theorem descendantDict_eq (h : f.descendantDict descriptor = .ok d) :
    ∃ vertical, f.verticalArray = .ok vertical
      ∧ d = ((Dict.ofType (.key "Font")).insertMany
          [(.key "Subtype", .name (.key "CIDFontType0")),
           (.key "BaseFont", .name (.ofString f.baseName)),
           (.key "FontDescriptor", .reference descriptor)]
        |>.insertIfSome (.key "W") (f.horizontalArray.map .verbatim)
        |>.insertIfSome (.key "W2") (vertical.map .verbatim)
        |>.insert (.key "CIDSystemInfo") (.dictionary f.collectionDict)) := by
  rw [descendantDict] at h
  cases hvertical : f.verticalArray with
  | error e =>
      rw [hvertical] at h
      cases h
  | ok vertical =>
      rw [hvertical] at h
      exact ⟨vertical, rfl, (Except.ok.inj h).symm⟩

/-- The two arrays of widths stand in the descendant font. -/
theorem get?_descendantDict (h : f.descendantDict descriptor = .ok d) :
    ∃ vertical, f.verticalArray = .ok vertical
      ∧ d.get? (.key "W") = f.horizontalArray.map .verbatim
      ∧ d.get? (.key "W2") = vertical.map .verbatim := by
  obtain ⟨vertical, hvertical, rfl⟩ := descendantDict_eq h
  refine ⟨vertical, hvertical, ?_, ?_⟩
  · rw [Dictionary.get?_insert, if_neg (by decide),
      Dictionary.get?_insertIfSome _ _ (by decide)]
    cases f.horizontalArray with
    | none => rfl
    | some text => exact Dictionary.get?_insert _ _ _ _
  · rw [Dictionary.get?_insert, if_neg (by decide)]
    cases vertical with
    | none =>
        have hne : Name.key "W2" ≠ Name.key "W" := by decide
        exact Dictionary.get?_insertIfSome _ _ hne
    | some text => exact Dictionary.get?_insert _ _ _ _

/-- A viewer finds the widths of the characters that were used. -/
theorem viewedAdvances?_widths (h : f.descendantDict descriptor = .ok d) :
    viewedAdvances? false d = some (f.metrics.widths.listed f.used) := by
  obtain ⟨vertical, -, hw, -⟩ := get?_descendantDict h
  rw [viewedAdvances?, if_neg Bool.false_ne_true, hw]
  cases harray : f.horizontalArray with
  | none =>
      have hnil := (Advances.horizontalArray_eq_none_iff _ _).mp harray
      have hlisted : f.metrics.widths.listed f.used = [] := by
        rw [← Advances.flatMap_expand_segments, hnil]
        rfl
      exact congrArg some hlisted.symm
  | some text => exact Advances.widthArray?_of_horizontalArray harray

/-- A viewer finds the advances of the characters that were used. -/
theorem viewedAdvances?_descendantDict
    (h : f.descendantDict descriptor = .ok d) :
    viewedAdvances? f.isVertical d = some (f.advances.listed f.used) := by
  rw [advances]
  cases hdirection : f.isVertical with
  | false =>
      rw [if_neg Bool.false_ne_true]
      exact viewedAdvances?_widths h
  | true =>
      have hexists := descendantDict_eq_ok_iff.mp ⟨d, h⟩ hdirection
      obtain ⟨vertical, hvertical, -, hw2⟩ := get?_descendantDict h
      rw [verticalArray, hdirection, if_pos rfl,
        Advances.verticalArray_eq_ok _ hexists] at hvertical
      rw [viewedAdvances?, if_pos rfl, if_pos rfl, hw2,
        ← Except.ok.inj hvertical]
      by_cases hnil : f.metrics.verticalWidths.used f.used = []
      · rw [if_pos hnil, Advances.listed, hnil]
        rfl
      · rw [if_neg hnil]
        show (displacementArray? (Advances.verticalText _ _)).map _ = _
        rw [Advances.displacementArray?_verticalText, Advances.listed]
        simp

/-! ## Layout and file -/

theorem mem_foldl_insert {cid : UInt16} (cids : List UInt16)
    (used : Std.ExtTreeSet UInt16) :
    cid ∈ cids.foldl (·.insert ·) used ↔ cid ∈ used ∨ cid ∈ cids := by
  induction cids generalizing used with
  | nil => simp
  | cons c cids ih =>
      rw [List.foldl_cons, ih, Std.ExtTreeSet.mem_insert, List.mem_cons,
        Std.compare_eq_iff_eq, eq_comm, or_assoc, or_left_comm]

/-- The characters of a text are used with it. -/
theorem mem_used_use {text : String} {cid : UInt16}
    (h : cid ∈ f.cids text) : cid ∈ (f.use text).used :=
  (mem_foldl_insert _ _).mpr (Or.inr h)

/-- Layout and a viewer agree on a character unless its metric is negative;
    then layout is ahead. -/
theorem viewedAdvance_le_advanceOf {used : Std.ExtTreeSet UInt16}
    {cid : UInt16} (h : cid ∈ used) :
    viewedAdvance (f.advances.listed used) cid ≤ (f.advanceOf cid).toInt
      ∧ (viewedAdvance (f.advances.listed used) cid
          = (f.advanceOf cid).toInt ↔ 0 ≤ f.advances.get cid) := by
  rw [Advances.viewedAdvance_listed _ h, advanceOf]
  generalize f.advances.get cid = w
  have hstandard : Advances.standard.toInt = 1000 := rfl
  simp only [Int32.lt_iff_toInt_lt, Int32.le_iff_toInt_le,
    ← Int32.toInt_inj (x := w), Int32.toInt_zero]
  split <;> split <;> omega

/-- So a viewer falls behind at the first negative metric and never catches
    up. -/
theorem foldl_viewedAdvance_le {used : Std.ExtTreeSet UInt16}
    {cids : List UInt16} (h : ∀ cid ∈ cids, cid ∈ used) {viewed total : Int}
    (hle : viewed ≤ total) :
    cids.foldl (fun total cid =>
        total + viewedAdvance (f.advances.listed used) cid) viewed
        ≤ cids.foldl (fun total cid => total + (f.advanceOf cid).toInt) total
      ∧ (cids.foldl (fun total cid =>
          total + viewedAdvance (f.advances.listed used) cid) viewed
          = cids.foldl (fun total cid => total + (f.advanceOf cid).toInt) total
        ↔ viewed = total ∧ ∀ cid ∈ cids, 0 ≤ f.advances.get cid) := by
  induction cids generalizing viewed total with
  | nil =>
      refine ⟨hle, ?_⟩
      simp
  | cons cid cids ih =>
      obtain ⟨hcid, hcids⟩ := List.forall_mem_cons.mp h
      obtain ⟨hone, honeiff⟩ := @viewedAdvance_le_advanceOf f used cid hcid
      obtain ⟨hrest, hrestiff⟩ := ih hcids (Int.add_le_add hle hone)
      refine ⟨hrest, ?_⟩
      rw [List.foldl_cons, List.foldl_cons, hrestiff, List.forall_mem_cons,
        ← honeiff, ← and_assoc]
      refine and_congr_left fun _ => ?_
      omega

/-- **LAYOUT AND FILE AGREE EXACTLY ON METRICS THAT ARE NOT NEGATIVE**: a text
    that was used takes at most as much room for a viewer as layout gives to
    it, and takes all of it if and only if none of its characters has a
    negative metric.  The dictionary of the font can be written unless, for
    vertical writing, a character has the one metric without an opposite. -/
theorem viewedWidth_eq_width_iff (f : CompositeFont) (text : String)
    (descriptor : Ref) {total : Int32} (h : f.width text = .ok total) :
    ((∃ d, (f.use text).descendantDict descriptor = .ok d)
      ↔ (f.isVertical = true → ∀ cid ∈ (f.use text).used,
        f.metrics.verticalWidths.get cid ≠ Int32.minValue))
      ∧ ∀ d, (f.use text).descendantDict descriptor = .ok d →
        ∃ entries, viewedAdvances? f.isVertical d = some entries
          ∧ viewedWidth entries (f.cids text) ≤ total.toInt
          ∧ (viewedWidth entries (f.cids text) = total.toInt
            ↔ ∀ cid ∈ f.cids text, 0 ≤ f.advances.get cid) := by
  refine ⟨descendantDict_eq_ok_iff, ?_⟩
  intro d hd
  have hused : ∀ cid ∈ f.cids text, cid ∈ (f.use text).used :=
    fun cid => mem_used_use
  have hentries : viewedAdvances? f.isVertical d
      = some (f.advances.listed (f.use text).used) :=
    @viewedAdvances?_descendantDict (f.use text) descriptor d hd
  obtain ⟨hle, hiff⟩ := @foldl_viewedAdvance_le f _ _ hused 0 0 (Int.le_refl 0)
  rw [← Advances.toInt_of_fit h] at hle hiff
  refine ⟨_, hentries, hle, ?_⟩
  rw [viewedWidth, hiff, and_iff_right rfl]

/-- The metrics of a record with a negative advance. -/
def negativeMetrics : FontMetrics where
  ascent := 880
  capHeight := 880
  descent := -120
  flags := 6
  bbox := ⟨-25, -254, 1000, 880⟩
  italicAngle := 0
  stemV := 93
  panose := "0"
  registry := "Adobe"
  ordering := "Japan1"
  supplement := 2
  widths := .ofList [(65, -500), (66, 300)]
  verticalWidths := .empty

/-- A font with these metrics, for horizontal writing. -/
def negativeFont : CompositeFont where
  name := "Gothic"
  style := ""
  encoding := FontLibrary.horizontalIdentity
  codes := .ofArray #[]
  metrics := negativeMetrics

/-- On other characters of the font, listed or not, the two agree. -/
theorem viewedWidth_eq_width_iff_listed :
    negativeFont.width "BZ" = .ok 1300
      ∧ ∃ d entries, (negativeFont.use "BZ").descendantDict ⟨1, 0⟩ = .ok d
        ∧ viewedAdvances? negativeFont.isVertical d = some entries
        ∧ viewedWidth entries (negativeFont.cids "BZ") = 1300 := by
  have hwidth : negativeFont.width "BZ" = .ok 1300 := rfl
  obtain ⟨hdict, hagree⟩ :=
    viewedWidth_eq_width_iff negativeFont "BZ" ⟨1, 0⟩ hwidth
  have hhorizontal : negativeFont.isVertical = false := by decide
  obtain ⟨d, hd⟩ := hdict.mpr fun h => nomatch hhorizontal.symm.trans h
  obtain ⟨entries, hentries, -, hiff⟩ := hagree d hd
  have hcids : negativeFont.cids "BZ" = [66, 90] := rfl
  refine ⟨hwidth, d, entries, hd, hentries, hiff.mpr ?_⟩
  rw [hcids]
  refine List.forall_mem_cons.mpr
    ⟨?_, List.forall_mem_cons.mpr ⟨?_, nofun⟩⟩
  · decide +kernel
  · decide +kernel

/-- The record that these metrics are read from. -/
def negativeRecord : Record := .ofList
  [("Ascent", "880"), ("CapHeight", "880"), ("Descent", "-120"),
    ("Flags", "6"), ("FontBBox", "[-25 -254 1000 880]"),
    ("ItalicAngle", "0"), ("Ordering", "Japan1"), ("Panose", "0"),
    ("Registry", "Adobe"), ("StemV", "93"), ("Supplement", "2"),
    ("W", "65 -500 66 300")]

/-- For the character with the negative metric, layout moves on by the standard
    advance while a viewer goes back. -/
theorem viewedWidth_negativeFont :
    FontMetrics.parse negativeFont.name negativeRecord
        = .ok negativeFont.metrics
      ∧ negativeFont.width "A" = .ok 1000
      ∧ ∃ d entries, (negativeFont.use "A").descendantDict ⟨1, 0⟩ = .ok d
        ∧ viewedAdvances? negativeFont.isVertical d = some entries
        ∧ viewedWidth entries (negativeFont.cids "A") = -500 := by
  have hhorizontal : (negativeFont.use "A").isVertical = false := by decide
  obtain ⟨d, hd⟩ := (@descendantDict_eq_ok_iff (negativeFont.use "A")
    ⟨1, 0⟩).mpr fun h => nomatch hhorizontal.symm.trans h
  have hentries : viewedAdvances? negativeFont.isVertical d
      = some (negativeFont.advances.listed (negativeFont.use "A").used) :=
    @viewedAdvances?_descendantDict (negativeFont.use "A") _ d hd
  refine ⟨rfl, rfl, d, _, hd, hentries, ?_⟩
  decide +kernel

end CompositeFont

end Pdf
