import Mathlib.Algebra.Ring.Int.Defs
import Pdf.Proofs.Font.Viewing

/-! # Overflow — where 32 bits are too few for metrics

    A record may hold any 32-bit integers, and three computations combine them
    to further ones: layout adds the advances of a text, the `/W2` array takes
    opposites of advances and halves of widths, and the width of the bounding
    box is a difference.

    Layout adds exactly and checks the sum once, at the end.  Every advance in
    it is positive, so the sums on the way never exceed the last one, and a
    check after each addition comes to the same (`checkedSum_eq_fit`).  One
    integer has no opposite, every integer has a half, and a difference may be
    too large on either side. -/

namespace Pdf

/-- A computation that gives a value under a condition and overflows without
    it; it has no other way to fail. -/
structure OverflowsUnless {α : Type} (fits : Prop) (r : Except Error α) :
    Prop where
  completes : (∃ a, r = .ok a) ↔ fits
  overflows : r = .error .overflow ↔ ¬ fits

theorem OverflowsUnless.of_ok {α : Type} {fits : Prop} {a : α}
    (h : fits) : OverflowsUnless fits (.ok a) := by
  refine ⟨iff_of_true ⟨a, rfl⟩ h, iff_of_false ?_ (not_not_intro h)⟩
  intro hok
  cases hok

theorem OverflowsUnless.of_error {α : Type} {fits : Prop} (h : ¬ fits) :
    OverflowsUnless fits (.error .overflow : Except Error α) := by
  refine ⟨iff_of_false ?_ h, iff_of_true rfl h⟩
  rintro ⟨a, ha⟩
  cases ha

namespace Advances

/-! ## Integers of 32 bits -/

/-- The integers that 32 bits hold. -/
def Fits (i : Int) : Prop := -2147483648 ≤ i ∧ i ≤ 2147483647

theorem fits_toInt (w : Int32) : Fits w.toInt := by
  have hlow : (-2147483648 : Int) ≤ w.toInt := w.le_toInt
  have hhigh : w.toInt < 2147483648 := w.toInt_lt
  exact ⟨hlow, Int.le_of_lt_add_one hhigh⟩

theorem fit_of_fits {i : Int} (h : Fits i) :
    ∃ w, fit i = .ok w ∧ w.toInt = i :=
  fit_of_le h.1 h.2

/-- A result that does not fit is an overflow. -/
theorem fit_of_not_fits {i : Int} (h : ¬ Fits i) :
    fit i = .error .overflow :=
  if_neg h

/-- A result is delivered unless it does not fit. -/
theorem overflowsUnless_fit (i : Int) : OverflowsUnless (Fits i) (fit i) := by
  by_cases h : Fits i
  · obtain ⟨w, hw, -⟩ := fit_of_fits h
    rw [hw]
    exact .of_ok h
  · rw [fit_of_not_fits h]
    exact .of_error h

/-- Half of an integer is never too large. -/
theorem fits_tdiv_two (w : Int32) : Fits (w.toInt.tdiv 2) := by
  obtain ⟨hlow, hhigh⟩ := fits_toInt w
  have hhalf : (w.toInt.tdiv 2).natAbs = w.toInt.natAbs / 2 :=
    Int.natAbs_tdiv w.toInt 2
  constructor
  · omega
  · omega

/-! ## Sums -/

/-- The sum of some advances, checked after every addition. -/
def checkedSum : (total : Int32) → List Int32 → Except Error Int32
  | total, [] => .ok total
  | total, w :: ws =>
      match fit (total.toInt + w.toInt) with
      | .ok total => checkedSum total ws
      | .error e => .error e

/-- Widths that are not negative do not make a sum smaller. -/
theorem le_add_sum {ws : List Int32} (total : Int)
    (h : ∀ w ∈ ws, 0 ≤ w.toInt) : total ≤ total + (ws.map Int32.toInt).sum := by
  induction ws generalizing total with
  | nil =>
      show total ≤ total + 0
      omega
  | cons w ws ih =>
      obtain ⟨hw, hws⟩ := List.forall_mem_cons.mp h
      have hrest := ih (total + w.toInt) hws
      rw [List.map_cons, List.sum_cons]
      omega

/-- Without negative advances one check at the end is enough. -/
theorem checkedSum_eq_fit {ws : List Int32} (total : Int32)
    (h : ∀ w ∈ ws, 0 ≤ w.toInt) :
    checkedSum total ws = fit (total.toInt + (ws.map Int32.toInt).sum) := by
  induction ws generalizing total with
  | nil =>
      obtain ⟨w, hw, htotal⟩ := fit_of_fits (fits_toInt total)
      rw [List.map_nil, List.sum_nil, Int.add_zero, hw, checkedSum,
        Int32.toInt_inj.mp htotal]
  | cons w ws ih =>
      obtain ⟨hw, hws⟩ := List.forall_mem_cons.mp h
      rw [List.map_cons, List.sum_cons, ← Int.add_assoc, checkedSum]
      by_cases hfits : Fits (total.toInt + w.toInt)
      · obtain ⟨next, hnext, hsum⟩ := fit_of_fits hfits
        rw [hnext, ← hsum]
        exact ih next hws
      · -- the sum is too large already and only grows from here
        have hstart := fits_toInt total
        have hmore := le_add_sum (total.toInt + w.toInt) hws
        have hlast : ¬ Fits (total.toInt + w.toInt
            + (ws.map Int32.toInt).sum) := by
          rw [Fits] at hfits hstart ⊢
          omega
        rw [fit_of_not_fits hfits, fit_of_not_fits hlast]

/-! ## The `/W2` array -/

/-- The array can be written unless a code has the one metric without an
    opposite. -/
theorem overflowsUnless_verticalArray (vertical horizontal : Advances)
    (codes : Std.ExtTreeSet UInt16) :
    OverflowsUnless (∀ code ∈ codes, (vertical.get code).toInt ≠ -2147483648)
      (vertical.verticalArray horizontal codes) := by
  have hmin : ∀ w : Int32, w = Int32.minValue ↔ w.toInt = -2147483648 :=
    fun w => Int32.toInt_inj.symm
  by_cases h : ∃ code ∈ codes, vertical.get code = Int32.minValue
  · rw [verticalArray_eq_error horizontal h]
    obtain ⟨code, hcode, hget⟩ := h
    refine .of_error ?_
    intro hall
    exact hall code hcode ((hmin _).mp hget)
  · have hne : ∀ code ∈ codes, vertical.get code ≠ Int32.minValue :=
      fun code hcode hget => h ⟨code, hcode, hget⟩
    rw [verticalArray_eq_ok horizontal hne]
    refine .of_ok ?_
    intro code hcode hget
    exact hne code hcode ((hmin _).mpr hget)

end Advances

namespace FontMetrics

/-! ## Queries -/

/-- Of all metrics only the width of the bounding box is computed before it is
    scaled. -/
theorem overflowsUnless_measure (m : FontMetrics) (query : Query)
    (size : Float32) :
    OverflowsUnless (query = .maxAdvance →
        Advances.Fits (m.bbox.right.toInt - m.bbox.left.toInt))
      (m.measure query size) := by
  cases query with
  | maxAdvance =>
      rw [measure]
      by_cases h : Advances.Fits (m.bbox.right.toInt - m.bbox.left.toInt)
      · obtain ⟨units, hunits, -⟩ := Advances.fit_of_fits h
        rw [hunits]
        exact .of_ok fun _ => h
      · rw [Advances.fit_of_not_fits h]
        exact .of_error fun hfits => h (hfits rfl)
  | _ => exact .of_ok nofun

end FontMetrics

namespace CompositeFont

variable (f : CompositeFont) (text : String)

/-! ## Widths of texts -/

/-- Every character takes some room. -/
theorem one_le_advanceOf (cid : UInt16) : 1 ≤ (f.advanceOf cid).toInt := by
  rw [advanceOf]
  split
  · next h => exact Int32.lt_iff_toInt_lt.mp h
  · decide

/-- The advances of the characters of a text. -/
def advancesOf : List Int32 := (f.cids text).map f.advanceOf

/-- No character takes less room than one unit. -/
theorem one_le_of_mem_advancesOf {w : Int32} (h : w ∈ f.advancesOf text) :
    1 ≤ w.toInt := by
  obtain ⟨cid, -, rfl⟩ := List.mem_map.mp h
  exact f.one_le_advanceOf cid

/-- The width of a text is the sum of its widths, if this fits. -/
theorem width_eq_fit :
    f.width text = Advances.fit ((f.advancesOf text).map Int32.toInt).sum := by
  have hfold : ∀ (cids : List UInt16) (total : Int),
      cids.foldl (fun total cid => total + (f.advanceOf cid).toInt) total
        = total + ((cids.map f.advanceOf).map Int32.toInt).sum := by
    intro cids
    induction cids with
    | nil => exact fun total => (Int.add_zero total).symm
    | cons cid cids ih =>
        intro total
        rw [List.foldl_cons, ih, List.map_cons, List.map_cons, List.sum_cons,
          Int.add_assoc]
  rw [width, hfold, Int.zero_add]
  rfl

/-- A text is at least as wide as it is long. -/
theorem length_le_sum {ws : List Int32} (h : ∀ w ∈ ws, 1 ≤ w.toInt) :
    (ws.length : Int) ≤ (ws.map Int32.toInt).sum := by
  induction ws with
  | nil => exact Int.le_refl 0
  | cons w ws ih =>
      obtain ⟨hw, hws⟩ := List.forall_mem_cons.mp h
      have hrest := ih hws
      rw [List.length_cons, List.map_cons, List.sum_cons]
      omega

/-- **METRICS OVERFLOW EXACTLY BEYOND 32 BITS**: a text has a width unless its
    advances add up to more than 2147483647, which no check on the way would
    notice any earlier or later; they add up to at least the number of its
    UTF-16 codes, so with every font some text is too long.  Halving a width
    never overflows, and a `/W2` array can be written unless a character has
    the advance -2147483648.  A metric can be asked for at any size unless it
    is the width of a bounding box whose edges are too far apart. -/
theorem overflowsUnless_metrics (codes : Std.ExtTreeSet UInt16)
    (query : FontMetrics.Query) (size : Float32) :
    let m := f.metrics
    let total := ((f.advancesOf text).map Int32.toInt).sum
    OverflowsUnless (total ≤ 2147483647) (f.width text)
      ∧ (∀ w, f.width text = .ok w → w.toInt = total)
      ∧ f.width text = Advances.checkedSum 0 (f.advancesOf text)
      ∧ (Text.units text).length ≤ total
      ∧ (∀ w : Int32, Advances.Fits (w.toInt.tdiv 2))
      ∧ OverflowsUnless
        (∀ code ∈ codes, (m.verticalWidths.get code).toInt ≠ -2147483648)
        (m.verticalWidths.verticalArray m.widths codes)
      ∧ OverflowsUnless (query = .maxAdvance →
          Advances.Fits (m.bbox.right.toInt - m.bbox.left.toInt))
        (m.measure query size) := by
  intro m total
  have hpositive := fun w => @one_le_of_mem_advancesOf f text w
  have hlength : (f.advancesOf text).length = (Text.units text).length := by
    rw [advancesOf, cids, List.length_map, List.length_map]
  have hunits : ((Text.units text).length : Int) ≤ total := by
    rw [← hlength]
    exact length_le_sum hpositive
  -- the sum is not negative, so it can be too large only
  have hfits : Advances.Fits total ↔ total ≤ 2147483647 := by
    rw [Advances.Fits]
    omega
  have hwidth : f.width text = Advances.fit total := f.width_eq_fit text
  refine ⟨?_, ?_, ?_, hunits, Advances.fits_tdiv_two,
    Advances.overflowsUnless_verticalArray _ _ codes,
    m.overflowsUnless_measure query size⟩
  · rw [hwidth, ← hfits]
    exact Advances.overflowsUnless_fit total
  · intro w hw
    rw [hwidth] at hw
    exact Advances.toInt_of_fit hw
  · have hchecked := Advances.checkedSum_eq_fit 0
      fun w hw => Int.le_of_lt (hpositive w hw)
    rw [Int32.toInt_zero, Int.zero_add] at hchecked
    rw [hwidth, hchecked]

/-! ## Metrics at the limits -/

/-- A record with the largest advance and with the one that has no opposite,
    in a box that is as wide as its numbers allow. -/
def extremeRecord : Record := .ofList
  [("Ascent", "880"), ("CapHeight", "880"), ("Descent", "-120"),
    ("Flags", "6"), ("FontBBox", "[-2147483648 -254 2147483647 880]"),
    ("ItalicAngle", "0"), ("Ordering", "Japan1"), ("Panose", "0"),
    ("Registry", "Adobe"), ("StemV", "93"), ("Supplement", "2"),
    ("W", "65 2147483647"), ("W2", "65 -2147483648")]

/-- The metrics of this record. -/
def extremeMetrics : FontMetrics where
  ascent := 880
  capHeight := 880
  descent := -120
  flags := 6
  bbox := ⟨-2147483648, -254, 2147483647, 880⟩
  italicAngle := 0
  stemV := 93
  panose := "0"
  registry := "Adobe"
  ordering := "Japan1"
  supplement := 2
  widths := .ofList [(65, 2147483647)]
  verticalWidths := .ofList [(65, -2147483648)]

/-- A font with these metrics, for horizontal writing. -/
def extremeFont : CompositeFont where
  name := "Gothic"
  style := ""
  encoding := FontLibrary.horizontalIdentity
  codes := .ofArray #[]
  metrics := extremeMetrics

/-- At these metrics a single character still has a width, characters without a
    vertical advance can be listed, and all other metrics can be asked for. -/
theorem overflowsUnless_metrics_extremeFont :
    extremeFont.width "A" = .ok 2147483647
      ∧ ((extremeFont.advancesOf "A").map Int32.toInt).sum = 2147483647
      ∧ (∃ array, extremeMetrics.verticalWidths.verticalArray
        extremeMetrics.widths (.ofList [(66 : UInt16)]) = .ok array)
      ∧ ∃ value, extremeMetrics.measure .right 1000 = .ok value := by
  obtain ⟨-, hsum, -, -, -, harray, hvalue⟩ := overflowsUnless_metrics
    extremeFont "A" (.ofList [(66 : UInt16)]) .right 1000
  have hwidth : extremeFont.width "A" = .ok 2147483647 := rfl
  refine ⟨hwidth, (hsum _ hwidth).symm, harray.completes.mpr ?_,
    hvalue.completes.mpr nofun⟩
  intro code hcode
  rw [Std.ExtTreeSet.mem_ofList, List.contains_iff_mem,
    List.mem_singleton] at hcode
  rw [hcode]
  decide +kernel

/-- The record is accepted.  One character with the largest advance still has a
    width, two of them have none; neither the array for vertical writing nor
    the width of the box can be computed. -/
theorem overflows_extremeRecord :
    FontMetrics.parse extremeFont.name extremeRecord
        = .ok extremeFont.metrics
      ∧ extremeFont.width "A" = .ok 2147483647
      ∧ extremeFont.width "AA" = .error .overflow
      ∧ extremeMetrics.verticalWidths.verticalArray extremeMetrics.widths
        (.ofList [(65 : UInt16)]) = .error .overflow
      ∧ extremeMetrics.measure .maxAdvance 1000 = .error .overflow := by
  refine ⟨rfl, rfl, rfl, ?_, ?_⟩
  · refine Advances.verticalArray_eq_error _ ⟨65, ?_, ?_⟩
    · exact Std.ExtTreeSet.mem_ofList.mpr rfl
    · decide +kernel
  · rfl

end CompositeFont

end Pdf
