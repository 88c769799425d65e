import Pdf.Font.Segment
import Pdf.Proofs.Syntax.RoundTrip

/-! # Compaction — widths in segments, read back

    A `/W` array lists widths in two forms, a list behind its first code and a
    range with one width.  A reader of the format expands both of them
    (`widthArray?`), and what it gets from the array of some codes is exactly
    the widths of these codes, in ascending order.

    The proof goes through the segments.  Putting a code in front of segments
    puts it in front of what they expand to, however the segments are joined;
    this is all that is used of the way in which they are built.  The written
    form of segments is not the one of an array of objects, because a bracket
    needs no blank around it, so it is read back on its own. -/

namespace Pdf

open Bytes (byte)
open Syntax

/-! ## The reader -/

/-- Some consecutive codes, the first of them given, with their widths. -/
def consecutive {α : Type} (first : Nat) (widths : List α) : List (Nat × α) :=
  (widths.zipIdx first).map fun (width, code) => (code, width)

/-- The codes and widths that the items of a `/W` array stand for. -/
def listedWidths? : List Object → Option (List (Nat × Int))
  | [] => some []
  | .integer first :: .array widths :: rest => do
      let first ← first.toNat?
      let widths ← widths.mapM Object.integer?
      let entries ← listedWidths? rest
      some (consecutive first widths ++ entries)
  | .integer first :: .integer last :: .integer width :: rest => do
      let first ← first.toNat?
      let last ← last.toNat?
      let entries ← listedWidths? rest
      some ((List.range' first (last + 1 - first)).map (·, width) ++ entries)
  | _ => none

/-- The codes and widths that a `/W` array stands for. -/
def widthArray? (bytes : Bytes) : Option (List (Nat × Int)) :=
  match read? bytes with
  | some (.array items, []) => listedWidths? items
  | _ => none

namespace Syntax

/-! ## Integers in an array -/

theorem signedDecimal_natCast (n : Nat) :
    Bytes.signedDecimal n = Bytes.decimal n := by
  rw [Bytes.signedDecimal, if_neg (Int.not_lt.mpr (Int.natCast_nonneg n))]
  rfl

theorem length_decimal_pos (n : Nat) : 0 < (Bytes.decimal n).length :=
  List.length_pos_iff.mpr (Bytes.decimal_ne_nil n)

theorem length_signedDecimal_pos (i : Int) :
    0 < (Bytes.signedDecimal i).length :=
  List.length_pos_iff.mpr (signedDecimal_ne_nil i)

/-- A number in front of the other items of an array. -/
theorem items?_integer {turns : Nat} (i : Int) {items : List Object}
    {tail rest : Bytes} (htail : Follows tail)
    (h : items? (turns + 1) tail = some (items, rest)) :
    items? (turns + 2) (Bytes.signedDecimal i ++ tail)
      = some (.integer i :: items, rest) :=
  @items?_cons (turns + 1) 0 (.integer i) items tail rest rfl
    (object?_integer turns i htail) h

/-- An integer with a blank behind it. -/
def terminated (i : Int) : Bytes := Bytes.signedDecimal i ++ [byte ' ']

/-- The blank belongs to what stands behind the integer. -/
theorem terminated_append (i : Int) (tail : Bytes) :
    terminated i ++ tail = Bytes.signedDecimal i ++ byte ' ' :: tail := by
  rw [terminated, List.append_assoc]
  rfl

/-- An integer may stand behind a blank. -/
theorem follows_terminated (i : Int) {tail : Bytes}
    (h : Follows (byte ' ' :: tail)) :
    Follows (byte ' ' :: (terminated i ++ tail)) := by
  rw [terminated_append]
  exact (starts_signedDecimal i).follows h

/-- The blank behind a number is skipped with it. -/
theorem items?_terminated {turns : Nat} (i : Int) {items : List Object}
    {tail rest : Bytes} (htail : Follows (byte ' ' :: tail))
    (h : items? (turns + 1) tail = some (items, rest)) :
    items? (turns + 2) (terminated i ++ tail)
      = some (.integer i :: items, rest) := by
  rw [terminated_append]
  refine items?_integer i htail ?_
  rw [items?_of_isSpace _ _ (by decide)]
  exact h

end Syntax

namespace Segment

/-! ## What segments expand to -/

/-- The range has at least one code. -/
def IsProper : Segment → Prop
  | range first last _ => first ≤ last
  | list _ _ _ => True

/-- A range stands for its first code and the range behind it. -/
theorem expand_range_cons {first last : Nat} (width : Int32)
    (h : first ≤ last) :
    (range first last width).expand
      = (first, width) :: (range (first + 1) last width).expand := by
  have hcount : last + 1 - first = last + 1 - (first + 1) + 1 := by omega
  rw [expand, hcount, List.range'_succ, List.map_cons]
  rfl

theorem expand_range_self (code : Nat) (width : Int32) :
    (range code code width).expand = [(code, width)] := by
  rw [expand_range_cons width (Nat.le_refl code), expand,
    show code + 1 - (code + 1) = 0 from Nat.sub_self _]
  rfl

theorem expand_list_cons (first : Nat) (width second : Int32)
    (widths : List Int32) :
    (list first width (second :: widths)).expand
      = (first, width) :: (list (first + 1) second widths).expand := rfl

/-- A code stands in front of what was there, and ranges stay proper. -/
theorem prepend_spec (e : Nat × Int32) {segments : List Segment}
    (h : ∀ s ∈ segments, s.IsProper) :
    (∀ s ∈ prepend e segments, s.IsProper)
      ∧ (prepend e segments).flatMap expand
        = e :: segments.flatMap expand := by
  obtain ⟨code, w⟩ := e
  -- a code that starts a list of its own
  have halone : (∀ s ∈ list code w [] :: segments, s.IsProper)
      ∧ (list code w [] :: segments).flatMap expand
        = (code, w) :: segments.flatMap expand :=
    ⟨List.forall_mem_cons.mpr ⟨trivial, h⟩, rfl⟩
  cases segments with
  | nil => exact halone
  | cons s rest =>
      obtain ⟨hs, hrest⟩ := List.forall_mem_cons.mp h
      cases s with
      | range first last width =>
          rw [prepend]
          by_cases hjoin : code + 1 = first ∧ w = width
          · obtain ⟨rfl, rfl⟩ := hjoin
            have hle : code ≤ last := Nat.le_of_succ_le hs
            rw [if_pos ⟨rfl, rfl⟩]
            refine ⟨List.forall_mem_cons.mpr ⟨hle, hrest⟩, ?_⟩
            rw [List.flatMap_cons, List.flatMap_cons,
              expand_range_cons w hle]
            rfl
          · rw [if_neg hjoin]
            exact halone
      | list first width widths =>
          cases widths with
          | nil =>
              rw [prepend]
              by_cases hjoin : code + 1 = first ∧ w = width
              · obtain ⟨rfl, rfl⟩ := hjoin
                rw [if_pos ⟨rfl, rfl⟩]
                refine ⟨List.forall_mem_cons.mpr
                  ⟨Nat.le_succ code, hrest⟩, ?_⟩
                rw [List.flatMap_cons, List.flatMap_cons,
                  expand_range_cons w (Nat.le_succ code), expand_range_self]
                rfl
              · rw [if_neg hjoin]
                by_cases hnext : code + 1 = first
                · rw [if_pos hnext, ← hnext]
                  exact ⟨List.forall_mem_cons.mpr ⟨trivial, hrest⟩, rfl⟩
                · rw [if_neg hnext]
                  exact halone
          | cons second widths =>
              rw [prepend]
              by_cases hjoin : code + 1 = first ∧ w = width
              · obtain ⟨rfl, rfl⟩ := hjoin
                rw [if_pos ⟨rfl, rfl⟩]
                refine ⟨List.forall_mem_cons.mpr ⟨Nat.le_succ code,
                  List.forall_mem_cons.mpr ⟨trivial, hrest⟩⟩, ?_⟩
                rw [List.flatMap_cons, List.flatMap_cons, List.flatMap_cons,
                  expand_range_cons w (Nat.le_succ code), expand_range_self,
                  expand_list_cons]
                rfl
              · rw [if_neg hjoin]
                by_cases hnext : code + 1 = first
                · rw [if_pos hnext, ← hnext]
                  exact ⟨List.forall_mem_cons.mpr ⟨trivial, hrest⟩, rfl⟩
                · rw [if_neg hnext]
                  exact halone

/-- Segments stand for the entries that they were built from. -/
theorem ofEntries_spec (entries : List (Nat × Int32)) :
    (∀ s ∈ ofEntries entries, s.IsProper)
      ∧ (ofEntries entries).flatMap expand = entries := by
  induction entries with
  | nil => exact ⟨fun _ hs => (nomatch hs), rfl⟩
  | cons e entries ih =>
      obtain ⟨hproper, hexpand⟩ := prepend_spec e ih.1
      exact ⟨hproper, hexpand.trans (congrArg _ ih.2)⟩

/-! ## Segments as objects -/

/-- The items of an array that a segment is written as. -/
def objects : Segment → List Object
  | range first last width =>
      [.integer first, .integer last, .integer width.toInt]
  | list first width widths =>
      [.integer first,
        .array ((width :: widths).map fun w => .integer w.toInt)]

/-- The widths of a reader, which knows no bound of integers. -/
def unbounded (e : Nat × Int32) : Nat × Int := (e.1, e.2.toInt)

/-- Widths that were made objects are read back as widths. -/
theorem mapM_integer? (widths : List Int32) :
    (widths.map fun w => Object.integer w.toInt).mapM Object.integer?
      = some (widths.map Int32.toInt) := by
  induction widths with
  | nil => rfl
  | cons w widths ih =>
      rw [List.map_cons, List.mapM_cons, ih]
      rfl

/-- It does not matter when the widths of consecutive codes are widened. -/
theorem map_unbounded_consecutive (first : Nat) (widths : List Int32) :
    (consecutive first widths).map unbounded
      = consecutive first (widths.map Int32.toInt) := by
  induction widths generalizing first with
  | nil => rfl
  | cons w widths ih => exact congrArg _ (ih (first + 1))

/-- The items of segments are read as what the segments stand for. -/
theorem listedWidths?_objects (segments : List Segment) :
    listedWidths? (segments.flatMap objects)
      = some ((segments.flatMap expand).map unbounded) := by
  induction segments with
  | nil => rfl
  | cons s segments ih =>
      rw [List.flatMap_cons, List.flatMap_cons, List.map_append]
      cases s with
      | range first last width =>
          show listedWidths? (.integer first :: .integer last
            :: .integer width.toInt :: segments.flatMap objects) = _
          rw [listedWidths?, ih, expand, List.map_map]
          rfl
      | list first width widths =>
          show listedWidths? (.integer first :: .array _
            :: segments.flatMap objects) = _
          have hlist : (list first width widths).expand.map unbounded
              = consecutive first ((width :: widths).map Int32.toInt) :=
            map_unbounded_consecutive first (width :: widths)
          rw [listedWidths?, ih, mapM_integer?, hlist]
          rfl

/-! ## The written form, read -/

/-- Each width of a list has a blank in front of it. -/
theorem printFollowing_integers (widths : List Int32) :
    Object.printFollowing 0 (widths.map fun w => .integer w.toInt)
      = widths.flatMap spaced := by
  induction widths with
  | nil => rfl
  | cons w widths ih =>
      rw [List.map_cons, Object.printFollowing, ih, List.flatMap_cons]
      rfl

/-- A range in front of the segments behind it. -/
theorem items?_range {turns first last : Nat} {width : Int32}
    {items : List Object} {tail rest : Bytes} (htail : Follows tail)
    (h : items? (turns + 1) tail = some (items, rest)) :
    items? (turns + 4) ((range first last width).print ++ tail)
      = some ((range first last width).objects ++ items, rest) := by
  have happ : (range first last width).print ++ tail = terminated first
      ++ (terminated last ++ (Bytes.signedDecimal width.toInt ++ tail)) := by
    simp [print, spaced, terminated, signedDecimal_natCast]
  have hfollows := (starts_signedDecimal width.toInt).follows htail
  have hwidth := items?_integer width.toInt htail h
  have hlast := items?_terminated last hfollows hwidth
  rw [happ]
  exact items?_terminated first (follows_terminated last hfollows) hlast

/-- A list in front of the segments behind it; its bracket ends it, whatever
    comes next. -/
theorem items?_list {turns first : Nat} {width : Int32}
    {widths : List Int32} {items : List Object} {tail rest : Bytes}
    (hlen : (list first width widths).print.length ≤ turns + 2)
    (h : items? (turns + 1) tail = some (items, rest)) :
    items? (turns + 3) ((list first width widths).print ++ tail)
      = some ((list first width widths).objects ++ items, rest) := by
  let others : List Object := widths.map fun w => .integer w.toInt
  have hplain : (Object.array others).isPlain = true := by
    refine (Object.isPlain_array others).mpr ?_
    intro o ho
    obtain ⟨w, -, rfl⟩ := List.mem_map.mp ho
    rfl
  have hprint : (list first width widths).print = Bytes.signedDecimal first
      ++ byte '[' :: (Bytes.signedDecimal width.toInt
        ++ (Object.printFollowing 0 others ++ [byte ']'])) := by
    rw [signedDecimal_natCast, printFollowing_integers]
    simp [print]
  have hfirst := length_signedDecimal_pos first
  have hwidth := length_signedDecimal_pos width.toInt
  rw [hprint, List.length_append, List.length_cons, List.length_append,
    List.length_append, List.length_singleton] at hlen
  obtain ⟨t, rfl⟩ : ∃ t, turns = t + 2 := ⟨turns - 2, by omega⟩
  -- the widths in their brackets, with the turns that are left for them
  have hitems := items?_printFollowing others 0 t tail hplain (by omega)
  have harray : object? (t + 3) ((Object.array
      (.integer width.toInt :: others)).print 0 ++ tail)
      = some (.array (.integer width.toInt :: others), tail) := by
    have hbrackets : (Object.array (.integer width.toInt :: others)).print 0
        ++ tail = byte '[' :: (Bytes.signedDecimal width.toInt
          ++ (Object.printFollowing 0 others ++ byte ']' :: tail)) := by
      simp [Object.print]
    rw [hbrackets]
    exact object?_array
      (items?_integer _ (follows_printFollowing 0 tail hplain) hitems)
  have hlist := @items?_cons (t + 3) 0 (.array (.integer width.toInt :: others))
    items tail rest ((Object.isPlain_array_cons _ _).trans hplain) harray h
  have hfollows : Follows ((Object.array
      (.integer width.toInt :: others)).print 0 ++ tail) :=
    follows_of_isDelimiter _ (by decide)
  have happ : (list first width widths).print ++ tail
      = Bytes.signedDecimal first ++ ((Object.array
        (.integer width.toInt :: others)).print 0 ++ tail) := by
    rw [hprint]
    simp [Object.print]
  rw [happ]
  exact items?_integer first hfollows hlist

/-- The blank between a range and the segments behind it. -/
def separator : Segment → List Segment → Bytes
  | range _ _ _, _ :: _ => [byte ' ']
  | _, _ => []

theorem printAll_cons (s : Segment) (segments : List Segment) :
    printAll (s :: segments)
      = s.print ++ (separator s segments ++ printAll segments) := by
  cases s with
  | range first last width =>
      cases segments with
      | nil => exact (List.append_nil _).symm
      | cons s segments => rfl
  | list first width widths =>
      cases segments with
      | nil => exact (List.append_nil _).symm
      | cons s segments => rfl

/-- Segments may stand behind a range and a blank. -/
theorem follows_printAll (s : Segment) (segments : List Segment)
    (tail : Bytes) :
    Follows (byte ' ' :: (printAll (s :: segments) ++ tail)) := by
  rw [printAll_cons, List.append_assoc]
  generalize _ ++ tail = more
  cases s with
  | range first last width =>
      have happ : (range first last width).print ++ more
          = Bytes.decimal first ++ byte ' ' :: (Bytes.decimal last
            ++ byte ' ' :: (Bytes.signedDecimal width.toInt ++ more)) := by
        simp [print, spaced]
      rw [happ]
      refine follows_blank_decimal first (endsWord_blank _) ?_
      rw [keyword?_of_isSpace "R" _ (by decide)]
      exact keyword?_decimal last (endsWord_blank _)
  | list first width widths =>
      have happ : (list first width widths).print ++ more
          = Bytes.decimal first ++ byte '[' :: (Bytes.signedDecimal
            width.toInt ++ (widths.flatMap spaced ++ byte ']' :: more)) := by
        simp [print]
      rw [happ]
      exact follows_blank_decimal first
        (endsWord_cons _ (isRegular_of_isDelimiter (by decide)))
        (keyword?_of_isDelimiter _ (by decide))

/-- A segment has a byte for each turn that its items take. -/
theorem four_le_length_print (s : Segment) : 4 ≤ s.print.length := by
  cases s with
  | range first last width =>
      have hfirst := length_decimal_pos first
      have hlast := length_decimal_pos last
      have hwidth := length_signedDecimal_pos width.toInt
      simp only [print, spaced, List.length_append, List.length_cons]
      omega
  | list first width widths =>
      have hfirst := length_decimal_pos first
      have hwidth := length_signedDecimal_pos width.toInt
      simp only [print, List.length_append, List.length_cons]
      omega

/-- **WRITTEN SEGMENTS ARE READ BACK** as the items that they are. -/
theorem items?_printAll (segments : List Segment) (turns : Nat)
    (rest : Bytes) (h : (printAll segments).length ≤ turns) :
    items? (turns + 1) (printAll segments ++ byte ']' :: rest)
      = some (segments.flatMap objects, rest) := by
  induction segments generalizing turns with
  | nil => exact items?_nil turns rest
  | cons s segments ih =>
      have hlen := four_le_length_print s
      rw [printAll_cons, List.length_append, List.length_append] at h
      rw [printAll_cons, List.append_assoc, List.append_assoc,
        List.flatMap_cons]
      cases s with
      | range first last width =>
          obtain ⟨t, rfl⟩ : ∃ t, turns = t + 3 := ⟨turns - 3, by omega⟩
          cases segments with
          | nil =>
              exact items?_range (follows_of_isDelimiter rest (by decide))
                (items?_nil t rest)
          | cons s segments =>
              -- a blank keeps the width apart from the next code
              refine items?_range (follows_printAll s segments _) ?_
              exact (items?_of_isSpace _ _ (by decide)).trans
                (ih t (by omega))
      | list first width widths =>
          obtain ⟨t, rfl⟩ : ∃ t, turns = t + 2 := ⟨turns - 2, by omega⟩
          exact items?_list (by omega) (ih t (by omega))

end Segment

namespace Advances

/-! ## The widths of some codes -/

/-- The codes that have a width are listed in ascending order. -/
theorem ascending_used (a : Advances) (codes : Std.ExtTreeSet UInt16) :
    (a.used codes).Pairwise fun e e' => e.1 < e'.1 := by
  have hcodes : codes.toList.Pairwise fun c c' => c < c' :=
    Std.ExtTreeSet.ordered_toList.imp fun h => Std.compare_eq_lt.mp h
  refine List.Pairwise.filter _ (List.pairwise_map.mpr ?_)
  exact hcodes

/-- The codes that are used are those that have a width. -/
theorem mem_used {a : Advances} {codes : Std.ExtTreeSet UInt16}
    {code : UInt16} {width : Int32} :
    (code, width) ∈ a.used codes
      ↔ code ∈ codes ∧ a.get code = width ∧ width ≠ 0 := by
  rw [used, List.mem_filter, List.mem_map, decide_eq_true_iff]
  constructor
  · rintro ⟨⟨c, hc, he⟩, hne⟩
    obtain ⟨rfl, rfl⟩ := Prod.mk.inj he
    exact ⟨Std.ExtTreeSet.mem_toList.mp hc, rfl, hne⟩
  · rintro ⟨hc, rfl, hne⟩
    exact ⟨⟨code, Std.ExtTreeSet.mem_toList.mpr hc, rfl⟩, hne⟩

/-- What a reader gets from the `/W` array of some codes. -/
def listed (a : Advances) (codes : Std.ExtTreeSet UInt16) :
    List (Nat × Int) :=
  (a.used codes).map fun e => (e.1.toNat, e.2.toInt)

/-- The segments stand for the codes that are listed, and no others. -/
theorem flatMap_expand_segments (a : Advances)
    (codes : Std.ExtTreeSet UInt16) :
    ((a.segments codes).flatMap Segment.expand).map Segment.unbounded
      = a.listed codes := by
  rw [segments, (Segment.ofEntries_spec _).2, List.map_map]
  rfl

/-- The array of some segments is read as their items. -/
theorem read?_printAll (segments : List Segment) :
    read? (byte '[' :: Segment.printAll segments ++ [byte ']'])
      = some (.array (segments.flatMap Segment.objects), []) := by
  have hitems := Segment.items?_printAll segments
    (Segment.printAll segments).length [] (Nat.le_refl _)
  rw [read?, List.cons_append, List.length_cons, List.length_append]
  exact object?_array hitems

/-- The array of some segments is read as what they stand for. -/
theorem widthArray?_printAll (segments : List Segment) :
    widthArray? (byte '[' :: Segment.printAll segments ++ [byte ']'])
      = some ((segments.flatMap Segment.expand).map Segment.unbounded) := by
  rw [widthArray?, read?_printAll]
  exact Segment.listedWidths?_objects segments

/-- There are segments for the codes that have a width. -/
theorem segments_eq_nil_iff (a : Advances) (codes : Std.ExtTreeSet UInt16) :
    a.segments codes = [] ↔ ∀ code ∈ codes, a.get code = 0 := by
  have hexpand := a.flatMap_expand_segments codes
  constructor
  · intro hnil code hc
    by_cases hzero : a.get code = 0
    · exact hzero
    · -- a code with a width is among what the segments stand for
      have hmem : (code.toNat, (a.get code).toInt) ∈ a.listed codes :=
        List.mem_map.mpr ⟨_, mem_used.mpr ⟨hc, rfl, hzero⟩, rfl⟩
      rw [← hexpand, hnil] at hmem
      exact nomatch hmem
  · intro hall
    have hused : a.used codes = [] := by
      refine List.eq_nil_iff_forall_not_mem.mpr ?_
      rintro ⟨code, width⟩ he
      obtain ⟨hc, rfl, hne⟩ := mem_used.mp he
      exact hne (hall code hc)
    rw [segments, hused]
    rfl

theorem horizontalArray_eq_none_iff (a : Advances)
    (codes : Std.ExtTreeSet UInt16) :
    a.horizontalArray codes = none ↔ a.segments codes = [] := by
  rw [horizontalArray]
  split
  · next h => exact iff_of_true rfl h
  · next h => exact iff_of_false (fun he => nomatch he) h

/-- If there is an array, it has all segments in it. -/
theorem eq_of_horizontalArray {a : Advances} {codes : Std.ExtTreeSet UInt16}
    {text : Bytes} (h : a.horizontalArray codes = some text) :
    text = byte '[' :: Segment.printAll (a.segments codes) ++ [byte ']'] := by
  rw [horizontalArray] at h
  split at h
  · exact nomatch h
  · exact (Option.some.inj h).symm

/-- A reader of the array gets what is listed. -/
theorem widthArray?_of_horizontalArray {a : Advances}
    {codes : Std.ExtTreeSet UInt16} {text : Bytes}
    (h : a.horizontalArray codes = some text) :
    widthArray? text = some (a.listed codes) := by
  rw [eq_of_horizontalArray h, widthArray?_printAll, flatMap_expand_segments]

theorem ascending_listed (a : Advances) (codes : Std.ExtTreeSet UInt16) :
    (a.listed codes).Pairwise fun e e' => e.1 < e'.1 :=
  List.pairwise_map.mpr ((a.ascending_used codes).imp
    fun h => UInt16.lt_iff_toNat_lt.mp h)

/-- A code is listed with its width, unless it has none. -/
theorem mem_listed {a : Advances} {codes : Std.ExtTreeSet UInt16}
    {code : Nat} {width : Int} :
    (code, width) ∈ a.listed codes
      ↔ ∃ c ∈ codes, c.toNat = code ∧ (a.get c).toInt = width
        ∧ a.get c ≠ 0 := by
  rw [listed, List.mem_map]
  constructor
  · rintro ⟨⟨c, w⟩, he, hcode⟩
    obtain ⟨hc, rfl, hne⟩ := mem_used.mp he
    obtain ⟨rfl, rfl⟩ := Prod.mk.inj hcode
    exact ⟨c, hc, rfl, rfl, hne⟩
  · rintro ⟨c, hc, rfl, rfl, hne⟩
    exact ⟨(c, a.get c), mem_used.mpr ⟨hc, rfl, hne⟩, rfl⟩

/-- **THE `/W` ARRAY LOSES NOTHING**: there is none exactly if no code has a
    width.  Otherwise a reader gets a list of codes and widths from it, in
    strictly ascending order of the codes, with exactly the codes that have a
    width, each with its own. -/
theorem horizontalArray_lossless (a : Advances)
    (codes : Std.ExtTreeSet UInt16) :
    (a.horizontalArray codes = none ↔ ∀ code ∈ codes, a.get code = 0)
      ∧ ∀ text, a.horizontalArray codes = some text →
        ∃ entries, widthArray? text = some entries
          ∧ entries.Pairwise (fun e e' => e.1 < e'.1)
          ∧ ∀ code width, (code, width) ∈ entries
            ↔ ∃ c ∈ codes, c.toNat = code ∧ (a.get c).toInt = width
              ∧ a.get c ≠ 0 := by
  refine ⟨?_, ?_⟩
  · rw [horizontalArray_eq_none_iff, segments_eq_nil_iff]
  · intro text htext
    exact ⟨a.listed codes, widthArray?_of_horizontalArray htext,
      a.ascending_listed codes, fun _ _ => mem_listed⟩

/-- Widths that call for both forms: equal ones, a negative one, a gap, and
    the highest code. -/
def sampleAdvances : Advances :=
  .ofList [(1, 100), (2, 200), (3, 200), (4, 200), (5, -30), (9, 0),
    (0xFFFE, 200), (0xFFFF, 200)]

/-- The codes of these widths, and one without a width. -/
def sampleCodes : Std.ExtTreeSet UInt16 :=
  .ofList ([1, 2, 3, 4, 5, 7, 9, 0xFFFE, 0xFFFF] : List UInt16)

/-- Ranges, a list and a negative width are read back from one array. -/
theorem horizontalArray_lossless_sample :
    sampleAdvances.horizontalArray sampleCodes
        = some (Bytes.ascii "[1[100]2 4 200 5[-30]65534 65535 200]")
      ∧ ∃ entries,
        widthArray? (Bytes.ascii "[1[100]2 4 200 5[-30]65534 65535 200]")
            = some entries
          ∧ entries.Pairwise (fun e e' => e.1 < e'.1)
          ∧ (5, -30) ∈ entries := by
  have htext : sampleAdvances.horizontalArray sampleCodes
      = some (Bytes.ascii "[1[100]2 4 200 5[-30]65534 65535 200]") := by
    decide +kernel
  obtain ⟨entries, hread, hascending, hmem⟩ :=
    (horizontalArray_lossless sampleAdvances sampleCodes).2 _ htext
  refine ⟨htext, entries, hread, hascending, (hmem _ _).mpr ?_⟩
  exact ⟨5, by decide +kernel, rfl, by decide +kernel, by decide +kernel⟩

end Advances

end Pdf
