import Pdf.Proofs.Xref.FreeList

/-! # Lockstep — the entries from the lowest number up

    The free numbers may also be listed first.  The entries are then made in
    order: whenever a number is free, the next one of that list is taken and
    named by its entry, until the list is used up and 0 is named.

    What such a pass still makes depends on the numbers and the names that are
    left (`linked`).  If these are the numbers above some number and the free
    ones among them but the first, it makes what the pass from the highest
    number down makes for them (`linked_eq_foldr`), so the two give the same
    entries for all places that can be noted (`entries_noted_eq`). -/

namespace Pdf.Xref.Places

/-- The free numbers but 0, in ascending order. -/
def freeNumbers (p : Places) : List Nat :=
  (List.range' 1 (p.size - 1)).filter p.isFree

/-- The entries of some numbers but 0.  Each free one takes a name from the
    list; 0 is named when there are no more names. -/
def linked (p : Places) : (numbers names : List Nat) → List Entry
  | [], _ => []
  | n :: numbers, names =>
      match p.places[n]? with
      | some place =>
          .inUse place.offset place.generation :: p.linked numbers names
      | none => .free (names.headD 0).toUInt32 0 :: p.linked numbers names.tail

/-- All entries in order.  Entry 0 names the first free number, and the other
    ones those behind it. -/
def entriesInOrder (p : Places) : List Entry :=
  .free (p.freeNumbers.headD 0).toUInt32 headGeneration
    :: p.linked (List.range' 1 (p.size - 1)) (p.freeNumbers.tail ++ [0])

/-- A last name of 0 is what is named without it. -/
theorem linked_concat_zero (p : Places) (numbers names : List Nat) :
    p.linked numbers (names ++ [0]) = p.linked numbers names := by
  induction numbers generalizing names with
  | nil => rfl
  | cons n numbers ih =>
      rw [linked, linked]
      cases p.places[n]? with
      | some place => exact congrArg _ (ih names)
      | none =>
          cases names with
          | nil => rfl
          | cons name names => exact congrArg _ (ih names)

/-- **THE TWO PASSES AGREE** on any numbers but 0, if the names are the free
    ones among them but the first. -/
theorem linked_eq_foldr (p : Places) {numbers : List Nat}
    (hpos : ∀ n ∈ numbers, n ≠ 0) :
    p.linked numbers (numbers.filter p.isFree).tail
      = (numbers.foldr p.prepend (0, [])).2 := by
  induction numbers with
  | nil => rfl
  | cons n numbers ih =>
      obtain ⟨hn, hnumbers⟩ := List.forall_mem_cons.mp hpos
      have hlater := ih hnumbers
      have hnext := p.fst_foldr_prepend numbers
      rw [List.foldr_cons]
      generalize numbers.foldr p.prepend (0, []) = later at hlater hnext ⊢
      rw [linked, prepend]
      cases hplace : p.places[n]? with
      | some place =>
          have hused : ¬ p.isFree n = true := by
            rw [isFree_iff, hplace]
            exact Option.some_ne_none place
          rw [List.filter_cons_of_neg hused]
          exact congrArg _ hlater
      | none =>
          -- the name is the first free number behind this one
          rw [List.filter_cons_of_pos (isFree_iff.mpr hplace), List.tail_cons,
            hlater, ← hnext, if_neg hn]

/-- If number 0 is free, the pass in order makes all entries. -/
theorem entries_eq_entriesInOrder {p : Places} (hpos : 0 < p.size)
    (hzero : p.places[0]? = none) : p.entries = p.entriesInOrder := by
  have hhigher : ∀ n ∈ List.range' 1 (p.size - 1), n ≠ 0 := by
    intro n hn
    have hbounds := List.mem_range'_1.mp hn
    omega
  rw [entries, range_eq_cons hpos, List.nil_append, List.foldr_cons, prepend,
    hzero, fst_foldr_prepend, ← linked_eq_foldr p hhigher, entriesInOrder,
    linked_concat_zero]
  rfl

/-- **THE FREE NUMBERS AND THE ENTRIES GO IN STEP**: whatever calls are made,
    the entries are those of the pass in order. -/
theorem entries_noted_eq (size : Nat) (calls : List (Ref × Nat)) :
    (noted size calls).entries = (noted size calls).entriesInOrder := by
  refine entries_eq_entriesInOrder ?_ (getElem?_noted_zero size calls)
  rw [size_noted]
  omega

end Pdf.Xref.Places
