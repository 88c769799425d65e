import Pdf.Xref.Entry

/-! # Places — which entries are in use

    The entries of a section are made from the highest number down, because a
    free entry names the next free number.  What an entry leads to does not
    depend on that: read in order, the entries lead to the places that were
    noted (`map_place?_entries`), and all others are free. -/

namespace Pdf.Xref

/-- The place that an entry leads to, unless it is free. -/
def Entry.place? : Entry → Option Place
  | free _ _ => none
  | inUse offset generation => some ⟨offset, generation⟩

/-- Only entries in use have a place. -/
theorem Entry.place?_eq_some {e : Entry} {place : Place} :
    e.place? = some place ↔ e = .inUse place.offset place.generation := by
  cases e with
  | free next generation => exact ⟨fun h => (nomatch h), fun h => (nomatch h)⟩
  | inUse offset generation =>
      constructor
      · intro h
        rw [← Option.some.inj h]
      · intro h
        obtain ⟨ho, hg⟩ := Entry.inUse.inj h
        rw [ho, hg]
        rfl

namespace Places

/-- One number after the other is looked up. -/
theorem map_place?_foldr (p : Places) (numbers : List Nat) :
    (numbers.foldr p.prepend (0, [])).2.map Entry.place?
      = numbers.map fun n => p.places[n]? := by
  induction numbers with
  | nil => rfl
  | cons n numbers ih =>
      rw [List.foldr_cons, List.map_cons, ← ih]
      -- the next free number matters to free entries only
      generalize numbers.foldr p.prepend (0, []) = later
      rw [prepend]
      cases p.places[n]? with
      | none => rfl
      | some place => rfl

/-- The entries show the places of all numbers, in ascending order. -/
theorem map_place?_entries (p : Places) :
    p.entries.map Entry.place?
      = (List.range p.size).map fun n => p.places[n]? :=
  map_place?_foldr p _

/-- There is an entry for each number below the size. -/
theorem length_entries (p : Places) : p.entries.length = p.size := by
  have h := congrArg List.length (map_place?_entries p)
  rwa [List.length_map, List.length_map, List.length_range] at h

/-- The entries in use are the places of numbers below the size. -/
theorem getElem?_entries_inUse (p : Places) (n : Nat) (place : Place) :
    p.entries[n]? = some (.inUse place.offset place.generation)
      ↔ n < p.size ∧ p.places[n]? = some place := by
  have h := congrArg (fun places => places[n]?) (map_place?_entries p)
  simp only [List.getElem?_map] at h
  by_cases hn : n < p.size
  · rw [List.getElem?_range hn, Option.map_some] at h
    obtain ⟨e, he, hplace⟩ := Option.map_eq_some_iff.mp h
    rw [he, ← hplace]
    constructor
    · intro hsome
      exact ⟨hn, Entry.place?_eq_some.mpr (Option.some.inj hsome)⟩
    · rintro ⟨-, hsome⟩
      exact congrArg some (Entry.place?_eq_some.mp hsome)
  · have hnone : p.entries[n]? = none := by
      refine List.getElem?_eq_none ?_
      rw [length_entries]
      exact Nat.le_of_not_lt hn
    rw [hnone]
    exact ⟨fun h => (nomatch h), fun h => absurd h.1 hn⟩

/-- Entries that are there already stay behind those put in front of them. -/
theorem foldr_prepend_append {p q : Places} {numbers : List Nat}
    (h : ∀ n ∈ numbers, q.places[n]? = p.places[n]?) (next : Nat)
    (back : List Entry) :
    numbers.foldr q.prepend (next, back)
      = ((numbers.foldr p.prepend (next, [])).1,
        (numbers.foldr p.prepend (next, [])).2 ++ back) := by
  induction numbers with
  | nil => rfl
  | cons n numbers ih =>
      rw [List.foldr_cons, List.foldr_cons,
        ih fun m hm => h m (List.mem_cons_of_mem _ hm)]
      generalize numbers.foldr p.prepend (next, []) = later
      rw [prepend, prepend, h n List.mem_cons_self]
      cases p.places[n]? with
      | none => rfl
      | some place => rfl

/-- One more number, and in use, changes none of the entries of the others: the
    list of free numbers does not come to it. -/
theorem entries_concat {p q : Places} {place : Place}
    (hsize : q.size = p.size + 1)
    (hsame : ∀ n, n < p.size → q.places[n]? = p.places[n]?)
    (hlast : q.places[p.size]? = some place) :
    q.entries = p.entries ++ [.inUse place.offset place.generation] := by
  have hprepend : q.prepend p.size (0, [])
      = (0, [.inUse place.offset place.generation]) := by
    rw [prepend, hlast]
  rw [entries, hsize, List.range_succ, List.foldr_append, List.foldr_cons,
    List.foldr_nil, hprepend,
    foldr_prepend_append fun n hn => hsame n (List.mem_range.mp hn)]
  rfl

/-! ## Noting places -/

/-- A number that is recorded has its new place, the others keep theirs. -/
theorem getElem?_record {p : Places} {r : Ref} (offset n : Nat)
    (hr : r.number ≠ 0) :
    (p.record r offset).places[n]?
      = if n = r.number.toNat then some ⟨offset, r.generation⟩
        else p.places[n]? := by
  rw [record, if_neg hr, Std.ExtTreeMap.getElem?_insert]
  by_cases hn : n = r.number.toNat
  · rw [if_pos hn, hn, if_pos (Std.ReflCmp.compare_self)]
  · rw [if_neg hn,
      if_neg fun e => hn (Std.LawfulEqCmp.eq_of_compare e).symm]

/-- To record a number below the size does not change the size. -/
theorem size_record {p : Places} {r : Ref} (offset : Nat)
    (h : r.number.toNat < p.size) : (p.record r offset).size = p.size := by
  rw [record]
  by_cases hr : r.number = 0
  · rw [if_pos hr]
  · rw [if_neg hr]
    exact Nat.max_eq_left h

end Places

end Pdf.Xref
