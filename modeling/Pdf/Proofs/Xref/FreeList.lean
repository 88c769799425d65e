import Pdf.Proofs.Xref.Places

/-! # The free list — the numbers that no object has

    Objects may be noted in any order, again and again under one number, and
    under numbers beyond those that were asked for.  Of the calls under one
    number only the last one counts (`LastNoted`), and the entries reach up to
    the highest number.

    Every other number is free, and its entry names the next free one.  The
    entries are made from the highest number down, so the number that a free
    entry names is the first one that was found free behind it
    (`getElem?_entries_free`).  Who follows the names from entry 0 therefore
    meets all free numbers in ascending order and ends with an entry that names
    0. -/

namespace Pdf.Xref

/-! ## Following the names -/

/-- The numbers that are met from an entry on, up to one that names 0. -/
def follow (entries : List Entry) : (turns number : Nat) → Option (List Nat)
  | 0, _ => none
  | turns + 1, number =>
      match entries[number]? with
      | some (.free next _) =>
          if next = 0 then some []
          else (follow entries turns next.toNat).map (next.toNat :: ·)
      | _ => none

/-- The free list: the numbers that are met from entry 0 on.  No number is met
    twice on the way back to 0, so as many turns as there are entries are
    enough. -/
def freeList? (entries : List Entry) : Option (List Nat) :=
  follow entries entries.length 0

/-- If the entry of each of some numbers names the next one of them, and the
    last one names 0, then they are met one after the other. -/
theorem follow_of_names {entries : List Entry} {numbers : List Nat}
    (hnames : ∀ front n back, numbers = front ++ n :: back →
      ∃ generation, entries[n]?
        = some (.free (back.headD 0).toUInt32 generation))
    (hsmall : ∀ n ∈ numbers.tail, n ≠ 0 ∧ n < UInt32.size)
    {front path : List Nat} {n turns : Nat}
    (hsplit : numbers = front ++ n :: path) (hturns : path.length < turns) :
    follow entries turns n = some path := by
  induction path generalizing front n turns with
  | nil =>
      obtain ⟨turns, rfl⟩ := Nat.exists_eq_add_one.mpr hturns
      obtain ⟨generation, hentry⟩ := hnames front n [] hsplit
      rw [follow, hentry]
      rfl
  | cons m path ih =>
      obtain ⟨turns, rfl⟩ :=
        Nat.exists_eq_add_one.mpr (Nat.zero_lt_of_lt hturns)
      obtain ⟨generation, hentry⟩ := hnames front n (m :: path) hsplit
      have hsplit' : numbers = (front ++ [n]) ++ m :: path := by
        rw [hsplit, List.append_assoc, List.singleton_append]
      have hm : m ∈ numbers.tail := by
        rw [hsplit]
        cases front <;> simp
      obtain ⟨hne, hlt⟩ := hsmall m hm
      have hback : m.toUInt32.toNat = m := UInt32.toNat_ofNat_of_lt' hlt
      have hne' : m.toUInt32 ≠ 0 := by
        intro hzero
        rw [hzero] at hback
        exact hne hback.symm
      rw [List.headD_cons] at hentry
      simp only [follow, hentry, if_neg hne', hback,
        ih hsplit' (Nat.lt_of_succ_lt_succ hturns), Option.map_some]

namespace Places

/-- Whether no object was noted under a number. -/
def isFree (p : Places) (n : Nat) : Bool := p.places[n]?.isNone

theorem isFree_iff {p : Places} {n : Nat} :
    p.isFree n = true ↔ p.places[n]? = none :=
  Option.isNone_iff_eq_none

/-- The number that is handed on to lower ones is the first free one. -/
theorem fst_foldr_prepend (p : Places) (numbers : List Nat) :
    (numbers.foldr p.prepend (0, [])).1
      = (numbers.filter p.isFree).headD 0 := by
  induction numbers with
  | nil => rfl
  | cons n numbers ih =>
      rw [List.foldr_cons]
      generalize numbers.foldr p.prepend (0, []) = later at ih ⊢
      rw [prepend]
      cases hplace : p.places[n]? with
      | none =>
          rw [List.filter_cons_of_pos (isFree_iff.mpr hplace)]
          rfl
      | some place =>
          have hused : ¬ p.isFree n = true := by
            rw [isFree_iff, hplace]
            exact Option.some_ne_none place
          rw [List.filter_cons_of_neg hused]
          exact ih

/-- Each number adds one entry. -/
theorem length_foldr_prepend (p : Places) (numbers : List Nat)
    (later : Nat × List Entry) :
    (numbers.foldr p.prepend later).2.length
      = numbers.length + later.2.length := by
  induction numbers with
  | nil => exact (Nat.zero_add _).symm
  | cons n numbers ih =>
      rw [List.foldr_cons, List.length_cons, Nat.add_right_comm, ← ih]
      generalize numbers.foldr p.prepend later = rest
      rw [prepend]
      cases p.places[n]? with
      | none => rfl
      | some place => rfl

/-- The entry of a free number names the first free number behind it. -/
theorem getElem?_entries_free {p : Places} {front back : List Nat} {n : Nat}
    (hsplit : List.range p.size = front ++ n :: back)
    (hfree : p.isFree n = true) :
    p.entries[n]? = some (.free ((back.filter p.isFree).headD 0).toUInt32
      (if n = 0 then headGeneration else 0)) := by
  have hn : n = front.length := by
    have hget := congrArg (fun numbers => numbers[front.length]?) hsplit
    simp only [List.getElem?_append_right (Nat.le_refl _), Nat.sub_self,
      List.getElem?_cons_zero] at hget
    obtain ⟨hlt, he⟩ := List.getElem?_eq_some_iff.mp hget
    rw [← he, List.getElem_range]
  have hprepend : ∀ later : Nat × List Entry, p.prepend n later
      = (n, .free later.1.toUInt32 (if n = 0 then headGeneration else 0)
        :: later.2) := by
    intro later
    rw [prepend, isFree_iff.mp hfree]
  have hlength := p.length_foldr_prepend front (n, [])
  rw [entries, hsplit, List.foldr_append, List.foldr_cons, hprepend,
    foldr_prepend_append fun _ _ => rfl, fst_foldr_prepend]
  -- the entries of the numbers in front are as many as these numbers
  rw [List.getElem?_append_right (by rw [hlength, hn]; exact Nat.le_refl _),
    hlength, hn]
  simp

theorem range_eq_cons {size : Nat} (hpos : 0 < size) :
    List.range size = [] ++ 0 :: List.range' 1 (size - 1) := by
  obtain ⟨count, rfl⟩ := Nat.exists_eq_add_one.mpr hpos
  rw [List.range_eq_range', List.range'_succ]
  rfl

/-- If entry 0 is free, its list holds the other free numbers. -/
theorem freeList?_entries {p : Places} (hpos : 0 < p.size)
    (hbound : p.size ≤ UInt32.size) (hzero : p.places[0]? = none) :
    freeList? p.entries
      = some ((List.range' 1 (p.size - 1)).filter p.isFree) := by
  have hfilter : (List.range p.size).filter p.isFree
      = [] ++ 0 :: (List.range' 1 (p.size - 1)).filter p.isFree := by
    rw [range_eq_cons hpos, List.nil_append,
      List.filter_cons_of_pos (isFree_iff.mpr hzero)]
    rfl
  rw [freeList?, length_entries]
  refine follow_of_names ?_ ?_ hfilter ?_
  · -- free numbers that follow each other have none between them
    intro front n back hsplit
    obtain ⟨numbers, rest, happend, -, hrest⟩ :=
      List.filter_eq_append_iff.mp hsplit
    obtain ⟨used, later, hcons, -, hn, hback⟩ :=
      List.filter_eq_cons_iff.mp hrest
    have hparts : List.range p.size = (numbers ++ used) ++ n :: later := by
      rw [happend, hcons, List.append_assoc]
    rw [← hback]
    exact ⟨_, getElem?_entries_free hparts hn⟩
  · intro n hn
    rw [hfilter] at hn
    have hmem := List.mem_range'_1.mp (List.mem_filter.mp hn).1
    omega
  · have hlength := List.length_filter_le p.isFree
      (List.range' 1 (p.size - 1))
    rw [List.length_range'] at hlength
    omega

/-! ## Calls -/

/-- The places after some calls, each of a reference and an offset. -/
def noted (size : Nat) (calls : List (Ref × Nat)) : Places :=
  calls.foldl (fun p c => p.record c.1 c.2) (.ofSize size)

/-- The highest number under which an object was noted. -/
def highest (calls : List (Ref × Nat)) : Nat :=
  (calls.map fun c => c.1.number.toNat).foldr max 0

/-- A place is the one of the last call under a number. -/
def LastNoted (calls : List (Ref × Nat)) (n : Nat) (place : Place) : Prop :=
  ∃ front c back, calls = front ++ c :: back ∧ c.1.number.toNat = n
    ∧ place = ⟨c.2, c.1.generation⟩ ∧ ∀ d ∈ back, d.1.number.toNat ≠ n

theorem lastNoted_nil {n : Nat} {place : Place} :
    ¬ LastNoted [] n place := by
  rintro ⟨front, c, back, hsplit, -⟩
  exact absurd hsplit.symm (List.append_ne_nil_of_right_ne_nil _
    (List.cons_ne_nil _ _))

/-- The first call is the last one under its number if no other one is. -/
theorem lastNoted_cons {calls : List (Ref × Nat)} {c : Ref × Nat} {n : Nat}
    {place : Place} :
    LastNoted (c :: calls) n place
      ↔ LastNoted calls n place
        ∨ (c.1.number.toNat = n ∧ place = ⟨c.2, c.1.generation⟩
          ∧ ∀ d ∈ calls, d.1.number.toNat ≠ n) := by
  constructor
  · rintro ⟨front, d, back, hsplit, hlast⟩
    cases front with
    | nil =>
        obtain ⟨rfl, rfl⟩ := List.cons.inj hsplit
        exact Or.inr hlast
    | cons first front =>
        obtain ⟨-, rfl⟩ := List.cons.inj hsplit
        exact Or.inl ⟨front, d, back, rfl, hlast⟩
  · rintro (⟨front, d, back, rfl, hlast⟩ | hlast)
    · exact ⟨c :: front, d, back, rfl, hlast⟩
    · exact ⟨[], c, calls, rfl, hlast⟩

/-- A number with a call under it has a last one. -/
theorem exists_lastNoted_iff {calls : List (Ref × Nat)} {n : Nat} :
    (∃ place, LastNoted calls n place)
      ↔ ∃ c ∈ calls, c.1.number.toNat = n := by
  induction calls with
  | nil => simp [lastNoted_nil]
  | cons c calls ih =>
      simp only [lastNoted_cons, exists_or, ih, List.mem_cons,
        exists_eq_or_imp]
      by_cases hlater : ∃ d ∈ calls, d.1.number.toNat = n
      · exact iff_of_true (Or.inl hlater) (Or.inr hlater)
      · constructor
        · rintro (hd | ⟨place, hc, -⟩)
          · exact Or.inr hd
          · exact Or.inl hc
        · rintro (hc | hd)
          · refine Or.inr ⟨_, hc, rfl, ?_⟩
            intro d hd hn
            exact hlater ⟨d, hd, hn⟩
          · exact Or.inl hd

/-- What stands under a number comes from its last call, or it was there
    before. -/
theorem getElem?_foldl_noting {n : Nat} (hn : n ≠ 0) (p : Places)
    (calls : List (Ref × Nat)) (place : Place) :
    (calls.foldl (fun p c => p.record c.1 c.2) p).places[n]? = some place
      ↔ LastNoted calls n place
        ∨ (p.places[n]? = some place
          ∧ ∀ c ∈ calls, c.1.number.toNat ≠ n) := by
  induction calls generalizing p with
  | nil => simp [lastNoted_nil]
  | cons c calls ih =>
      rw [List.foldl_cons, ih, lastNoted_cons, List.forall_mem_cons]
      by_cases hc : c.1.number.toNat = n
      · have hne : c.1.number ≠ 0 := by
          intro hzero
          rw [hzero] at hc
          exact hn hc.symm
        rw [getElem?_record _ _ hne, if_pos hc.symm]
        grind
      · have hother : (p.record c.1 c.2).places[n]? = p.places[n]? := by
          by_cases hzero : c.1.number = 0
          · rw [record, if_pos hzero]
          · rw [getElem?_record _ _ hzero, if_neg (Ne.symm hc)]
        rw [hother]
        grind

/-- The place of a number is the one that was noted last. -/
theorem getElem?_noted (size : Nat) (calls : List (Ref × Nat)) {n : Nat}
    (hn : n ≠ 0) (place : Place) :
    (noted size calls).places[n]? = some place ↔ LastNoted calls n place := by
  have hempty : (ofSize size).places[n]? = none :=
    Std.ExtTreeMap.getElem?_empty
  rw [noted, getElem?_foldl_noting hn, hempty]
  simp

/-- Nothing is ever noted under number 0. -/
theorem getElem?_noted_zero (size : Nat) (calls : List (Ref × Nat)) :
    (noted size calls).places[0]? = none := by
  have hfold : ∀ p : Places, p.places[0]? = none →
      (calls.foldl (fun p c => p.record c.1 c.2) p).places[0]? = none := by
    induction calls with
    | nil => exact fun _ hp => hp
    | cons c calls ih =>
        intro p hp
        refine ih _ ?_
        show (p.record c.1 c.2).places[0]? = none
        by_cases hzero : c.1.number = 0
        · rw [record, if_pos hzero, hp]
        · rw [getElem?_record _ _ hzero, if_neg, hp]
          intro hnumber
          exact hzero (UInt32.toNat_inj.mp hnumber.symm)
  exact hfold _ Std.ExtTreeMap.getElem?_empty

/-- A call makes room for its number. -/
theorem size_record_of_pos {p : Places} (r : Ref) (offset : Nat)
    (hpos : 0 < p.size) :
    (p.record r offset).size = max p.size (1 + r.number.toNat) := by
  rw [record]
  by_cases hzero : r.number = 0
  · rw [if_pos hzero, hzero]
    exact (Nat.max_eq_left hpos).symm
  · rw [if_neg hzero, Nat.add_comm]

/-- The size is the one that was asked for, or leads beyond all numbers. -/
theorem size_noted (size : Nat) (calls : List (Ref × Nat)) :
    (noted size calls).size = max (max size 1) (1 + highest calls) := by
  have hfold : ∀ p : Places, 0 < p.size →
      (calls.foldl (fun p c => p.record c.1 c.2) p).size
        = max p.size (1 + highest calls) := by
    induction calls with
    | nil => exact fun p hpos => (Nat.max_eq_left hpos).symm
    | cons c calls ih =>
        intro p hpos
        have hsize := size_record_of_pos c.1 c.2 hpos
        have hhighest : highest (c :: calls)
            = max c.1.number.toNat (highest calls) := rfl
        rw [List.foldl_cons, ih _ (by omega), hsize, hhighest]
        omega
  exact hfold _ (Nat.lt_of_lt_of_le Nat.one_pos (Nat.le_max_right size 1))

theorem le_highest {calls : List (Ref × Nat)} {c : Ref × Nat}
    (hc : c ∈ calls) : c.1.number.toNat ≤ highest calls := by
  induction calls with
  | nil => cases hc
  | cons first calls ih =>
      rcases List.mem_cons.mp hc with rfl | hlater
      · exact Nat.le_max_left _ _
      · exact Nat.le_trans (ih hlater) (Nat.le_max_right _ _)

/-- The highest number has 32 bits. -/
theorem highest_lt (calls : List (Ref × Nat)) :
    highest calls < UInt32.size := by
  induction calls with
  | nil => exact Nat.zero_lt_of_lt (UInt32.toNat_lt_size 0)
  | cons c calls ih => exact Nat.max_lt.mpr ⟨c.1.number.toNat_lt_size, ih⟩

/-- A number is free if there is no call under it. -/
theorem isFree_noted_iff (size : Nat) (calls : List (Ref × Nat)) {n : Nat}
    (hn : n ≠ 0) :
    (noted size calls).isFree n = true
      ↔ ∀ c ∈ calls, c.1.number.toNat ≠ n := by
  rw [isFree_iff, Option.eq_none_iff_forall_ne_some]
  have hplace := getElem?_noted size calls hn
  constructor
  · intro hnone c hc hnumber
    obtain ⟨place, hlast⟩ := exists_lastNoted_iff.mpr ⟨c, hc, hnumber⟩
    exact hnone place ((hplace place).mpr hlast)
  · intro hother place hsome
    obtain ⟨c, hc, hnumber⟩ :=
      exists_lastNoted_iff.mp ⟨place, (hplace place).mp hsome⟩
    exact hother c hc hnumber

/-- The entries in use are the noted ones, with the places of the last calls. -/
theorem getElem?_entries_noted (size : Nat) (calls : List (Ref × Nat))
    (n offset : Nat) (generation : UInt16) :
    (noted size calls).entries[n]? = some (.inUse offset generation)
      ↔ n ≠ 0 ∧ LastNoted calls n ⟨offset, generation⟩ := by
  rw [getElem?_entries_inUse _ n ⟨offset, generation⟩]
  by_cases hn : n = 0
  · rw [hn, getElem?_noted_zero]
    simp
  · rw [getElem?_noted _ _ hn]
    constructor
    · rintro ⟨-, hlast⟩
      exact ⟨hn, hlast⟩
    · rintro ⟨-, hlast⟩
      obtain ⟨c, hc, rfl⟩ := exists_lastNoted_iff.mp ⟨_, hlast⟩
      have hle := le_highest hc
      refine ⟨?_, hlast⟩
      rw [size_noted]
      omega

/-- The other numbers but 0 are those that the list of entry 0 holds. -/
theorem mem_filter_isFree_noted (size : Nat) (calls : List (Ref × Nat))
    (n : Nat) :
    n ∈ (List.range' 1 ((noted size calls).size - 1)).filter
        (noted size calls).isFree
      ↔ n ≠ 0 ∧ n < (noted size calls).size
        ∧ ∀ c ∈ calls, c.1.number.toNat ≠ n := by
  rw [List.mem_filter, List.mem_range'_1]
  by_cases hn : n = 0
  · simp [hn]
  · have hsize := size_noted size calls
    have hrange : 1 ≤ n ∧ n < 1 + ((noted size calls).size - 1)
        ↔ n ≠ 0 ∧ n < (noted size calls).size := by
      omega
    rw [isFree_noted_iff _ _ hn, hrange, and_assoc]

/-- **FREE NUMBERS ARE LINKED**: whatever calls are made, there is an entry for
    every number up to the highest one that was asked for or noted.  Those in
    use are the noted ones, each with the place of its last call, and following
    the names from entry 0 meets all others once, in ascending order, and comes
    back to 0. -/
theorem freeList?_noted (size : UInt32) (calls : List (Ref × Nat)) :
    let entries := (noted size.toNat calls).entries
    entries.length = max (max size.toNat 1) (1 + highest calls)
      ∧ (∀ n, (∃ offset generation,
          entries[n]? = some (.inUse offset generation))
        ↔ n ≠ 0 ∧ ∃ c ∈ calls, c.1.number.toNat = n)
      ∧ (∀ n offset generation,
        entries[n]? = some (.inUse offset generation)
          ↔ n ≠ 0 ∧ LastNoted calls n ⟨offset, generation⟩)
      ∧ (∃ next, entries[0]? = some (.free next 65535))
      ∧ ∃ path, freeList? entries = some path
        ∧ path.Pairwise (· < ·)
        ∧ ∀ n, n ∈ path ↔ n ≠ 0 ∧ n < entries.length
          ∧ ∀ c ∈ calls, c.1.number.toNat ≠ n := by
  intro entries
  have hsize : (noted size.toNat calls).size
      = max (max size.toNat 1) (1 + highest calls) := size_noted _ calls
  have hlength : entries.length = (noted size.toNat calls).size :=
    length_entries _
  have hhighest := highest_lt calls
  have hasked : size.toNat < UInt32.size := size.toNat_lt_size
  have hzero := getElem?_noted_zero size.toNat calls
  have hinUse := getElem?_entries_noted size.toNat calls
  refine ⟨hlength.trans hsize, ?_, hinUse, ?_, _,
    freeList?_entries (by omega) (by omega) hzero, ?_, ?_⟩
  · intro n
    simp only [entries, hinUse, ← exists_lastNoted_iff]
    constructor
    · rintro ⟨offset, generation, hn, hlast⟩
      exact ⟨hn, _, hlast⟩
    · rintro ⟨hn, ⟨offset, generation⟩, hlast⟩
      exact ⟨offset, generation, hn, hlast⟩
  · have hrange : List.range (noted size.toNat calls).size
        = [] ++ 0 :: List.range' 1 ((noted size.toNat calls).size - 1) :=
      range_eq_cons (by omega)
    exact ⟨_, getElem?_entries_free hrange (isFree_iff.mpr hzero)⟩
  · exact List.Pairwise.filter _ (List.pairwise_lt_range' 1)
  · intro n
    rw [hlength]
    exact mem_filter_isFree_noted _ _ n

example : freeList? (noted 6 [(⟨3, 0⟩, 80), (⟨1, 0⟩, 15),
    (⟨3, 0⟩, 90)]).entries = some [2, 4, 5] := by
  decide +kernel

end Places

end Pdf.Xref
