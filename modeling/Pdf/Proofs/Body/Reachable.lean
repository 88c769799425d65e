import Pdf.Body.Basic

/-! # Reachable bodies — what every order of operations keeps

    A body is changed by five operations only, and `after_cases` says all that
    one of them can do: nothing, hand out the next number, with or without an
    item under it, or store an item under a number that was handed out before.
    Everything that holds of all bodies is read off these cases; here it is
    that numbers stay within the bound of the format and that items stand under
    numbers that were handed out (`Sound`). -/

namespace Pdf.Body

/-! ## Outcomes -/

theorem holds_eq (b : Body) (r : Ref) : b.holds r = b.items[r]?.isSome :=
  Std.ExtTreeMap.isSome_getElem?_eq_contains.symm

/-- The body with one more number handed out. -/
def issue (b : Body) : Body := { b with issued := b.issued + 1 }

/-- What reserving a number does, in one equation. -/
theorem run_reserve (b : Body) :
    reserve.run b = if highestNumber ≤ b.issued
      then ⟨.error .numbersExhausted, b, []⟩
      else ⟨.ok b.nextRef, b.issue, []⟩ := by
  rw [reserve, Action.run_bind_ok _ (Action.run_read b)]
  by_cases h : highestNumber ≤ b.issued
  · rw [if_pos h, if_pos h]
    rfl
  · rw [if_neg h, if_neg h]
    rfl

/-- What adding an item does, in one equation. -/
theorem run_add (item : Item) (b : Body) :
    (add item).run b = if highestNumber ≤ b.issued
      then ⟨.error .numbersExhausted, b, []⟩
      else ⟨.ok b.nextRef, b.issue.store b.nextRef item, []⟩ := by
  rw [add]
  by_cases h : highestNumber ≤ b.issued
  · have hr : reserve.run b = ⟨.error .numbersExhausted, b, []⟩ := by
      rw [run_reserve, if_pos h]
    rw [Action.run_bind_error _ hr, if_pos h]
  · have hr : reserve.run b = ⟨.ok b.nextRef, b.issue, []⟩ := by
      rw [run_reserve, if_neg h]
    rw [Action.run_bind_ok _ hr, if_neg h]
    rfl

/-- What filling a reference does, in one equation: the checks in their
    order. -/
theorem run_fill (r : Ref) (item : Item) (b : Body) :
    (fill r item).run b = if b.hasIssued r = false
      then ⟨.error (.danglingReference r none), b, []⟩
      else if b.holds r = true then ⟨.error (.alreadyStored r), b, []⟩
      else ⟨.ok (), b.store r item, []⟩ := by
  rw [fill, Action.run_bind_ok _ (Action.run_read b)]
  cases hissued : b.hasIssued r with
  | false => rfl
  | true =>
      cases hholds : b.holds r with
      | true => rfl
      | false => rfl

/-- What sharing an item does: a known fingerprint leads to its reference, and
    any other item is added. -/
theorem run_share (item : Item) (b : Body) :
    (share item).run b = match b.known[item.fingerprint]? with
      | some r => ⟨.ok r, b, []⟩
      | none => if highestNumber ≤ b.issued
          then ⟨.error .numbersExhausted, b, []⟩
          else ⟨.ok b.nextRef, { b.issue.store b.nextRef item with
            known := b.known.insert item.fingerprint b.nextRef }, []⟩ := by
  rw [share, Action.run_bind_ok _ (Action.run_read b)]
  cases b.known[item.fingerprint]? with
  | some r => rfl
  | none =>
      by_cases h : highestNumber ≤ b.issued
      · have ha : (add item).run b = ⟨.error .numbersExhausted, b, []⟩ := by
          rw [run_add, if_pos h]
        simp only [Action.run_bind_error _ ha, if_pos h]
        rfl
      · have ha : (add item).run b
            = ⟨.ok b.nextRef, b.issue.store b.nextRef item, []⟩ := by
          rw [run_add, if_neg h]
        simp only [Action.run_bind_ok _ ha, if_neg h]
        rfl

/-- What editing an item does: there must be one. -/
theorem run_edit (r : Ref) (f : Item → Item) (b : Body) :
    (edit r f).run b = match b.items[r]? with
      | some item => ⟨.ok (), b.store r (f item), []⟩
      | none => ⟨.error (.danglingReference r none), b, []⟩ := by
  rw [edit, Action.run_bind_ok _ (Action.run_read b), lookup]
  cases b.items[r]? with
  | some item => rfl
  | none => rfl

/-! ## Operations -/

/-- A call that may change a body. -/
inductive Operation where
  | reserve
  | add (item : Item)
  | fill (r : Ref) (item : Item)
  | share (item : Item)
  | edit (r : Ref) (f : Item → Item)

/-- The body after an operation, be it successful or not. -/
def Operation.after (b : Body) : Operation → Body
  | reserve => (Body.reserve.run b).state
  | add item => ((Body.add item).run b).state
  | fill r item => ((Body.fill r item).run b).state
  | share item => ((Body.share item).run b).state
  | edit r f => ((Body.edit r f).run b).state

/-- The bodies that operations build from the empty one. -/
inductive Reachable : Body → Prop where
  | empty : Reachable .empty
  | after {b : Body} (o : Operation) : Reachable b → Reachable (o.after b)

/-- All that an operation can do to a body. -/
theorem after_cases (o : Operation) (b : Body) :
    o.after b = b
      ∨ (b.issued < highestNumber ∧ o.after b = b.issue)
      ∨ (b.issued < highestNumber ∧ ∃ item known,
          o.after b = { b.issue.store b.nextRef item with known })
      ∨ (∃ r item, (b.hasIssued r = true ∨ b.items[r]?.isSome = true)
          ∧ o.after b = b.store r item) := by
  cases o with
  | reserve =>
      rw [Operation.after, run_reserve]
      by_cases h : highestNumber ≤ b.issued
      · exact Or.inl (by rw [if_pos h])
      · exact Or.inr (Or.inl ⟨Nat.lt_of_not_le h, by rw [if_neg h]⟩)
  | add item =>
      rw [Operation.after, run_add]
      by_cases h : highestNumber ≤ b.issued
      · exact Or.inl (by rw [if_pos h])
      · refine Or.inr (Or.inr (Or.inl ⟨Nat.lt_of_not_le h, item, b.known, ?_⟩))
        rw [if_neg h]
        rfl
  | fill r item =>
      rw [Operation.after, run_fill]
      cases hissued : b.hasIssued r with
      | false => exact Or.inl rfl
      | true =>
          rw [if_neg (by decide)]
          by_cases hholds : b.holds r = true
          · exact Or.inl (by rw [if_pos hholds])
          · refine Or.inr (Or.inr (Or.inr ⟨r, item, Or.inl hissued, ?_⟩))
            rw [if_neg hholds]
  | share item =>
      rw [Operation.after, run_share]
      cases b.known[item.fingerprint]? with
      | some r => exact Or.inl rfl
      | none =>
          by_cases h : highestNumber ≤ b.issued
          · exact Or.inl (by simp only [if_pos h])
          · refine Or.inr (Or.inr (Or.inl
              ⟨Nat.lt_of_not_le h, item,
                b.known.insert item.fingerprint b.nextRef, ?_⟩))
            simp only [if_neg h]
  | edit r f =>
      rw [Operation.after, run_edit]
      cases hr : b.items[r]? with
      | none => exact Or.inl rfl
      | some item =>
          refine Or.inr (Or.inr (Or.inr ⟨r, f item, Or.inr ?_, rfl⟩))
          rw [hr]
          rfl

/-! ## Soundness -/

/-- No number is beyond the bound of the format, and every item stands under a
    number that was handed out. -/
structure Sound (b : Body) : Prop where
  bounded : b.issued ≤ highestNumber
  issued : ∀ r, b.items[r]?.isSome = true → b.hasIssued r = true

/-- The next number is one above the numbers handed out. -/
theorem toNat_nextRef {b : Body} (h : b.issued ≤ highestNumber) :
    b.nextRef.number.toNat = b.issued + 1 := by
  have hlt : b.issued + 1 < 2 ^ 32 := by
    rw [highestNumber] at h
    omega
  exact Nat.mod_eq_of_lt hlt

/-- The references handed out are those of generation 0 up to the counter. -/
theorem hasIssued_iff (b : Body) (r : Ref) :
    b.hasIssued r = true
      ↔ r.number ≠ 0 ∧ r.number.toNat ≤ b.issued ∧ r.generation = 0 := by
  simp [hasIssued, and_assoc]

/-- Handing out a number takes none of the earlier ones back. -/
theorem hasIssued_issue {b : Body} {r : Ref} (h : b.hasIssued r = true) :
    b.issue.hasIssued r = true := by
  obtain ⟨hne, hle, hg⟩ := (hasIssued_iff b r).mp h
  exact (hasIssued_iff b.issue r).mpr ⟨hne, Nat.le_succ_of_le hle, hg⟩

/-- The number that was just handed out is known as such. -/
theorem hasIssued_nextRef {b : Body} (h : b.issued < highestNumber) :
    b.issue.hasIssued b.nextRef = true := by
  have hnum := toNat_nextRef (Nat.le_of_lt h)
  refine (hasIssued_iff _ _).mpr ⟨?_, Nat.le_of_eq hnum, rfl⟩
  intro hzero
  rw [hzero] at hnum
  exact nomatch hnum

/-- An item under a reference that was handed out keeps a body sound. -/
theorem sound_store {b : Body} {r : Ref} (item : Item) (h : b.Sound)
    (hr : b.hasIssued r = true) : (b.store r item).Sound := by
  refine ⟨h.bounded, ?_⟩
  intro r' hr'
  rw [getElem?_store] at hr'
  by_cases he : r' = r
  · rw [he]
    exact hr
  · rw [if_neg he] at hr'
    exact h.issued r' hr'

/-- Handing out a number keeps a body sound, unless it was the last one. -/
theorem sound_issue {b : Body} (h : b.Sound)
    (hlt : b.issued < highestNumber) : b.issue.Sound :=
  ⟨hlt, fun r hr => hasIssued_issue (h.issued r hr)⟩

/-- **ONE OPERATION** keeps a body sound. -/
theorem sound_after {b : Body} (o : Operation) (h : b.Sound) :
    (o.after b).Sound := by
  rcases after_cases o b with he | ⟨hlt, he⟩ | ⟨hlt, item, known, he⟩
    | ⟨r, item, hr, he⟩
  · rw [he]
    exact h
  · rw [he]
    exact sound_issue h hlt
  · -- what is known of shared items plays no part
    have hstore := sound_store item (sound_issue h hlt) (hasIssued_nextRef hlt)
    rw [he]
    exact ⟨hstore.bounded, hstore.issued⟩
  · rw [he]
    exact sound_store item h (hr.elim id (h.issued r))

/-- **NUMBERS ARE HANDED OUT BEFORE THEY ARE USED**, in every reachable
    body. -/
theorem Reachable.sound {b : Body} (h : b.Reachable) : b.Sound := by
  induction h with
  | empty =>
      refine ⟨Nat.zero_le _, ?_⟩
      intro r hr
      have hnone : Body.empty.items[r]? = none :=
        Std.ExtTreeMap.getElem?_empty
      rw [hnone] at hr
      exact nomatch hr
  | after o _ ih => exact sound_after o ih

/-! ## Numbers -/

/-- Every object of a sound body has a number that was handed out, and
    generation 0. -/
theorem Sound.of_mem_keys {b : Body} {r : Ref} (h : b.Sound)
    (hr : r ∈ b.items.keys) :
    r.number ≠ 0 ∧ r.number.toNat ≤ b.issued ∧ r.generation = 0 := by
  have hmem : r ∈ b.items := Std.ExtTreeMap.mem_keys.mp hr
  refine (hasIssued_iff b r).mp (h.issued r ?_)
  rw [Std.ExtTreeMap.getElem?_eq_some_getElem hmem]
  rfl

/-- References of one generation are ordered by their numbers. -/
theorem number_lt_of_compare {r s : Ref} (h : compare r s = .lt)
    (hg : r.generation = s.generation) : r.number < s.number := by
  have hthen : (compare r.number s.number).then
      (compare r.generation s.generation) = .lt := h
  rcases Ordering.then_eq_lt.mp hthen with hlt | ⟨-, hlt⟩
  · exact Std.compare_eq_lt.mp hlt
  · rw [hg] at hlt
    exact absurd (Std.compare_eq_lt.mp hlt) (UInt16.lt_irrefl _)

/-- The items of a body are listed by ascending numbers. -/
theorem Sound.ascending_keys {b : Body} (h : b.Sound) :
    b.items.keys.Pairwise fun r s => r.number < s.number := by
  refine List.Pairwise.imp_of_mem ?_ Std.ExtTreeMap.ordered_keys
  intro r s hr hs hlt
  refine number_lt_of_compare hlt ?_
  rw [(h.of_mem_keys hr).2.2, (h.of_mem_keys hs).2.2]

/-- Nothing stands under a reference that was not handed out. -/
theorem Sound.getElem?_of_not_issued {b : Body} {r : Ref} (hs : b.Sound)
    (hr : b.hasIssued r = false) : b.items[r]? = none := by
  refine Option.not_isSome_iff_eq_none.mp ?_
  intro hsome
  rw [hs.issued r hsome] at hr
  cases hr

/-- No item stands under the number that is handed out next. -/
theorem Sound.getElem?_nextRef {b : Body} (h : b.Sound) :
    b.items[b.nextRef]? = none := by
  cases hr : b.items[b.nextRef]? with
  | none => rfl
  | some item =>
      have hissued := h.issued b.nextRef (by rw [hr]; rfl)
      have hle := ((hasIssued_iff b _).mp hissued).2.1
      rw [toNat_nextRef h.bounded] at hle
      omega

/-- What all items of a list pass each stored item passes. -/
theorem of_all_items {b : Body} {p : Item → Bool}
    (h : b.items.toList.all (fun o => p o.2) = true) (r : Ref) (item : Item)
    (hitem : b.items[r]? = some item) : p item = true :=
  List.all_eq_true.mp h (r, item)
    (Std.ExtTreeMap.mem_toList_iff_getElem?_eq_some.mpr hitem)

/-! ## A small body -/

/-- A stream that lists a filter of its own. -/
def sampleStream : Stream where
  dict := Dictionary.ofList [(.key "Filter", .name (.key "RunLengthDecode"))]
  data := Bytes.ascii "BT ET"

/-- A catalog and a stream. -/
def sample : Body :=
  Operation.after (Operation.after .empty
    (.add (.value (.dictionary (Dict.ofType (.key "Catalog"))))))
    (.add (.stream sampleStream))

theorem reachable_sample : sample.Reachable := .after _ (.after _ .empty)

end Pdf.Body
