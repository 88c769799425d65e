import Pdf.Proofs.Body.Reachable

/-! # Sharing — what a shared reference leads to

    An item is shared under its fingerprint, and a later item with the same
    fingerprint gets the same reference.  An edit in between changes the item
    and not what is known of it, so the second item is not the one that is
    found under the reference: that is the first item with all edits since.

    The invariant of a run says where each known reference comes from
    (`Recalls`).  It speaks of the operations that were performed and of the
    changes that they made to each item, because a body does not keep them. -/

namespace Pdf.Body

/-! ## Runs -/

/-- The body after some operations. -/
def afterAll (b : Body) (operations : List Operation) : Body :=
  operations.foldl (fun b o => o.after b) b

/-- The change that an operation makes to the item under a reference, if it is
    an edit of it and there is an item. -/
def Operation.changes (r : Ref) (b : Body) : Operation → List (Item → Item)
  | edit target f => if target = r ∧ b.holds r = true then [f] else []
  | _ => []

/-- The changes that some operations make to the item under a reference. -/
def changes (r : Ref) : Body → List Operation → List (Item → Item)
  | _, [] => []
  | b, o :: operations => o.changes r b ++ changes r (o.after b) operations

/-- An item with some changes made to it, one after the other. -/
def changed (item : Item) (made : List (Item → Item)) : Item :=
  made.foldl (fun item f => f item) item

/-! ## What is known of shared items -/

/-- A known reference leads to an item that was shared, with the changes that
    were made to it, and nothing was changed where there is no item. -/
structure Recalls (past : List Operation) (made : Ref → List (Item → Item))
    (b : Body) : Prop where
  known : ∀ fingerprint r, b.known[fingerprint]? = some r →
    ∃ item, .share item ∈ past ∧ item.fingerprint = fingerprint
      ∧ b.items[r]? = some (changed item (made r))
  unchanged : ∀ r, b.items[r]? = none → made r = []

section

variable {past : List Operation} {made : Ref → List (Item → Item)} {b : Body}

/-- The empty body recalls nothing. -/
theorem recalls_empty : Recalls [] (fun _ => []) .empty := by
  refine ⟨?_, fun _ _ => rfl⟩
  intro fingerprint r h
  have hnone : Body.empty.known[fingerprint]? = none :=
    Std.ExtTreeMap.getElem?_empty
  rw [hnone] at h
  exact nomatch h

/-- What is recalled was shared in any longer past as well. -/
theorem Recalls.more {o : Operation} (h : Recalls past made b) :
    Recalls (past ++ [o]) made b := by
  refine ⟨?_, h.unchanged⟩
  intro fingerprint r hr
  obtain ⟨item, hmem, hitem⟩ := h.known fingerprint r hr
  exact ⟨item, List.mem_append_left _ hmem, hitem⟩

/-- A new item hides no other one. -/
theorem Recalls.store {r : Ref} (item : Item) (h : Recalls past made b)
    (hr : b.items[r]? = none) : Recalls past made (b.store r item) := by
  refine ⟨?_, ?_⟩
  · intro fingerprint s hs
    obtain ⟨shared, hmem, hfingerprint, hitem⟩ := h.known fingerprint s hs
    have hne : s ≠ r := by
      intro he
      rw [he, hr] at hitem
      exact nomatch hitem
    refine ⟨shared, hmem, hfingerprint, ?_⟩
    rw [getElem?_store, if_neg hne]
    exact hitem
  · intro s hs
    rw [getElem?_store] at hs
    by_cases he : s = r
    · rw [if_pos he] at hs
      exact nomatch hs
    · rw [if_neg he] at hs
      exact h.unchanged s hs

/-- A new item that is shared is known from then on. -/
theorem Recalls.share {r : Ref} {item : Item} (h : Recalls past made b)
    (hr : b.items[r]? = none) (hmem : .share item ∈ past) :
    Recalls past made { b.store r item with
      known := b.known.insert item.fingerprint r } := by
  have hstore := h.store item hr
  refine ⟨?_, hstore.unchanged⟩
  intro fingerprint s hs
  rw [Std.ExtTreeMap.getElem?_insert] at hs
  by_cases he : compare item.fingerprint fingerprint = .eq
  · rw [if_pos he] at hs
    rw [← Option.some.inj hs]
    refine ⟨item, hmem, Std.LawfulEqCmp.eq_of_compare he, ?_⟩
    -- nothing was changed under this reference yet
    rw [h.unchanged r hr]
    show (b.store r item).items[r]? = _
    rw [getElem?_store, if_pos rfl]
    rfl
  · rw [if_neg he] at hs
    exact hstore.known fingerprint s hs

/-- An edit is one more change of its item. -/
theorem Recalls.edit {r : Ref} {item : Item} (f : Item → Item)
    (h : Recalls past made b) (hr : b.items[r]? = some item) :
    Recalls past (fun s => made s ++ (Operation.edit r f).changes s b)
      (b.store r (f item)) := by
  have hholds : b.holds r = true := by
    rw [holds_eq, hr]
    rfl
  refine ⟨?_, ?_⟩
  · intro fingerprint s hs
    obtain ⟨shared, hmem, hfingerprint, hitem⟩ := h.known fingerprint s hs
    refine ⟨shared, hmem, hfingerprint, ?_⟩
    rw [getElem?_store]
    by_cases he : s = r
    · rw [he] at hitem ⊢
      rw [if_pos rfl, Operation.changes, if_pos ⟨rfl, hholds⟩, changed,
        List.foldl_append]
      rw [hr] at hitem
      rw [Option.some.inj hitem]
      rfl
    · have hne : ¬ (r = s ∧ b.holds s = true) := fun hand => he hand.1.symm
      rw [if_neg he, Operation.changes, if_neg hne, List.append_nil]
      exact hitem
  · intro s hs
    rw [getElem?_store] at hs
    by_cases he : s = r
    · rw [if_pos he] at hs
      exact nomatch hs
    · have hne : ¬ (r = s ∧ b.holds s = true) := fun hand => he hand.1.symm
      rw [if_neg he] at hs
      rw [Operation.changes, if_neg hne, List.append_nil]
      exact h.unchanged s hs

/-- **ONE OPERATION** leaves a body that recalls the operation, too. -/
theorem recalls_after (o : Operation) (hs : b.Sound)
    (h : Recalls past made b) :
    Recalls (past ++ [o]) (fun r => made r ++ o.changes r b) (o.after b) := by
  have hmore : Recalls (past ++ [o]) made b := h.more
  cases o with
  | reserve =>
      simp only [Operation.changes, List.append_nil]
      rw [Operation.after, run_reserve]
      split
      · exact hmore
      · exact ⟨hmore.known, hmore.unchanged⟩
  | add item =>
      simp only [Operation.changes, List.append_nil]
      rw [Operation.after, run_add]
      split
      · exact hmore
      · have hissue : Recalls _ made b.issue :=
          ⟨hmore.known, hmore.unchanged⟩
        exact hissue.store item hs.getElem?_nextRef
  | fill r item =>
      simp only [Operation.changes, List.append_nil]
      rw [Operation.after, run_fill]
      split
      · exact hmore
      · split
        · exact hmore
        · next hholds =>
            rw [holds_eq, Option.not_isSome_iff_eq_none] at hholds
            exact hmore.store item hholds
  | share item =>
      simp only [Operation.changes, List.append_nil]
      rw [Operation.after, run_share]
      split
      · exact hmore
      · split
        · exact hmore
        · have hissue : Recalls _ made b.issue :=
            ⟨hmore.known, hmore.unchanged⟩
          exact hissue.share hs.getElem?_nextRef
            (List.mem_append_right _ List.mem_cons_self)
  | edit r f =>
      rw [Operation.after, run_edit]
      cases hr : b.items[r]? with
      | some item => exact hmore.edit f hr
      | none =>
          have hnone : ∀ s, (Operation.edit r f).changes s b = [] := by
            intro s
            refine if_neg ?_
            rintro ⟨rfl, hholds⟩
            rw [holds_eq, hr] at hholds
            cases hholds
          simp only [hnone, List.append_nil]
          exact hmore

/-- **ALL OPERATIONS** leave a body that recalls them and the edits that they
    made. -/
theorem recalls_afterAll (operations : List Operation) (hs : b.Sound)
    (h : Recalls past made b) :
    Recalls (past ++ operations)
        (fun r => made r ++ changes r b operations) (b.afterAll operations)
      ∧ (b.afterAll operations).Sound := by
  induction operations generalizing past made b with
  | nil =>
      simp only [changes, List.append_nil]
      exact ⟨h, hs⟩
  | cons o operations ih =>
      have hrest := ih (sound_after o hs) (recalls_after o hs h)
      simp only [List.append_assoc] at hrest
      exact hrest

end

/-! ## Shared references -/

/-- **A SHARED REFERENCE LEADS TO THE ITEM WITH ALL CHANGES SINCE**: after any
    operations, if no other item that was shared has the fingerprint of this
    one, then sharing an item gives a reference under which it is found with
    the changes that the operations made under this reference, and so exactly
    as it is if there were none. -/
theorem lookup_share (operations : List Operation) (item : Item) {r : Ref}
    (hfree : ∀ other, .share other ∈ operations →
      other.fingerprint = item.fingerprint → other = item)
    (h : ((share item).run (Body.empty.afterAll operations)).result = .ok r) :
    ((share item).run (Body.empty.afterAll operations)).state.lookup r
      = .ok (changed item (changes r .empty operations)) := by
  obtain ⟨hrecalls, hsound⟩ :=
    recalls_afterAll operations Reachable.empty.sound recalls_empty
  generalize hb : Body.empty.afterAll operations = b at *
  rw [run_share] at h ⊢
  cases hknown : b.known[item.fingerprint]? with
  | some s =>
      simp only [hknown] at h ⊢
      obtain ⟨other, hmem, hfingerprint, hitem⟩ := hrecalls.known _ _ hknown
      rw [hfree other hmem hfingerprint, Except.ok.inj h] at hitem
      rw [lookup, hitem]
      rfl
  | none =>
      simp only [hknown] at h ⊢
      by_cases hfull : highestNumber ≤ b.issued
      · rw [if_pos hfull] at h
        cases h
      · rw [if_neg hfull] at h ⊢
        have hr : b.nextRef = r := Except.ok.inj h
        have hnone : changes r .empty operations = [] := by
          rw [← hr]
          exact hrecalls.unchanged _ hsound.getElem?_nextRef
        rw [hnone, ← hr]
        show (b.issue.store b.nextRef item).lookup b.nextRef = _
        rw [lookup_store, if_pos rfl]
        rfl

/-- A stream that is shared and then edited. -/
def sampleShared : Item := .stream { data := Bytes.ascii "q Q" }

/-- The stream is shared and excepted from compression. -/
def editedOnce : List Operation :=
  [.share sampleShared, .edit ⟨1, 0⟩ (Item.withPolicy .uncompressed)]

/-- The edit is taken back, so the stream is shared as it is. -/
theorem lookup_share_restored :
    ((share sampleShared).run (Body.empty.afterAll (editedOnce
        ++ [.reserve, .edit ⟨1, 0⟩ (Item.withPolicy .automatic)]))).result
        = .ok ⟨1, 0⟩
      ∧ ((share sampleShared).run (Body.empty.afterAll (editedOnce
        ++ [.reserve, .edit ⟨1, 0⟩ (Item.withPolicy .automatic)]))).state.lookup
        ⟨1, 0⟩ = .ok sampleShared := by
  refine ⟨rfl, lookup_share _ _ ?_ rfl⟩
  simp [editedOnce]

/-- The edit stays, and sharing the stream again gives the reference of the
    edited one, although nothing else was shared. -/
theorem lookup_share_edited :
    (∀ other, .share other ∈ editedOnce →
        other.fingerprint = sampleShared.fingerprint → other = sampleShared)
      ∧ ((share sampleShared).run (Body.empty.afterAll editedOnce)).result
        = .ok ⟨1, 0⟩
      ∧ ((share sampleShared).run (Body.empty.afterAll editedOnce)).state.lookup
        ⟨1, 0⟩ = .ok (sampleShared.withPolicy .uncompressed)
      ∧ sampleShared.withPolicy .uncompressed ≠ sampleShared := by
  refine ⟨by simp [editedOnce], rfl, rfl, ?_⟩
  intro h
  exact nomatch (Stream.mk.inj (Item.stream.inj h)).2.2

end Pdf.Body
