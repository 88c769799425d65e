import Pdf.Proofs.Body.Identities
import Pdf.Proofs.File.Dangling

/-! # Growing bodies — what stays when items are added

    A body grows when references are handed out and items are stored where
    there are none: nothing that was stored is hidden (`Grows`), and the new
    references are different from each other and from all that were handed out
    before (`Adds`).

    While a body grows, its items may refer to others that are not stored yet.
    `Settled` keeps a list of these; every item that is stored takes itself off
    the list, and once nothing is left on it no reference dangles. -/

namespace Pdf.Body

variable {b b' : Body} {pending : List Ref}

/-! ## Growth -/

/-- The body with an item under the next reference. -/
def adding (b : Body) (item : Item) : Body := b.issue.store b.nextRef item

/-- A body that has become another one by new references and new items. -/
structure Grows (b b' : Body) : Prop where
  sound : b'.Sound
  issued : b.issued ≤ b'.issued
  kept : ∀ (r : Ref) item, b.items[r]? = some item → b'.items[r]? = some item

theorem Grows.refl (h : b.Sound) : b.Grows b :=
  ⟨h, Nat.le_refl _, fun _ _ hr => hr⟩

theorem Grows.trans {b'' : Body} (h : b.Grows b') (h' : b'.Grows b'') :
    b.Grows b'' :=
  ⟨h'.sound, Nat.le_trans h.issued h'.issued,
    fun r item hr => h'.kept r item (h.kept r item hr)⟩

/-- What was held is held in a body that has grown. -/
theorem Grows.held {r : Ref} (h : b.Grows b') (hr : b.items[r]? ≠ none) :
    b'.items[r]? ≠ none := by
  obtain ⟨item, hitem⟩ := Option.ne_none_iff_exists'.mp hr
  rw [h.kept r item hitem]
  exact Option.some_ne_none item

/-- Storing an item under a reference that holds nothing hides nothing. -/
theorem grows_store {r : Ref} (item : Item) (hs : b.Sound)
    (hr : b.hasIssued r = true) (hnone : b.items[r]? = none) :
    b.Grows (b.store r item) := by
  refine ⟨sound_store item hs hr, Nat.le_refl _, ?_⟩
  intro s other hother
  have hne : s ≠ r := by
    rintro rfl
    rw [hnone] at hother
    cases hother
  rw [getElem?_store, if_neg hne]
  exact hother

/-- Only the new reference leads to the new item. -/
theorem getElem?_adding (item : Item) (r : Ref) :
    (b.adding item).items[r]?
      = if r = b.nextRef then some item else b.items[r]? :=
  getElem?_store b.issue b.nextRef r item

/-- A body with one more item has grown. -/
theorem grows_adding (item : Item) (hs : b.Sound)
    (hlt : b.issued < highestNumber) : b.Grows (b.adding item) := by
  have hissue : b.Grows b.issue :=
    ⟨sound_issue hs hlt, Nat.le_succ _, fun _ _ hr => hr⟩
  exact hissue.trans (grows_store item hissue.sound (hasIssued_nextRef hlt)
    hs.getElem?_nextRef)

/-- References that were handed out stay so when an item is added. -/
theorem hasIssued_adding {r : Ref} (item : Item)
    (hr : b.hasIssued r = true) : (b.adding item).hasIssued r = true :=
  hasIssued_of_issued_le hr (Nat.le_succ _)

/-- One reference more is handed out. -/
theorem hasIssued_adding_iff {item : Item} {r : Ref}
    (hlt : b.issued < highestNumber) :
    (b.adding item).hasIssued r = true
      ↔ b.hasIssued r = true ∨ r = b.nextRef := by
  have hissued : (b.adding item).issued = b.issued + 1 := rfl
  rw [hasIssued_iff_mem (b := b.adding item) hlt, hissued,
    hasIssued_iff_mem (Nat.le_of_lt hlt), List.range'_1_concat,
    List.map_append, List.mem_append, List.map_singleton,
    List.mem_singleton, nextRef_eq, Nat.add_comm 1]

/-- A body that has become another one by references and items, the new
    references being these. -/
structure Adds (b : Body) (refs : List Ref) (b' : Body) : Prop
    extends b.Grows b' where
  distinct : refs.Nodup
  fresh : ∀ r ∈ refs, b.hasIssued r = false
  handed : ∀ r ∈ refs, b'.hasIssued r = true

/-- A body that grew without new items has nothing added. -/
theorem Grows.adds (h : b.Grows b') : b.Adds [] b' :=
  ⟨h, List.nodup_nil, List.forall_mem_nil _, List.forall_mem_nil _⟩

/-- What is new later was not handed out before either. -/
theorem Adds.trans {b'' : Body} {refs refs' : List Ref} (h : b.Adds refs b')
    (h' : b'.Adds refs' b'') : b.Adds (refs ++ refs') b'' := by
  refine ⟨h.toGrows.trans h'.toGrows, ?_, ?_, ?_⟩
  · refine List.nodup_append.mpr ⟨h.distinct, h'.distinct, ?_⟩
    rintro r hr s hs rfl
    have hhanded := h.handed r hr
    rw [h'.fresh r hs] at hhanded
    cases hhanded
  · intro r hr
    rcases List.mem_append.mp hr with hold | hnew
    · exact h.fresh r hold
    · cases hissued : b.hasIssued r with
      | false => rfl
      | true =>
          have hlater := hasIssued_of_issued_le hissued h.issued
          rw [h'.fresh r hnew] at hlater
          cases hlater
  · intro r hr
    rcases List.mem_append.mp hr with hold | hnew
    · exact hasIssued_of_issued_le (h.handed r hold) h'.issued
    · exact h'.handed r hnew

/-- Adding an item adds it under the next reference. -/
theorem adds_adding (item : Item) (hs : b.Sound)
    (hlt : b.issued < highestNumber) :
    b.Adds [b.nextRef] (b.adding item) := by
  refine ⟨grows_adding item hs hlt, List.pairwise_singleton _ _, ?_, ?_⟩
  · intro r hr
    rw [List.mem_singleton.mp hr]
    exact Bool.eq_false_iff.mpr (not_hasIssued_nextRef hs.bounded)
  · intro r hr
    rw [List.mem_singleton.mp hr]
    exact hasIssued_nextRef hlt

/-- References that were handed out hold what they held. -/
theorem getElem?_adding_of_hasIssued {r : Ref} (item : Item) (hs : b.Sound)
    (hr : b.hasIssued r = true) :
    (b.adding item).items[r]? = b.items[r]? := by
  have hne : r ≠ b.nextRef := by
    rintro rfl
    exact not_hasIssued_nextRef hs.bounded hr
  rw [getElem?_adding, if_neg hne]

/-- While numbers are left, an item is added under the next reference. -/
theorem run_add_of_lt (item : Item) (hlt : b.issued < highestNumber) :
    (add item).run b = ⟨.ok b.nextRef, b.adding item, []⟩ := by
  rw [run_add, if_neg (Nat.not_le_of_lt hlt)]
  rfl

/-- Without numbers left, adding fails and changes nothing. -/
theorem run_add_of_le (item : Item) (hfull : highestNumber ≤ b.issued) :
    (add item).run b = ⟨.error .numbersExhausted, b, []⟩ := by
  rw [run_add, if_pos hfull]

/-- A reference that was handed out and has no item is filled. -/
theorem run_fill_of_none {r : Ref} (item : Item) (hr : b.hasIssued r = true)
    (hnone : b.items[r]? = none) :
    (fill r item).run b = ⟨.ok (), b.store r item, []⟩ := by
  rw [run_fill, hr, holds_eq, hnone]
  rfl

/-- A reference that was never handed out is not filled. -/
theorem run_fill_of_not_issued {r : Ref} (item : Item)
    (hr : b.hasIssued r = false) :
    (fill r item).run b = ⟨.error (.danglingReference r none), b, []⟩ := by
  rw [run_fill, if_pos hr]

/-- A reference is not filled twice. -/
theorem run_fill_of_held {r : Ref} (item : Item) (hr : b.hasIssued r = true)
    (hheld : b.items[r]? ≠ none) :
    (fill r item).run b = ⟨.error (.alreadyStored r), b, []⟩ := by
  rw [run_fill, hr, if_neg (by decide), holds_eq,
    if_pos (Option.isSome_iff_ne_none.mpr hheld)]

/-! ## References that lead somewhere at the end -/

/-- All references of a body lead to an item, or to one that is still to be
    stored. -/
def Settled (b : Body) (pending : List Ref) : Prop :=
  ∀ (r : Ref) item target, b.items[r]? = some item → target ∈ item.refs →
    b.items[target]? ≠ none ∨ target ∈ pending

/-- An item that is stored is not waited for any more. -/
theorem Settled.store {r : Ref} {item : Item} (h : b.Settled (r :: pending))
    (hitem : ∀ target ∈ item.refs,
      b.items[target]? ≠ none ∨ target ∈ r :: pending) :
    (b.store r item).Settled pending := by
  have hstored : ∀ target,
      b.items[target]? ≠ none ∨ target ∈ r :: pending →
      (b.store r item).items[target]? ≠ none ∨ target ∈ pending := by
    intro target htarget
    rw [getElem?_store]
    by_cases he : target = r
    · rw [if_pos he]
      exact Or.inl (Option.some_ne_none item)
    · rw [if_neg he]
      exact htarget.imp_right fun hmem =>
        (List.mem_cons.mp hmem).resolve_left he
  intro s other target hother htarget
  rw [getElem?_store] at hother
  by_cases he : s = r
  · rw [if_pos he] at hother
    rw [← Option.some.inj hother] at htarget
    exact hstored target (hitem target htarget)
  · rw [if_neg he] at hother
    exact hstored target (h s other target hother htarget)

/-- A new item keeps a body settled if all that it refers to is there or
    pending. -/
theorem Settled.adding {item : Item} (h : b.Settled pending)
    (hitem : ∀ target ∈ item.refs,
      b.items[target]? ≠ none ∨ target ∈ pending) :
    (b.adding item).Settled pending := by
  have hmore : b.issue.Settled (b.nextRef :: pending) :=
    fun r other target hother htarget =>
      (h r other target hother htarget).imp_right (List.mem_cons_of_mem _)
  exact hmore.store fun target htarget =>
    (hitem target htarget).imp_right (List.mem_cons_of_mem _)

/-- If nothing is waited for, no reference dangles. -/
theorem danglingError_of_settled {t : Trailer} (h : b.Settled [])
    (ht : ∀ r ∈ t.refs, b.items[r]? ≠ none) :
    b.danglingError t.refs = none := by
  rw [danglingError_eq_none_iff]
  constructor
  · rintro r item hitem ⟨offset, target, hwritten, hnone⟩
    have hmem := hwritten.mem_refs
    rw [← item.refs_eq] at hmem
    rcases h r item target hitem hmem with hheld | hpending
    · exact hheld hnone
    · cases hpending
  · intro target htarget
    exact ht target (Trailer.mem_refs_iff.mpr htarget)

end Pdf.Body
