import Pdf.Proofs.Document.Storing

/-! # Failure — what is left of a font that could not be stored

    The three objects of a font are stored one after the other, and the
    composite font, whose reference the caller has chosen, is the last of them.
    Whether that reference was reserved for it shows only then.  If it was not,
    the other two objects stand in the body already, and nothing takes them out
    again (`Abandoned`).

    A font whose reference is right is stored as a whole: its objects get two
    new references and the chosen one, and they refer to nothing else than each
    other (`StoredWhole`). -/

namespace Pdf

namespace Body

variable {b : Body}

/-! ## Added dictionaries -/

/-- The body with some dictionaries under the next references. -/
def addingAll (b : Body) (dicts : List Dict) : Body :=
  dicts.foldl (fun b dict => b.adding (.value (.dictionary dict))) b

theorem issued_addingAll (b : Body) (dicts : List Dict) :
    (b.addingAll dicts).issued = b.issued + dicts.length := by
  induction dicts generalizing b with
  | nil => rfl
  | cons dict dicts ih =>
      have hone : (b.adding (.value (.dictionary dict))).issued
          = b.issued + 1 := rfl
      rw [addingAll, List.foldl_cons, ← addingAll, ih, hone, List.length_cons,
        Nat.add_assoc, Nat.add_comm 1]

/-- References that were handed out hold what they held. -/
theorem getElem?_addingAll {dicts : List Dict} {r : Ref} (hs : b.Sound)
    (hroom : b.issued + dicts.length ≤ highestNumber)
    (hr : b.hasIssued r = true) :
    (b.addingAll dicts).items[r]? = b.items[r]? := by
  induction dicts generalizing b with
  | nil => rfl
  | cons dict dicts ih =>
      rw [List.length_cons] at hroom
      have hgrows := grows_adding (.value (.dictionary dict)) hs (by omega)
      have hissued : (b.adding (.value (.dictionary dict))).issued
          = b.issued + 1 := rfl
      rw [addingAll, List.foldl_cons, ← addingAll,
        ih hgrows.sound (by omega) (hasIssued_adding _ hr),
        getElem?_adding_of_hasIssued _ hs hr]

end Body

namespace CompositeFont

open Body (highestNumber)

variable {f : CompositeFont} {r : Ref} {b : Body} {d : Dict}

/-! ## Outcomes -/

/-- The references under which the objects of a font are stored. -/
def objectRefs (r : Ref) (b : Body) : List Ref := [r, b.nextRef, b.secondRef]

/-- What storing a font under a reference takes. -/
structure Storable (f : CompositeFont) (r : Ref) (b : Body) : Prop where
  issued : b.hasIssued r = true
  empty : b.items[r]? = none
  room : b.issued + 1 < highestNumber
  /-- No metric is without an opposite. -/
  written : ∃ d, f.descendantDict b.nextRef = .ok d

/-- A body has become another one by the three objects of a font and in no
    other way. -/
structure StoredWhole (f : CompositeFont) (r : Ref) (b b' : Body) : Prop where
  issued : b'.issued = b.issued + 2
  distinct : (objectRefs r b).Nodup
  empty : ∀ s ∈ objectRefs r b, b.items[s]? = none
  held : b'.HoldsFont ⟨f, r, b.nextRef, b.secondRef⟩
  closed : ∀ s ∈ objectRefs r b, ∀ item, b'.items[s]? = some item →
    ∀ target ∈ item.refs, target ∈ objectRefs r b
  others : ∀ s, s ∉ objectRefs r b → b'.items[s]? = b.items[s]?

/-- The errors of storing a font, with the objects that were added by then. -/
inductive Abandoned (f : CompositeFont) (r : Ref) (b : Body) :
    Error → List Dict → Prop where
  | full : highestNumber ≤ b.issued → Abandoned f r b .numbersExhausted []
  /-- A metric has no opposite, so there is no descendant font. -/
  | overflow : b.issued < highestNumber →
      f.descendantDict b.nextRef = .error .overflow →
      Abandoned f r b .overflow [f.descriptorDict]
  /-- The descriptor took the last number. -/
  | last {d : Dict} : b.issued + 1 = highestNumber →
      f.descendantDict b.nextRef = .ok d →
      Abandoned f r b .numbersExhausted [f.descriptorDict]
  | unreserved {d : Dict} : b.issued + 1 < highestNumber →
      f.descendantDict b.nextRef = .ok d →
      b.hasIssued r = false → r ∉ [b.nextRef, b.secondRef] →
      Abandoned f r b (.danglingReference r none) [f.descriptorDict, d]
  /-- Something stands under the reference, if only one of the new objects. -/
  | filled {d : Dict} : b.issued + 1 < highestNumber →
      f.descendantDict b.nextRef = .ok d →
      b.items[r]? ≠ none ∨ r ∈ [b.nextRef, b.secondRef] →
      Abandoned f r b (.alreadyStored r) [f.descriptorDict, d]

/-- There were numbers for all objects that stay behind. -/
theorem Abandoned.room {e : Error} {left : List Dict}
    (h : f.Abandoned r b e left) (hb : b.issued ≤ highestNumber) :
    b.issued + left.length ≤ highestNumber := by
  cases h with
  | full _ => exact hb
  | overflow hlt _ => exact hlt
  | last hlt _ => exact Nat.le_of_eq hlt
  | unreserved hlt _ _ _ => exact hlt
  | filled hlt _ _ => exact hlt

/-- Nothing stays behind only if there was no number for the first object. -/
theorem Abandoned.eq_nil_iff {e : Error} {left : List Dict}
    (h : f.Abandoned r b e left) :
    left = [] ↔ highestNumber ≤ b.issued := by
  cases h with
  | full hfull => exact iff_of_true rfl hfull
  | overflow hlt _ =>
      exact iff_of_false (List.cons_ne_nil _ _) (Nat.not_le_of_lt hlt)
  | last hlast _ =>
      refine iff_of_false (List.cons_ne_nil _ _) ?_
      omega
  | unreserved hlt _ _ _ =>
      refine iff_of_false (List.cons_ne_nil _ _) ?_
      omega
  | filled hlt _ _ =>
      refine iff_of_false (List.cons_ne_nil _ _) ?_
      omega

/-- An abandoned font could not have been stored. -/
theorem Abandoned.not_storable {e : Error} {left : List Dict}
    (h : f.Abandoned r b e left) (hs : b.Sound) : ¬ f.Storable r b := by
  intro hstorable
  have hroom := hstorable.room
  obtain ⟨d, hd⟩ := hstorable.written
  cases h with
  | full hfull => omega
  | overflow _ hoverflow =>
      rw [hd] at hoverflow
      cases hoverflow
  | last hlast _ => omega
  | unreserved _ _ hissued _ =>
      rw [hstorable.issued] at hissued
      cases hissued
  | filled _ _ hfilled =>
      rcases hfilled with hheld | hnew
      · exact hheld hstorable.empty
      · have hadds := b.adds_addingFont f d hs hroom
        have hfresh := hadds.fresh r hnew
        rw [hstorable.issued] at hfresh
        cases hfresh

/-! ## Storing -/

/-- If no number is left, then nothing is added. -/
theorem run_store_of_full (r : Ref) (hfull : highestNumber ≤ b.issued) :
    (f.store r).run b = ⟨.error .numbersExhausted, b, []⟩ :=
  Action.run_bind_error _ (Body.run_add_of_le _ hfull)

/-- Behind the descriptor, the font runs as its descendant font does. -/
theorem run_store_of_lt (r : Ref) (hlt : b.issued < highestNumber) :
    (f.store r).run b
      = (Action.ofExcept (f.descendantDict b.nextRef) >>= fun d =>
          Body.add (.value (.dictionary d)) >>= fun descendant =>
          Body.fill r (.value (.dictionary (f.compositeDict descendant)))
            >>= fun _ =>
          Action.tell [.serializedFont f.baseName f.used.size]).run
            (b.addingAll [f.descriptorDict]) := by
  have hadd := Body.run_add_of_lt (.value (.dictionary f.descriptorDict)) hlt
  rw [store, Action.run_bind_ok _ hadd]
  rfl

/-- Where a metric overflows, the descriptor has been added already. -/
theorem run_store_of_overflow (r : Ref) (hlt : b.issued < highestNumber)
    (hoverflow : f.descendantDict b.nextRef = .error .overflow) :
    (f.store r).run b
      = ⟨.error .overflow, b.addingAll [f.descriptorDict], []⟩ := by
  rw [run_store_of_lt r hlt, hoverflow]
  exact Action.run_bind_error _ (Action.run_ofExcept _ _)

/-- If one number is left, then the descriptor takes it. -/
theorem run_store_of_last (r : Ref) (hlast : b.issued + 1 = highestNumber)
    (hd : f.descendantDict b.nextRef = .ok d) :
    (f.store r).run b
      = ⟨.error .numbersExhausted, b.addingAll [f.descriptorDict], []⟩ := by
  rw [run_store_of_lt r (Nat.lt_of_succ_le (Nat.le_of_eq hlast)), hd,
    Action.run_bind_ok _ (Action.run_ofExcept _ _)]
  exact Action.run_bind_error _ (Body.run_add_of_le _ (Nat.le_of_eq hlast.symm))

/-- Once two objects are added, all depends on the chosen reference. -/
theorem run_store_of_room (r : Ref) (hlt : b.issued + 1 < highestNumber)
    (hd : f.descendantDict b.nextRef = .ok d) :
    (f.store r).run b
      = (Body.fill r (.value (.dictionary (f.compositeDict b.secondRef)))
          >>= fun _ => Action.tell [.serializedFont f.baseName f.used.size]).run
            (b.addingFont f d) := by
  rw [run_store_of_lt r (Nat.lt_of_succ_lt hlt), hd,
    Action.run_bind_ok _ (Action.run_ofExcept _ _),
    Action.run_bind_ok _ (Body.run_add_of_lt _ hlt)]
  rfl

/-- A font that can be stored is stored whole. -/
theorem storedWhole_of_room (hs : b.Sound) (hr : b.hasIssued r = true)
    (hnone : b.items[r]? = none) (hlt : b.issued + 1 < highestNumber)
    (hd : f.descendantDict b.nextRef = .ok d) :
    f.StoredWhole r b ((b.addingFont f d).store r
      (.value (.dictionary (f.compositeDict b.secondRef)))) := by
  have hstores := Body.storesFont_of_lt hs hr hnone hlt hd
  have hadds := b.adds_addingFont f d hs hlt
  refine ⟨rfl, List.nodup_cons.mpr ⟨?_, hadds.distinct⟩, ?_, hstores.held,
    ?_, ?_⟩
  · intro hmem
    have hfresh := hadds.fresh r hmem
    rw [hr] at hfresh
    cases hfresh
  · refine List.forall_mem_cons.mpr ⟨hnone, ?_⟩
    exact fun s hmem => hs.getElem?_of_not_issued (hadds.fresh s hmem)
  · intro s hmem item hitem target htarget
    exact List.mem_cons_of_mem _ (hstores.held.mem_added hmem hitem htarget)
  · intro s hother
    rw [objectRefs, List.mem_cons, not_or] at hother
    rw [Body.getElem?_store, if_neg hother.1,
      Body.getElem?_addingFont_eq hother.2]

/-- With room for two objects, the chosen reference is looked at. -/
theorem store_cases_of_room (r : Ref) (hs : b.Sound)
    (hlt : b.issued + 1 < highestNumber)
    (hd : f.descendantDict b.nextRef = .ok d) :
    let o := (f.store r).run b
    (f.Storable r b ∧ o.result = .ok () ∧ f.StoredWhole r b o.state)
      ∨ ∃ e, f.Abandoned r b e [f.descriptorDict, d] ∧ o.result = .error e
        ∧ o.state = b.addingFont f d := by
  intro o
  have ho : o = _ := run_store_of_room r hlt hd
  have hissued := @Body.hasIssued_addingFont_iff b f d r hlt
  by_cases hnew : r ∈ [b.nextRef, b.secondRef]
  · -- the two objects themselves took the reference
    rw [ho, Action.run_bind_error _ (Body.run_fill_of_held _
      (hissued.mpr (Or.inr hnew)) (Body.getElem?_addingFont_ne_none hnew))]
    exact Or.inr ⟨_, .filled hlt hd (Or.inr hnew), rfl, rfl⟩
  have hitems := @Body.getElem?_addingFont_eq b f d r hnew
  cases hold : b.hasIssued r with
  | false =>
      have hnot : (b.addingFont f d).hasIssued r = false := by
        rw [Bool.eq_false_iff, ne_eq, hissued, hold]
        simp [hnew]
      rw [ho, Action.run_bind_error _ (Body.run_fill_of_not_issued _ hnot)]
      exact Or.inr ⟨_, .unreserved hlt hd hold hnew, rfl, rfl⟩
  | true =>
      have hstill := hissued.mpr (Or.inl hold)
      by_cases hnone : b.items[r]? = none
      · rw [ho, Action.run_bind_ok _ (Body.run_fill_of_none _ hstill
          (hitems.trans hnone))]
        exact Or.inl ⟨⟨hold, hnone, hlt, d, hd⟩, rfl,
          storedWhole_of_room hs hold hnone hlt hd⟩
      · rw [ho, Action.run_bind_error _ (Body.run_fill_of_held _ hstill
          (hitems ▸ hnone))]
        exact Or.inr ⟨_, .filled hlt hd (Or.inl hnone), rfl, rfl⟩

/-- All that storing a font can come to. -/
theorem store_cases (f : CompositeFont) (r : Ref) (hs : b.Sound) :
    let o := (f.store r).run b
    (f.Storable r b ∧ o.result = .ok () ∧ f.StoredWhole r b o.state)
      ∨ ∃ e left, f.Abandoned r b e left ∧ o.result = .error e
        ∧ o.state = b.addingAll left := by
  intro o
  by_cases hfull : highestNumber ≤ b.issued
  · have ho : o = _ := run_store_of_full r hfull
    rw [ho]
    exact Or.inr ⟨_, [], .full hfull, rfl, rfl⟩
  have hlt := Nat.lt_of_not_le hfull
  rcases f.descendantDict_cases b.nextRef with ⟨d, hd⟩ | hoverflow
  · by_cases hlast : b.issued + 1 = highestNumber
    · have ho : o = _ := run_store_of_last r hlast hd
      rw [ho]
      exact Or.inr ⟨_, _, .last hlast hd, rfl, rfl⟩
    · refine (store_cases_of_room r hs (by omega) hd).imp_right ?_
      rintro ⟨e, habandoned, hresult, hstate⟩
      exact ⟨e, _, habandoned, hresult, hstate⟩
  · have ho : o = _ := run_store_of_overflow r hlt hoverflow
    rw [ho]
    exact Or.inr ⟨_, _, .overflow hlt hoverflow, rfl, rfl⟩

/-- **FONTS ARE STORED WHOLE OR LEFT UNFINISHED**: a font is stored under a
    reference exactly if that was reserved for it, two more numbers are left
    and its metrics can be written.  Then its three objects are added and
    nothing else changes.  If storing fails, what was added before the failing
    step stays, with its references; only if there was no number for the first
    object is everything as it was. -/
theorem store_whole_or_unfinished (f : CompositeFont) (r : Ref) {b : Body}
    (hb : b.Reachable) :
    let o := (f.store r).run b
    (o.result = .ok () ↔ f.Storable r b)
      ∧ (o.result = .ok () → f.StoredWhole r b o.state)
      ∧ ∀ e, o.result = .error e → ∃ left, f.Abandoned r b e left
        ∧ o.state = b.addingAll left
        ∧ o.state.issued = b.issued + left.length
        ∧ (∀ s, b.hasIssued s = true → o.state.items[s]? = b.items[s]?)
        ∧ (o.state = b ↔ highestNumber ≤ b.issued) := by
  intro o
  have hs := hb.sound
  rcases f.store_cases r hs with ⟨hstorable, hok, hwhole⟩
    | ⟨e, left, habandoned, herror, hstate⟩
  · refine ⟨iff_of_true hok hstorable, fun _ => hwhole, ?_⟩
    intro e he
    have hne := hok.symm.trans he
    cases hne
  · have hleft : o.state = b.addingAll left := hstate
    have hfailed : ¬ o.result = .ok () := by
      intro hok
      have hne := hok.symm.trans herror
      cases hne
    refine ⟨iff_of_false hfailed (habandoned.not_storable hs),
      fun hok => absurd hok hfailed, ?_⟩
    intro e' he'
    obtain rfl := Except.error.inj (herror.symm.trans he')
    have hissued : o.state.issued = b.issued + left.length := by
      rw [hleft, Body.issued_addingAll]
    refine ⟨left, habandoned, hleft, hissued, ?_, ?_⟩
    · intro s hs'
      rw [hleft]
      exact Body.getElem?_addingAll hs (habandoned.room hs.bounded) hs'
    · rw [← habandoned.eq_nil_iff]
      constructor
      · intro hsame
        rw [hsame] at hissued
        exact List.eq_nil_of_length_eq_zero (by omega)
      · intro hnil
        rw [hleft, hnil]
        rfl

/-- A font is stored in a body with two items, under the reference that was
    reserved for it. -/
theorem store_whole_or_unfinished_reserved :
    let b := Body.Operation.after Body.sample .reserve
    let o := (negativeFont.store ⟨3, 0⟩).run b
    b.Reachable ∧ o.result = .ok () ∧ o.state.issued = 5
      ∧ negativeFont.StoredWhole ⟨3, 0⟩ b o.state := by
  intro b o
  have hb : b.Reachable := .after _ Body.reachable_sample
  obtain ⟨hiff, hwhole, -⟩ := store_whole_or_unfinished negativeFont ⟨3, 0⟩ hb
  have hhorizontal : negativeFont.isVertical = false := by decide
  have hstorable : negativeFont.Storable ⟨3, 0⟩ b := by
    refine ⟨by decide, by decide +kernel, by decide, ?_⟩
    refine descendantDict_eq_ok_iff.mpr ?_
    intro hvertical
    cases hhorizontal.symm.trans hvertical
  have hok := hiff.mpr hstorable
  exact ⟨hb, hok, (hwhole hok).issued, hwhole hok⟩

/-- Under a reference that was never reserved it is not stored, but two of its
    objects are. -/
theorem store_unreserved_negativeFont :
    let o := (negativeFont.store ⟨7, 0⟩).run .empty
    Body.empty.Reachable
      ∧ o.result = .error (.danglingReference ⟨7, 0⟩ none)
      ∧ Body.empty.issued = 0 ∧ o.state.issued = 2
      ∧ Body.empty.items[(⟨1, 0⟩ : Ref)]? = none
      ∧ o.state.items[(⟨1, 0⟩ : Ref)]?
        = some (.value (.dictionary negativeFont.descriptorDict)) := by
  intro o
  have hhorizontal : negativeFont.isVertical = false := by decide
  obtain ⟨d, hd⟩ := (@descendantDict_eq_ok_iff negativeFont
    Body.empty.nextRef).mpr fun h => nomatch hhorizontal.symm.trans h
  have ho : o = _ := run_store_of_room ⟨7, 0⟩ (by decide) hd
  rw [Action.run_bind_error _ (Body.run_fill_of_not_issued _ rfl)] at ho
  have hitem : (Body.empty.addingFont negativeFont d).items[(⟨1, 0⟩ : Ref)]?
      = some (.value (.dictionary negativeFont.descriptorDict)) := by
    rw [Body.addingFont, Body.getElem?_adding, if_neg (by decide),
      Body.getElem?_adding, if_pos (by decide)]
  rw [ho]
  exact ⟨.empty, rfl, rfl, rfl, Std.ExtTreeMap.getElem?_empty, hitem⟩

end CompositeFont

end Pdf
