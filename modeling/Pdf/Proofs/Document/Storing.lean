import Pdf.Proofs.Body.Growth
import Pdf.Proofs.Document.Building

/-! # Storing — what is added to a body when a document is written

    The objects of the fonts come first, then the document information, then
    the encryption dictionary.  Each of them gets the next reference, except the
    composite fonts, whose references were given away before.  So nothing that
    was stored is hidden, the references of all new objects are different, and
    the only failures are that no number is left and that a metric has no
    opposite.

    These failures are the same at every step, so each step is said to lead to
    a body with some property or else to fail in this way (`Stores`), and one
    rule puts the steps together. -/

namespace Pdf

namespace Object

/-- Whether a leaf refers to nothing else than some references. -/
def refersTo (targets : List Ref) : Object → Bool
  | reference r => targets.contains r
  | _ => true

/-- An object that refers to some targets only has no other references. -/
theorem mem_of_mem_refs {targets : List Ref} {o : Object} {r : Ref}
    (h : o.every (refersTo targets) = true) (hr : r ∈ o.refs) :
    r ∈ targets := by
  obtain ⟨leaf, hleaf, hreference⟩ := List.mem_filterMap.mp hr
  have htest := List.all_eq_true.mp h leaf hleaf
  cases leaf with
  | reference s =>
      rw [← Option.some.inj hreference]
      exact List.contains_iff_mem.mp htest
  | _ => cases hreference

theorem every_reference_self (r : Ref) :
    (reference r).every (refersTo [r]) = true := by
  simp [every, leaves, refersTo]

end Object

namespace CompositeFont

variable {f : CompositeFont} {descriptor : Ref} {d : Dict}

/-! ## References of a font -/

/-- A descriptor refers to nothing. -/
theorem every_descriptorDict (f : CompositeFont) :
    f.descriptorDict.every (Object.refersTo []) = true := by
  refine Dict.every_insertMany rfl ?_
  simp only [List.forall_mem_cons]
  exact ⟨rfl, rfl, rfl, rfl, rfl, rfl, rfl, rfl, rfl, List.forall_mem_nil _⟩

/-- A composite font refers to its descendant only. -/
theorem every_compositeDict (f : CompositeFont) (descendant : Ref) :
    (f.compositeDict descendant).every (Object.refersTo [descendant])
      = true := by
  have hself : (Object.array [.reference descendant]).every
      (Object.refersTo [descendant]) = true := by
    rw [Object.every_array, List.forall_mem_singleton]
    exact Object.every_reference_self descendant
  refine Dict.every_insertMany rfl ?_
  simp only [List.forall_mem_cons]
  exact ⟨rfl, rfl, rfl, hself, List.forall_mem_nil _⟩

/-- A descendant font refers to its descriptor only. -/
theorem every_descendantDict (h : f.descendantDict descriptor = .ok d) :
    d.every (Object.refersTo [descriptor]) = true := by
  obtain ⟨vertical, -, rfl⟩ := descendantDict_eq h
  have hverbatim : ∀ text : Option Bytes, ∀ v ∈ text.map Object.verbatim,
      v.every (Object.refersTo [descriptor]) = true := by
    intro text v hv
    obtain ⟨bytes, -, rfl⟩ := Option.map_eq_some_iff.mp hv
    rfl
  refine Dict.every_insert _ ?_ rfl
  refine Dict.every_insertIfSome _ ?_ (hverbatim vertical)
  refine Dict.every_insertIfSome _ ?_ (hverbatim f.horizontalArray)
  refine Dict.every_insertMany rfl ?_
  simp only [List.forall_mem_cons]
  exact ⟨rfl, rfl, Object.every_reference_self descriptor,
    List.forall_mem_nil _⟩

/-- A descendant font can be written unless a metric has no opposite. -/
theorem descendantDict_cases (f : CompositeFont) (descriptor : Ref) :
    (∃ d, f.descendantDict descriptor = .ok d)
      ∨ f.descendantDict descriptor = .error .overflow := by
  by_cases hmin : f.isVertical = true ∧ ∃ cid ∈ f.used,
      f.metrics.verticalWidths.get cid = Int32.minValue
  · refine Or.inr ?_
    rw [descendantDict, verticalArray, if_pos hmin.1,
      Advances.verticalArray_eq_error _ hmin.2]
    rfl
  · refine Or.inl (descendantDict_eq_ok_iff.mpr ?_)
    intro hvertical cid hcid he
    exact hmin ⟨hvertical, cid, hcid, he⟩

end CompositeFont

/-! ## Fonts -/

/-- A font with the references of its three objects. -/
structure FontObjects where
  font : CompositeFont
  composite : Ref
  descriptor : Ref
  descendant : Ref

/-- The references that were not given away before the font was stored. -/
def FontObjects.added (p : FontObjects) : List Ref :=
  [p.descriptor, p.descendant]

namespace Body

variable {b b' : Body} {pending : List Ref}

/-- All three objects of a font are stored. -/
structure HoldsFont (b : Body) (p : FontObjects) : Prop where
  composite : b.items[p.composite]?
    = some (.value (.dictionary (p.font.compositeDict p.descendant)))
  descendant : ∃ d, p.font.descendantDict p.descriptor = .ok d
    ∧ b.items[p.descendant]? = some (.value (.dictionary d))
  descriptor : b.items[p.descriptor]?
    = some (.value (.dictionary p.font.descriptorDict))

/-- A font that a body holds is held by what the body grows into. -/
theorem HoldsFont.grows {p : FontObjects} (h : b.HoldsFont p)
    (hb : b.Grows b') : b'.HoldsFont p := by
  obtain ⟨d, hd, hdescendant⟩ := h.descendant
  exact ⟨hb.kept _ _ h.composite, ⟨d, hd, hb.kept _ _ hdescendant⟩,
    hb.kept _ _ h.descriptor⟩

/-- The objects of a font refer to nothing else than its descriptor and its
    descendant font. -/
theorem HoldsFont.mem_added {p : FontObjects} (h : b.HoldsFont p) {s : Ref}
    (hs : s ∈ p.composite :: p.added) {item : Item}
    (hitem : b.items[s]? = some item) {target : Ref}
    (htarget : target ∈ item.refs) : target ∈ p.added := by
  obtain ⟨d, hd, hdescendant⟩ := h.descendant
  rw [FontObjects.added, List.mem_cons, List.mem_cons,
    List.mem_singleton] at hs
  rcases hs with rfl | rfl | rfl
  · rw [h.composite] at hitem
    obtain rfl := Option.some.inj hitem
    have hmem := Object.mem_of_mem_refs
      (p.font.every_compositeDict p.descendant) htarget
    rw [List.mem_singleton.mp hmem]
    exact List.mem_cons_of_mem _ List.mem_cons_self
  · rw [h.descriptor] at hitem
    obtain rfl := Option.some.inj hitem
    cases Object.mem_of_mem_refs p.font.every_descriptorDict htarget
  · rw [hdescendant] at hitem
    obtain rfl := Option.some.inj hitem
    have hmem := Object.mem_of_mem_refs
      (CompositeFont.every_descendantDict hd) htarget
    rw [List.mem_singleton.mp hmem]
    exact List.mem_cons_self

/-- The failures of storing what a document brings along. -/
def FailsToStore (e : Error) : Prop := e = .numbersExhausted ∨ e = .overflow

/-- An action fails in one of these two ways, or else it gives a value and a
    body with some property. -/
def Stores {α : Type} (a : Action Body α) (b : Body) (P : α → Body → Prop) :
    Prop :=
  (∃ e, (a.run b).result = .error e ∧ FailsToStore e)
    ∨ ∃ value, (a.run b).result = .ok value ∧ P value (a.run b).state

theorem stores_of_run_eq {α : Type} {a : Action Body α} {value : α}
    {events : List Event} {P : α → Body → Prop}
    (h : a.run b = ⟨.ok value, b', events⟩) (hp : P value b') :
    Stores a b P := by
  refine Or.inr ⟨value, ?_, ?_⟩
  · rw [h]
  · rw [h]
    exact hp

/-- What the first action reaches is where the second one starts. -/
theorem Stores.bind {α β : Type} {a : Action Body α} {f : α → Action Body β}
    {P : α → Body → Prop} {Q : β → Body → Prop} (ha : Stores a b P)
    (hf : ∀ value b', P value b' → Stores (f value) b' Q) :
    Stores (a >>= f) b Q := by
  rcases Action.run_bind_cases a f b with ⟨e, he, hresult, -⟩
    | ⟨value, hvalue, hresult, hstate⟩
  · rcases ha with ⟨e', he', hfails⟩ | ⟨value, hok, -⟩
    · rw [he] at he'
      rw [← Except.error.inj he'] at hfails
      exact Or.inl ⟨e, hresult, hfails⟩
    · rw [he] at hok
      cases hok
  · rcases ha with ⟨e, he, -⟩ | ⟨value', hvalue', hp⟩
    · rw [hvalue] at he
      cases he
    · rw [hvalue'] at hvalue
      rw [← Except.ok.inj hvalue] at hresult hstate
      rw [Stores, hresult, hstate]
      exact hf value' _ hp

/-- An item is added unless no number is left. -/
theorem stores_add (item : Item) (b : Body) :
    Stores (add item) b fun r b' => b.issued < highestNumber
      ∧ r = b.nextRef ∧ b' = b.adding item := by
  rcases Nat.lt_or_ge b.issued highestNumber with hlt | hfull
  · exact stores_of_run_eq (run_add_of_lt item hlt) ⟨hlt, rfl, rfl⟩
  · refine Or.inl ⟨_, ?_, Or.inl rfl⟩
    rw [run_add_of_le item hfull]

/-- What storing a font under a reference comes to, if it does not fail. -/
structure StoresFont (b : Body) (p : FontObjects) (b' : Body) : Prop where
  adds : b.Adds p.added b'
  held : b'.HoldsFont p
  settled : ∀ pending, b.Settled (p.composite :: pending) → b'.Settled pending
  /-- Other references that were handed out hold what they held. -/
  others : ∀ r, b.hasIssued r = true → r ≠ p.composite →
    b'.items[r]? = b.items[r]?

/-- The body with the descriptor and the descendant font of a font. -/
def addingFont (b : Body) (f : CompositeFont) (d : Dict) : Body :=
  (b.adding (.value (.dictionary f.descriptorDict))).adding
    (.value (.dictionary d))

/-- The reference of the descendant font in it. -/
def secondRef (b : Body) : Ref := .ofNumber (b.issued + 2)

/-- The two new objects of a font stand under the next two numbers. -/
theorem adds_addingFont (f : CompositeFont) (d : Dict) (hs : b.Sound)
    (hlt : b.issued + 1 < highestNumber) :
    b.Adds [b.nextRef, b.secondRef] (b.addingFont f d) := by
  have hadds := adds_adding (.value (.dictionary f.descriptorDict)) hs
    (Nat.lt_of_succ_lt hlt)
  exact hadds.trans (adds_adding _ hadds.sound hlt)

/-- Neither of the two gets a reference that was handed out before. -/
theorem getElem?_addingFont {r : Ref} (f : CompositeFont) (d : Dict)
    (hs : b.Sound) (hlt : b.issued + 1 < highestNumber)
    (hr : b.hasIssued r = true) :
    (b.addingFont f d).items[r]? = b.items[r]? := by
  have hgrows := grows_adding (.value (.dictionary f.descriptorDict)) hs
    (Nat.lt_of_succ_lt hlt)
  rw [addingFont, getElem?_adding_of_hasIssued _ hgrows.sound
    (hasIssued_adding _ hr), getElem?_adding_of_hasIssued _ hs hr]

/-- The reference behind the next one. -/
theorem nextRef_adding (b : Body) (item : Item) :
    (b.adding item).nextRef = b.secondRef := rfl

/-- With the two objects of a font the references of these are handed out. -/
theorem hasIssued_addingFont_iff {f : CompositeFont} {d : Dict} {r : Ref}
    (hlt : b.issued + 1 < highestNumber) :
    (b.addingFont f d).hasIssued r = true
      ↔ b.hasIssued r = true ∨ r ∈ [b.nextRef, b.secondRef] := by
  rw [addingFont, hasIssued_adding_iff hlt, nextRef_adding,
    hasIssued_adding_iff (Nat.lt_of_succ_lt hlt), or_assoc, List.mem_cons,
    List.mem_singleton]

/-- The new objects of a font leave all other references alone. -/
theorem getElem?_addingFont_eq {f : CompositeFont} {d : Dict} {r : Ref}
    (hr : r ∉ [b.nextRef, b.secondRef]) :
    (b.addingFont f d).items[r]? = b.items[r]? := by
  rw [List.mem_cons, List.mem_singleton, not_or] at hr
  rw [addingFont, getElem?_adding, nextRef_adding, if_neg hr.2,
    getElem?_adding, if_neg hr.1]

/-- The new objects of a font are there. -/
theorem getElem?_addingFont_ne_none {f : CompositeFont} {d : Dict} {r : Ref}
    (hr : r ∈ [b.nextRef, b.secondRef]) :
    (b.addingFont f d).items[r]? ≠ none := by
  rw [addingFont, getElem?_adding, nextRef_adding, getElem?_adding]
  rw [List.mem_cons, List.mem_singleton] at hr
  by_cases hsecond : r = b.secondRef
  · rw [if_pos hsecond]
    exact Option.some_ne_none _
  · rw [if_neg hsecond, if_pos (hr.resolve_right hsecond)]
    exact Option.some_ne_none _

/-- With room for two numbers, a font is stored as its three objects. -/
theorem storesFont_of_lt {f : CompositeFont} {r : Ref} {d : Dict}
    (hs : b.Sound) (hr : b.hasIssued r = true) (hnone : b.items[r]? = none)
    (hlt : b.issued + 1 < highestNumber)
    (hd : f.descendantDict b.nextRef = .ok d) :
    StoresFont b ⟨f, r, b.nextRef, b.secondRef⟩ ((b.addingFont f d).store r
      (.value (.dictionary (f.compositeDict b.secondRef)))) := by
  have hadded := adds_addingFont f d hs hlt
  have hfilled := grows_store
    (.value (.dictionary (f.compositeDict b.secondRef))) hadded.sound
    (hasIssued_of_issued_le hr hadded.issued)
    ((getElem?_addingFont f d hs hlt hr).trans hnone)
  have hdescriptor : (b.adding (.value (.dictionary f.descriptorDict))).items[
      b.nextRef]? = some (.value (.dictionary f.descriptorDict)) := by
    rw [getElem?_adding, if_pos rfl]
  have hdescendant : (b.addingFont f d).items[b.secondRef]?
      = some (.value (.dictionary d)) :=
    (getElem?_adding _ _).trans (if_pos rfl)
  have hkept : (b.addingFont f d).items[b.nextRef]?
      = some (.value (.dictionary f.descriptorDict)) := by
    have hone := grows_adding (.value (.dictionary f.descriptorDict)) hs
      (Nat.lt_of_succ_lt hlt)
    exact (grows_adding _ hone.sound hlt).kept _ _ hdescriptor
  refine ⟨hadded.trans hfilled.adds, ⟨?_, ?_, ?_⟩, ?_, ?_⟩
  · rw [getElem?_store, if_pos rfl]
  · exact ⟨d, hd, hfilled.kept _ _ hdescendant⟩
  · exact hfilled.kept _ _ hkept
  · -- each object refers to the one that was stored before
    intro pending hpending
    refine ((hpending.adding ?_).adding ?_).store ?_
    · intro target htarget
      cases Object.mem_of_mem_refs f.every_descriptorDict htarget
    · intro target htarget
      have hmem := Object.mem_of_mem_refs
        (CompositeFont.every_descendantDict hd) htarget
      rw [List.mem_singleton.mp hmem, hdescriptor]
      exact Or.inl (Option.some_ne_none _)
    · intro target htarget
      have hmem := Object.mem_of_mem_refs
        (f.every_compositeDict b.secondRef) htarget
      rw [List.mem_singleton.mp hmem]
      exact Or.inl (hdescendant ▸ Option.some_ne_none _)
  · intro s hs' hne
    rw [getElem?_store, if_neg hne]
    exact getElem?_addingFont f d hs hlt hs'

/-- A descendant font can be written unless a metric has no opposite. -/
theorem stores_descendantDict (f : CompositeFont) (descriptor : Ref)
    (b : Body) :
    Stores (Action.ofExcept (f.descendantDict descriptor)) b
      fun d b' => f.descendantDict descriptor = .ok d ∧ b' = b := by
  rcases f.descendantDict_cases descriptor with ⟨d, hd⟩ | hoverflow
  · rw [hd]
    exact Or.inr ⟨d, rfl, rfl, rfl⟩
  · rw [hoverflow]
    exact Or.inl ⟨_, rfl, Or.inr rfl⟩

/-- A font that has a reference is stored. -/
theorem stores_font (f : CompositeFont) {r : Ref} (hs : b.Sound)
    (hr : b.hasIssued r = true) (hnone : b.items[r]? = none) :
    Stores (f.store r) b fun _ b' => ∃ descriptor descendant,
      b.StoresFont ⟨f, r, descriptor, descendant⟩ b' := by
  refine (stores_add _ b).bind ?_
  rintro _ b₁ ⟨-, rfl, rfl⟩
  refine (stores_descendantDict f b.nextRef _).bind ?_
  rintro d _ ⟨hd, rfl⟩
  refine (stores_add _ _).bind ?_
  rintro _ b₂ ⟨hlt, rfl, rfl⟩
  have hstores := storesFont_of_lt hs hr hnone hlt hd
  have hcomposite := run_fill_of_none
    (.value (.dictionary (f.compositeDict b.secondRef)))
    (hasIssued_of_issued_le hr (adds_addingFont f d hs hlt).issued)
    ((getElem?_addingFont f d hs hlt hr).trans hnone)
  exact stores_of_run_eq (Action.run_bind_ok _ hcomposite)
    ⟨b.nextRef, b.secondRef, hstores⟩

/-- What storing some fonts under their references comes to, if it does not
    fail. -/
structure StoresFonts (b : Body) (fonts : List (Ref × CompositeFont))
    (objects : List FontObjects) (b' : Body) : Prop where
  listed : objects.map (fun p => (p.composite, p.font)) = fonts
  adds : b.Adds (objects.flatMap (·.added)) b'
  held : ∀ p ∈ objects, b'.HoldsFont p
  settled : b.Settled (fonts.map (·.1)) → b'.Settled []

/-- Fonts are stored one after the other. -/
theorem StoresFonts.cons {p : FontObjects} {objects : List FontObjects}
    {fonts : List (Ref × CompositeFont)} {b₁ : Body} (h : b.StoresFont p b₁)
    (hrest : b₁.StoresFonts fonts objects b') :
    b.StoresFonts ((p.composite, p.font) :: fonts) (p :: objects) b' := by
  refine ⟨congrArg _ hrest.listed, h.adds.trans hrest.adds, ?_, ?_⟩
  · exact List.forall_mem_cons.mpr
      ⟨h.held.grows hrest.adds.toGrows, hrest.held⟩
  · exact fun hsettled => hrest.settled (h.settled _ hsettled)

/-- Fonts under different references are stored one after the other; none of
    them fills the reference of another one. -/
theorem stores_fonts {fonts : List (Ref × CompositeFont)} (hs : b.Sound)
    (hissued : ∀ e ∈ fonts, b.hasIssued e.1 = true)
    (hnone : ∀ e ∈ fonts, b.items[e.1]? = none)
    (hdistinct : (fonts.map (·.1)).Nodup) :
    Stores (fonts.forM fun e => e.2.store e.1) b
      fun _ b' => ∃ objects, b.StoresFonts fonts objects b' := by
  induction fonts generalizing b with
  | nil =>
      exact stores_of_run_eq (Action.run_pure () b)
        ⟨[], rfl, (Grows.refl hs).adds, List.forall_mem_nil _, id⟩
  | cons e fonts ih =>
      obtain ⟨r, f⟩ := e
      obtain ⟨hr, hrest⟩ := List.forall_mem_cons.mp hissued
      obtain ⟨hrnone, hrestnone⟩ := List.forall_mem_cons.mp hnone
      obtain ⟨hnew, hdistinct⟩ := List.nodup_cons.mp hdistinct
      have hne : ∀ e ∈ fonts, e.1 ≠ r := by
        intro e he heq
        exact hnew (List.mem_map.mpr ⟨e, he, heq⟩)
      refine (stores_font f hs hr hrnone).bind ?_
      rintro - b₁ ⟨descriptor, descendant, hstores⟩
      have hgrows := hstores.adds.toGrows
      refine (ih hgrows.sound ?_ ?_ hdistinct).imp_right ?_
      · exact fun e he => hasIssued_of_issued_le (hrest e he) hgrows.issued
      · intro e he
        rw [hstores.others e.1 (hrest e he) (hne e he)]
        exact hrestnone e he
      · rintro ⟨u, hok, objects, hobjects⟩
        exact ⟨u, hok, _, .cons hstores hobjects⟩

/-! ## Information and encryption -/

/-- What storing at most one further dictionary comes to. -/
structure AddsOptional (b : Body) (r? : Option Ref) (b' : Body) : Prop where
  adds : b.Adds r?.toList b'
  held : ∀ r ∈ r?, b'.items[r]? ≠ none
  settled : b.Settled [] → b'.Settled []

theorem addsOptional_none (hs : b.Sound) : b.AddsOptional none b :=
  ⟨(Grows.refl hs).adds, nofun, id⟩

/-- A dictionary whose references are held is stored. -/
theorem stores_dictionary (dict : Dict) (hs : b.Sound)
    (hrefs : ∀ target ∈ dict.refs, b.items[target]? ≠ none) :
    Stores (add (.value (.dictionary dict)) >>= fun r => pure (some r)) b
      b.AddsOptional := by
  refine (stores_add _ b).bind ?_
  rintro _ b₁ ⟨hlt, rfl, rfl⟩
  refine stores_of_run_eq (Action.run_pure _ _) ⟨adds_adding _ hs hlt, ?_, ?_⟩
  · intro r hr
    rw [← Option.some.inj hr, getElem?_adding, if_pos rfl]
    exact Option.some_ne_none _
  · intro hsettled
    exact hsettled.adding fun target htarget => Or.inl (hrefs target htarget)

end Body

namespace Document

variable {d : Document} {b : Body}

/-- The document information refers to nothing. -/
theorem refs_infoDictionary (i : Info) : i.dictionary.refs = [] := by
  have hevery : i.dictionary.every (Object.refersTo []) = true := by
    refine Dict.every_insertMany rfl ?_
    intro e he
    obtain ⟨⟨key, text⟩, -, rfl⟩ := List.mem_map.mp he
    show (Object.text text).every (Object.refersTo []) = true
    rw [Object.text]
    split
    · rfl
    · rfl
  refine List.eq_nil_iff_forall_not_mem.mpr ?_
  intro r hr
  cases Object.mem_of_mem_refs hevery hr

/-- The document information is stored, or fails for lack of numbers. -/
theorem stores_info (d : Document) (hs : b.Sound) :
    Body.Stores d.storeInfo b b.AddsOptional := by
  have hnothing : Body.Stores (pure none) b b.AddsOptional :=
    Body.stores_of_run_eq (Action.run_pure none b) (Body.addsOptional_none hs)
  rw [storeInfo]
  cases d.info with
  | none => exact hnothing
  | some i =>
      show Body.Stores i.store b b.AddsOptional
      rw [Info.store]
      cases i.isSet with
      | false => exact hnothing
      | true =>
          refine Body.stores_dictionary i.dictionary hs ?_
          rw [refs_infoDictionary]
          exact List.forall_mem_nil _

/-- The encryption dictionary is stored, or fails for lack of numbers. -/
theorem stores_encryption (d : Document) (hs : b.Sound)
    (hrefs : ∀ e ∈ d.encryption, ∀ target ∈ e.dictionary.refs,
      b.items[target]? ≠ none) :
    Body.Stores d.storeEncryption b b.AddsOptional := by
  rw [storeEncryption]
  cases hencryption : d.encryption with
  | none =>
      exact Body.stores_of_run_eq (Action.run_pure none b)
        (Body.addsOptional_none hs)
  | some e =>
      exact Body.stores_dictionary e.dictionary hs (hrefs e hencryption)

/-! ## Everything that is missing -/

/-- Whether something will stand under a reference once the fonts are
    stored. -/
def Resolves (d : Document) (r : Ref) : Prop :=
  d.body.items[r]? ≠ none ∨ d.font? r ≠ none

/-- A document and a catalog without references to nothing, but for the fonts,
    which are not stored yet. -/
structure Consistent (d : Document) (root : Ref) : Prop where
  items : ∀ (r : Ref) item, d.body.items[r]? = some item →
    ∀ target ∈ item.refs, d.Resolves target
  encryption : ∀ e ∈ d.encryption, ∀ target ∈ e.dictionary.refs,
    d.Resolves target
  root : d.Resolves root

/-- The test whether something will stand under a reference. -/
def resolves (d : Document) (r : Ref) : Bool :=
  d.body.holds r || (d.font? r).isSome

/-- The test of a reference decides whether it leads somewhere. -/
theorem resolves_iff {r : Ref} : d.resolves r = true ↔ d.Resolves r := by
  rw [resolves, Bool.or_eq_true, Body.holds_eq, Option.isSome_iff_ne_none,
    Option.isSome_iff_ne_none]
  rfl

theorem all_resolves_iff {refs : List Ref} :
    refs.all d.resolves = true ↔ ∀ target ∈ refs, d.Resolves target := by
  simp only [List.all_eq_true, resolves_iff]

/-- The test whether all references lead somewhere. -/
def isConsistent (d : Document) (root : Ref) : Bool :=
  d.body.items.toList.all (fun o => o.2.refs.all d.resolves)
    && d.encryption.all (fun e => e.dictionary.refs.all d.resolves)
    && d.resolves root

/-- The test of a document decides whether it is consistent. -/
theorem isConsistent_iff {root : Ref} :
    d.isConsistent root = true ↔ d.Consistent root := by
  rw [isConsistent, Bool.and_eq_true, Bool.and_eq_true, List.all_eq_true,
    Option.all_eq_true, resolves_iff]
  simp only [all_resolves_iff]
  constructor
  · rintro ⟨⟨hitems, hencryption⟩, hroot⟩
    refine ⟨?_, fun e he => hencryption e he, hroot⟩
    intro r item hitem
    exact hitems (r, item)
      (Std.ExtTreeMap.mem_toList_iff_getElem?_eq_some.mpr hitem)
  · intro h
    refine ⟨⟨?_, fun e he => h.encryption e he⟩, h.root⟩
    rintro ⟨r, item⟩ hmem
    exact h.items r item
      (Std.ExtTreeMap.mem_toList_iff_getElem?_eq_some.mp hmem)

instance (d : Document) (root : Ref) : Decidable (d.Consistent root) :=
  decidable_of_iff (d.isConsistent root = true) isConsistent_iff

/-- A body with everything that its document still had to store. -/
structure Completed (d : Document) (root : Ref) (objects : List FontObjects)
    (trailer : Trailer) (b : Body) : Prop where
  /-- The fonts that were added and no others. -/
  listed : objects.map (fun p => (p.composite, p.font)) = d.fonts.toList
  adds : d.body.Adds (objects.flatMap (·.added)
    ++ trailer.info.toList ++ trailer.encrypt.toList) b
  held : ∀ p ∈ objects, b.HoldsFont p
  root : trailer.root = root
  id : trailer.id = d.suppliedId
  clean : b.danglingError trailer.refs = none

/-- The fonts of a document are those that are found under a reference. -/
theorem mem_fonts_iff {r : Ref} {f : CompositeFont} :
    (r, f) ∈ d.fonts.toList ↔ d.font? r = some f :=
  Std.ExtTreeMap.mem_toList_iff_getElem?_eq_some

/-- Once its fonts are stored, everything that resolves is stored. -/
theorem held_of_resolves {r : Ref} {objects : List FontObjects}
    (h : d.body.StoresFonts d.fonts.toList objects b) (hr : d.Resolves r) :
    b.items[r]? ≠ none := by
  rcases hr with hitem | hfont
  · exact h.adds.held hitem
  · obtain ⟨f, hf⟩ := Option.ne_none_iff_exists'.mp hfont
    have hmem := mem_fonts_iff.mpr hf
    rw [← h.listed] at hmem
    obtain ⟨p, hp, he⟩ := List.mem_map.mp hmem
    obtain ⟨rfl, rfl⟩ := Prod.mk.inj he
    rw [(h.held p hp).composite]
    exact Option.some_ne_none _

/-- In a consistent document every reference leads to an object or to a font
    that is still to be stored. -/
theorem settled_of_consistent {root : Ref} (h : d.Consistent root) :
    d.body.Settled (d.fonts.toList.map (·.1)) := by
  intro r item target hitem htarget
  refine (h.items r item hitem target htarget).imp_right ?_
  intro hfont
  obtain ⟨f, hf⟩ := Option.ne_none_iff_exists'.mp hfont
  exact List.mem_map.mpr ⟨(target, f), mem_fonts_iff.mpr hf, rfl⟩

/-- All fonts of a prepared document are stored, or numbers run out. -/
theorem stores_storeFonts (h : d.Prepared) :
    Body.Stores d.storeFonts d.body fun _ b => ∃ objects,
      d.body.StoresFonts d.fonts.toList objects b := by
  refine Body.stores_fonts h.sound ?_ ?_ ?_
  · exact fun e he => h.reserved e.1 e.2 (mem_fonts_iff.mp he)
  · exact fun e he => h.unfilled e.1 e.2 (mem_fonts_iff.mp he)
  · rw [Std.ExtTreeMap.map_fst_toList_eq_keys]
    exact Std.ExtTreeMap.nodup_keys

/-- A document is completed, unless no number is left or a metric has no
    opposite: no reference to nothing is found, and nothing is stored twice. -/
theorem stores_complete {root : Ref} (h : d.Prepared)
    (hc : d.Consistent root) :
    Body.Stores (d.complete root) d.body fun trailer b => ∃ objects,
      d.Completed root objects trailer b := by
  refine (stores_storeFonts h).bind ?_
  rintro - b₁ ⟨objects, hfonts⟩
  refine (stores_info d hfonts.adds.sound).bind ?_
  intro info b₂ hinfo
  have hheld : ∀ r, d.Resolves r → b₂.items[r]? ≠ none := fun r hr =>
    hinfo.adds.held (held_of_resolves hfonts hr)
  refine (stores_encryption d hinfo.adds.sound ?_).bind ?_
  · intro e he target htarget
    exact hheld target (hc.encryption e he target htarget)
  · intro encrypt b hencrypt
    refine Body.stores_of_run_eq (Action.run_pure _ b) ⟨objects, ?_⟩
    have hsettled : b.Settled [] := hencrypt.settled
      (hinfo.settled (hfonts.settled (settled_of_consistent hc)))
    refine ⟨hfonts.listed, (hfonts.adds.trans hinfo.adds).trans hencrypt.adds,
      ?_, rfl, rfl, Body.danglingError_of_settled hsettled ?_⟩
    · intro p hp
      exact ((hfonts.held p hp).grows hinfo.adds.toGrows).grows
        hencrypt.adds.toGrows
    · intro r hr
      rcases List.mem_cons.mp hr with rfl | hadded
      · exact hencrypt.adds.held (hheld _ hc.root)
      · rcases List.mem_append.mp hadded with hinfor | hencryptr
        · exact hencrypt.adds.held (hinfo.held r (Option.mem_toList.mp hinfor))
        · exact hencrypt.held r (Option.mem_toList.mp hencryptr)

end Document

end Pdf
