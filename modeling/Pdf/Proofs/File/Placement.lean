import Pdf.File.Layout
import Pdf.Proofs.Xref.Places

/-! # Placement — where the objects of a file stand

    Objects are placed one behind the other, so the offset of an object is the
    start plus the length of everything in front of it.  Their numbers are
    different and not 0, so each number leads to the one object that has it,
    and a number that no object has leads nowhere. -/

namespace Pdf

namespace PlacedObject

/-- An object is placed behind all objects in front of it. -/
theorem mem_sequence {start : Nat} {objects : List (Ref × Bytes)}
    {p : PlacedObject} :
    p ∈ sequence start objects ↔ ∃ front back,
      objects = front ++ (p.object, p.bytes) :: back
        ∧ p.offset = start + (front.flatMap Prod.snd).length := by
  induction objects generalizing start with
  | nil =>
      refine ⟨fun h => (nomatch h), ?_⟩
      rintro ⟨front, back, h, -⟩
      exact absurd h.symm (List.append_ne_nil_of_right_ne_nil _
        (List.cons_ne_nil _ _))
  | cons o objects ih =>
      obtain ⟨r, bytes⟩ := o
      rw [sequence, List.mem_cons, ih]
      -- it is the first object, or one that is placed behind the first
      constructor
      · rintro (rfl | ⟨front, back, rfl, hoffset⟩)
        · exact ⟨[], objects, rfl, rfl⟩
        · refine ⟨(r, bytes) :: front, back, rfl, ?_⟩
          rw [hoffset, List.flatMap_cons, List.length_append, Nat.add_assoc]
      · rintro ⟨front, back, hobjects, hoffset⟩
        cases front with
        | nil =>
            obtain ⟨hfirst, -⟩ := List.cons.inj hobjects
            refine Or.inl ?_
            obtain ⟨object, offset, written⟩ := p
            obtain ⟨hr, hb⟩ := Prod.mk.inj hfirst
            rw [hr, hb]
            exact congrArg (PlacedObject.mk object · written) hoffset
        | cons first front =>
            obtain ⟨hfirst, hrest⟩ := List.cons.inj hobjects
            refine Or.inr ⟨front, back, hrest, ?_⟩
            rw [hoffset, ← hfirst, List.flatMap_cons, List.length_append,
              Nat.add_assoc]

/-- Placing objects keeps them in order. -/
theorem map_object_sequence (start : Nat) (objects : List (Ref × Bytes)) :
    (sequence start objects).map PlacedObject.object
      = objects.map Prod.fst := by
  induction objects generalizing start with
  | nil => rfl
  | cons o objects ih => exact congrArg _ (ih _)

end PlacedObject

namespace Body

/-- The numbers of some objects, each of them used once and none of them 0. -/
structure Numbered (placed : List PlacedObject) : Prop where
  nonzero : ∀ p ∈ placed, p.object.number ≠ 0
  distinct : placed.Pairwise fun p q =>
    p.object.number.toNat ≠ q.object.number.toNat

/-- Each object that is noted hides nothing but what had its number. -/
theorem getElem?_foldl_record {placed : List PlacedObject}
    (h : Numbered placed) (places : Xref.Places) (n : Nat)
    (place : Xref.Place) :
    (placed.foldl (fun q p => q.record p.object p.offset) places).places[n]?
        = some place
      ↔ (∃ p ∈ placed, p.object.number.toNat = n
          ∧ place = ⟨p.offset, p.object.generation⟩)
        ∨ (places.places[n]? = some place
          ∧ ∀ p ∈ placed, p.object.number.toNat ≠ n) := by
  induction placed generalizing places with
  | nil =>
      refine ⟨fun hp => Or.inr ⟨hp, fun _ hm => (nomatch hm)⟩, ?_⟩
      rintro (⟨p, hm, -⟩ | ⟨hp, -⟩)
      · exact nomatch hm
      · exact hp
  | cons first placed ih =>
      obtain ⟨hfirst, hrest⟩ := List.pairwise_cons.mp h.distinct
      have htail : Numbered placed :=
        ⟨fun p hp => h.nonzero p (List.mem_cons_of_mem _ hp), hrest⟩
      have hzero := h.nonzero first List.mem_cons_self
      rw [List.foldl_cons, ih htail, Xref.Places.getElem?_record _ _ hzero]
      by_cases hn : n = first.object.number.toNat
      · rw [if_pos hn]
        constructor
        · rintro (⟨p, hp, hnum, hplace⟩ | ⟨hplace, -⟩)
          · exact Or.inl ⟨p, List.mem_cons_of_mem _ hp, hnum, hplace⟩
          · exact Or.inl ⟨first, List.mem_cons_self, hn.symm,
              (Option.some.inj hplace).symm⟩
        · rintro (⟨p, hp, hnum, hplace⟩ | ⟨-, hall⟩)
          · rcases List.mem_cons.mp hp with rfl | hp
            · -- the later objects have other numbers
              refine Or.inr ⟨congrArg some hplace.symm, ?_⟩
              intro q hq he
              exact hfirst q hq (hnum.trans he.symm)
            · exact Or.inl ⟨p, hp, hnum, hplace⟩
          · exact absurd hn.symm (hall first List.mem_cons_self)
      · rw [if_neg hn]
        constructor
        · rintro (⟨p, hp, hnum, hplace⟩ | ⟨hplace, hall⟩)
          · exact Or.inl ⟨p, List.mem_cons_of_mem _ hp, hnum, hplace⟩
          · refine Or.inr ⟨hplace, ?_⟩
            exact List.forall_mem_cons.mpr ⟨Ne.symm hn, hall⟩
        · rintro (⟨p, hp, hnum, hplace⟩ | ⟨hplace, hall⟩)
          · rcases List.mem_cons.mp hp with rfl | hp
            · exact absurd hnum.symm hn
            · exact Or.inl ⟨p, hp, hnum, hplace⟩
          · exact Or.inr ⟨hplace, (List.forall_mem_cons.mp hall).2⟩

/-- A number leads to the object that has it. -/
theorem getElem?_placesOf {placed : List PlacedObject} (h : Numbered placed)
    (size n : Nat) (place : Xref.Place) :
    (placesOf size placed).places[n]? = some place
      ↔ ∃ p ∈ placed, p.object.number.toNat = n
        ∧ place = ⟨p.offset, p.object.generation⟩ := by
  have hempty : (Xref.Places.ofSize size).places[n]? = none :=
    Std.ExtTreeMap.getElem?_empty
  rw [placesOf, getElem?_foldl_record h, hempty]
  constructor
  · rintro (hp | ⟨hp, -⟩)
    · exact hp
    · exact nomatch hp
  · exact Or.inl

/-- The places do not depend on how many numbers there are besides. -/
theorem getElem?_placesOf_resized {placed : List PlacedObject}
    (h : Numbered placed) (size size' n : Nat) :
    (placesOf size placed).places[n]? = (placesOf size' placed).places[n]? :=
  Option.ext fun place => (getElem?_placesOf h size n place).trans
    (getElem?_placesOf h size' n place).symm

/-- Objects with numbers below the size leave the size as it is. -/
theorem size_placesOf {placed : List PlacedObject} {size : Nat}
    (hsize : 0 < size)
    (h : ∀ p ∈ placed, p.object.number.toNat < size) :
    (placesOf size placed).size = size := by
  have hfold : ∀ places : Xref.Places, places.size = size →
      (placed.foldl (fun q p => q.record p.object p.offset) places).size
        = size := by
    induction placed with
    | nil => exact fun _ hp => hp
    | cons first placed ih =>
        intro places hp
        refine ih (fun p hm => h p (List.mem_cons_of_mem _ hm)) _ ?_
        -- a number below the size does not extend the section
        rw [Xref.Places.size_record, hp]
        rw [hp]
        exact h first List.mem_cons_self
  exact hfold _ (Nat.max_eq_left hsize)

end Body

end Pdf
