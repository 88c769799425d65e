import Pdf.Object.Printer
import Pdf.Proofs.Object.Leaves

/-! # References — where they are written

    A reference may be written anywhere inside an object, and its text begins
    at some offset of the text of the object (`WrittenAt`).  This is said
    without the list of references that is collected from the leaves, so it can
    be asked what that list has to do with the text: it names exactly the
    references that are written, and it is searched in the order of their
    offsets (`exists_writtenAt_of_find?`).

    For the order it is enough that the text of a part ends before the text of
    the next part begins. -/

namespace Pdf.Object

open Bytes (byte ascii)

/-! ## Texts in front of a part -/

/-- The text of an array in front of an item. -/
def inFrontOfItem (depth : Nat) (before : List Object) : Bytes :=
  byte '[' :: before.flatMap fun o => o.print depth ++ [byte ' ']

/-- The text of a dictionary in front of the value under a name. -/
def inFrontOfValue (depth : Nat) (before : List (Name × Object))
    (key : Name) : Bytes :=
  ascii "<<\n" ++ (printEntries (depth + 1) before
    ++ (indentation (depth + 1) ++ (key.print ++ [byte ' '])))

/-- Items that follow others are written behind them. -/
theorem printFollowing_append (depth : Nat) (items items' : List Object) :
    printFollowing depth (items ++ items')
      = printFollowing depth items ++ printFollowing depth items' := by
  induction items with
  | nil => rfl
  | cons item items ih => simp [printFollowing, ih]

/-- Blanks between items can be counted behind them or in front of them. -/
theorem printFollowing_blank (depth : Nat) (items : List Object) :
    printFollowing depth items ++ [byte ' ']
      = byte ' ' :: items.flatMap fun o => o.print depth ++ [byte ' '] := by
  induction items with
  | nil => rfl
  | cons item items ih => simp [printFollowing, ih]

/-- An array around one of its items. -/
theorem print_array_append (depth : Nat) (before : List Object) (item : Object)
    (behind : List Object) :
    print depth (.array (before ++ item :: behind))
      = inFrontOfItem depth before ++ (item.print depth
        ++ (printFollowing depth behind ++ [byte ']'])) := by
  cases before with
  | nil => rfl
  | cons first before =>
      have hblank := printFollowing_blank depth before
      rw [inFrontOfItem, List.flatMap_cons, List.append_assoc,
        List.singleton_append, ← hblank]
      simp [print, printFollowing_append, printFollowing]

/-- Entries that follow others are written behind them. -/
theorem printEntries_append (depth : Nat)
    (entries entries' : List (Name × Object)) :
    printEntries depth (entries ++ entries')
      = printEntries depth entries ++ printEntries depth entries' := by
  induction entries with
  | nil => rfl
  | cons entry entries ih => simp [printEntries, ih]

/-- A dictionary around one of its values. -/
theorem print_dictionary_append (depth : Nat)
    (before : List (Name × Object)) (key : Name) (value : Object)
    (behind : List (Name × Object)) :
    print depth (.dictionary ⟨before ++ (key, value) :: behind⟩)
      = inFrontOfValue depth before key ++ (value.print (depth + 1)
        ++ (byte '\n' :: (printEntries (depth + 1) behind
          ++ (indentation depth ++ ascii ">>")))) := by
  have hentries : ∀ entries, entries ≠ [] →
      print depth (.dictionary ⟨entries⟩) = ascii "<<\n"
        ++ (printEntries (depth + 1) entries
          ++ (indentation depth ++ ascii ">>")) := by
    intro entries hne
    cases entries with
    | nil => exact absurd rfl hne
    | cons entry entries => simp [print, printDict, printEntries]
  rw [hentries _ (by simp), printEntries_append]
  simp [inFrontOfValue, printEntries, printEntry]

/-! ## Occurrences -/

/-- A reference is written inside an object, at any depth: its text begins at
    an offset of the text that the object has inside `depth` dictionaries. -/
inductive WrittenAt : (depth : Nat) → Object → (offset : Nat) → Ref → Prop where
  | reference (depth : Nat) (target : Ref) :
      WrittenAt depth (.reference target) 0 target
  | item {depth : Nat} (before : List Object) {item : Object}
      (behind : List Object) {offset : Nat} {target : Ref} :
      WrittenAt depth item offset target →
      WrittenAt depth (.array (before ++ item :: behind))
        ((inFrontOfItem depth before).length + offset) target
  | value {depth : Nat} (before : List (Name × Object)) (key : Name)
      {value : Object} (behind : List (Name × Object)) {offset : Nat}
      {target : Ref} :
      WrittenAt (depth + 1) value offset target →
      WrittenAt depth (.dictionary ⟨before ++ (key, value) :: behind⟩)
        ((inFrontOfValue depth before key).length + offset) target

/-- The text of a reference stands where it is written. -/
theorem WrittenAt.print_eq {depth : Nat} {o : Object} {offset : Nat}
    {target : Ref} (h : WrittenAt depth o offset target) :
    ∃ front back, o.print depth = front ++ (target.text ++ back)
      ∧ front.length = offset := by
  induction h with
  | reference depth target => exact ⟨[], [], (List.append_nil _).symm, rfl⟩
  | @item depth before item behind _ _ _ ih =>
      obtain ⟨front, back, hprint, hlength⟩ := ih
      refine ⟨inFrontOfItem depth before ++ front, back
        ++ (printFollowing depth behind ++ [byte ']']), ?_, ?_⟩
      · rw [print_array_append, hprint]
        simp only [List.append_assoc]
      · rw [List.length_append, hlength]
  | @value depth before key value behind _ _ _ ih =>
      obtain ⟨front, back, hprint, hlength⟩ := ih
      refine ⟨inFrontOfValue depth before key ++ front, back
        ++ (byte '\n' :: (printEntries (depth + 1) behind
          ++ (indentation depth ++ ascii ">>"))), ?_, ?_⟩
      · rw [print_dictionary_append, hprint]
        simp only [List.append_assoc]
      · rw [List.length_append, hlength]

/-- A reference is written within its object. -/
theorem WrittenAt.offset_le {depth : Nat} {o : Object} {offset : Nat}
    {target : Ref} (h : WrittenAt depth o offset target) :
    offset ≤ (o.print depth).length := by
  obtain ⟨front, back, hprint, hlength⟩ := h.print_eq
  rw [hprint, List.length_append, hlength]
  exact Nat.le_add_right _ _

/-! ## The list of references -/

theorem refs_array (items : List Object) :
    refs (.array items) = items.flatMap refs := by
  rw [refs, leaves, leavesOfItems_eq, List.filterMap_flatMap]
  rfl

theorem refs_dictionary (entries : List (Name × Object)) :
    refs (.dictionary ⟨entries⟩) = entries.flatMap fun e => e.2.refs := by
  rw [refs, leaves, leavesOfDict, leavesOfEntries_eq, List.filterMap_flatMap]
  rfl

/-- A reference that is written is one of the object's. -/
theorem WrittenAt.mem_refs {depth : Nat} {o : Object} {offset : Nat}
    {target : Ref} (h : WrittenAt depth o offset target) :
    target ∈ o.refs := by
  induction h with
  | reference depth target => exact List.mem_singleton_self target
  | @item _ before item behind _ _ _ ih =>
      rw [refs_array]
      exact List.mem_flatMap.mpr ⟨item, by simp, ih⟩
  | @value _ before key value behind _ _ _ ih =>
      rw [refs_dictionary]
      exact List.mem_flatMap.mpr ⟨(key, value), by simp, ih⟩

/-! ## The first reference -/

/-- A reference in an array is written in one of the items. -/
theorem writtenAt_array {depth : Nat} {items : List Object} {offset : Nat}
    {target : Ref} (h : WrittenAt depth (.array items) offset target) :
    ∃ before item behind inner, items = before ++ item :: behind
      ∧ offset = (inFrontOfItem depth before).length + inner
      ∧ WrittenAt depth item inner target := by
  cases h with
  | item before behind hitem =>
      exact ⟨before, _, behind, _, rfl, rfl, hitem⟩

/-- A reference in a dictionary is written in one of the values. -/
theorem writtenAt_dictionary {depth : Nat} {entries : List (Name × Object)}
    {offset : Nat} {target : Ref}
    (h : WrittenAt depth (.dictionary ⟨entries⟩) offset target) :
    ∃ before entry behind inner, entries = before ++ entry :: behind
      ∧ offset = (inFrontOfValue depth before entry.1).length + inner
      ∧ WrittenAt (depth + 1) entry.2 inner target := by
  cases h with
  | value before key behind hvalue =>
      exact ⟨before, _, behind, _, rfl, rfl, hvalue⟩

/-- A place in a part is not behind a place in another one, if that is no
    earlier part and the texts of the parts follow each other. -/
theorem place_le {α : Type} (start : List α → α → Nat)
    {before before' behind behind' : List α} {a a' : α} {inner inner' : Nat}
    (hparts : before ++ a :: behind = before' ++ a' :: behind')
    (hearlier : a' ∉ before)
    (hsame : a = a' → inner ≤ inner')
    (hlater : ∀ mid, start before a + inner ≤ start (before ++ a :: mid) a') :
    start before a + inner ≤ start before' a' + inner' := by
  rcases List.append_eq_append_iff.mp hparts
    with ⟨mid, hb, ha⟩ | ⟨mid, hb, ha⟩
  · cases mid with
    | nil =>
        obtain ⟨rfl, -⟩ := List.cons.inj ha
        rw [hb, List.append_nil]
        exact Nat.add_le_add_left (hsame rfl) _
    | cons first mid =>
        obtain ⟨rfl, -⟩ := List.cons.inj ha
        rw [hb]
        exact Nat.le_trans (hlater mid) (Nat.le_add_right _ _)
  · cases mid with
    | nil =>
        obtain ⟨rfl, -⟩ := List.cons.inj ha
        rw [hb, List.append_nil]
        exact Nat.add_le_add_left (hsame rfl) _
    | cons first mid =>
        obtain ⟨rfl, -⟩ := List.cons.inj ha
        refine absurd ?_ hearlier
        rw [hb]
        simp

/-- **THE FIRST OF THE REFERENCES IS WRITTEN FIRST**: of all references inside
    an object that have some property, the one that a search in the list finds
    has the lowest offset in the text. -/
theorem exists_writtenAt_of_find? {p : Ref → Bool} (o : Object) (depth : Nat)
    {target : Ref} (h : o.refs.find? p = some target) :
    ∃ offset, WrittenAt depth o offset target
      ∧ ∀ offset' target', WrittenAt depth o offset' target' →
        p target' = true → offset ≤ offset' := by
  -- a part in front of the one with the first reference has none at all
  have hclean : ∀ {o : Object} {depth offset : Nat} {r : Ref},
      o.refs.find? p = none → WrittenAt depth o offset r →
      ¬ p r = true := by
    intro o depth offset r hnone hr
    exact List.find?_eq_none.mp hnone r hr.mem_refs
  induction o using byParts generalizing depth with
  | leaf o ho =>
      cases o with
      | array | dictionary => exact nomatch ho
      | reference r =>
          have hr : target = r :=
            List.mem_singleton.mp (List.mem_of_find?_eq_some h)
          rw [hr]
          exact ⟨0, .reference depth r, fun _ _ _ _ => Nat.zero_le _⟩
      | _ => exact nomatch h
  | array items ih =>
      rw [refs_array, List.find?_flatMap] at h
      obtain ⟨before, item, behind, rfl, hitem, hbefore⟩ :=
        List.findSome?_eq_some_iff.mp h
      obtain ⟨inner, hwritten, hfirst⟩ := ih item (by simp) depth hitem
      refine ⟨_, .item before behind hwritten, ?_⟩
      intro offset' target' hother hp
      obtain ⟨before', item', behind', inner', hparts, rfl, hpart⟩ :=
        writtenAt_array hother
      refine place_le (fun before _ =>
        (inFrontOfItem depth before).length) hparts ?_ ?_ ?_
      · intro hmem
        exact hclean (hbefore item' hmem) hpart hp
      · rintro rfl
        exact hfirst _ _ hpart hp
      · intro mid
        have hle := hwritten.offset_le
        simp only [inFrontOfItem, List.flatMap_append, List.flatMap_cons,
          List.length_cons, List.length_append]
        omega
  | dictionary entries ih =>
      rw [refs_dictionary, List.find?_flatMap] at h
      obtain ⟨before, ⟨key, value⟩, behind, rfl, hvalue, hbefore⟩ :=
        List.findSome?_eq_some_iff.mp h
      obtain ⟨inner, hwritten, hfirst⟩ :=
        ih (key, value) (by simp) (depth + 1) hvalue
      refine ⟨_, .value before key behind hwritten, ?_⟩
      intro offset' target' hother hp
      obtain ⟨before', entry', behind', inner', hparts, rfl, hpart⟩ :=
        writtenAt_dictionary hother
      refine place_le (a := (key, value)) (fun before entry =>
        (inFrontOfValue depth before entry.1).length) hparts ?_ ?_ ?_
      · intro hmem
        exact hclean (hbefore entry' hmem) hpart hp
      · rintro rfl
        exact hfirst _ _ hpart hp
      · intro mid
        have hle : inner ≤ (value.print (depth + 1)).length :=
          hwritten.offset_le
        simp only [inFrontOfValue, printEntries_append, printEntries,
          printEntry, List.length_cons, List.length_append]
        omega

/-- The list names exactly the references that are written. -/
theorem mem_refs_iff {o : Object} {target : Ref} (depth : Nat) :
    target ∈ o.refs ↔ ∃ offset, WrittenAt depth o offset target := by
  constructor
  · intro h
    cases hfind : o.refs.find? (· == target) with
    | none =>
        exact absurd (beq_self_eq_true target)
          (List.find?_eq_none.mp hfind target h)
    | some r =>
        obtain ⟨offset, hwritten, -⟩ :=
          exists_writtenAt_of_find? o depth hfind
        have hr : (r == target) = true :=
          List.find?_some (p := (· == target)) hfind
        rw [eq_of_beq hr] at hwritten
        exact ⟨offset, hwritten⟩
  · rintro ⟨offset, hwritten⟩
    exact hwritten.mem_refs

end Pdf.Object
