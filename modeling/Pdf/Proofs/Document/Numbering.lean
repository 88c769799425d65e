import Mathlib.Data.List.Lex
import Pdf.Document.Heading
import Pdf.Proofs.Bytes.Spelling

/-! # Numbering — the numbers of a heading are the way to it

    A heading is reached from the chapters by positions among siblings, counted
    from one.  Numbering and going down commute, so these positions are the
    numbers that the heading gets (`reached?_numberAll`), and in the order of
    the document the numbers increase.

    A title shows its numbers in front of a blank.  A number is over at its
    point and holds no blank itself, so the numbers can be told from what
    follows them, even if the bare title looks like more numbers.  Titles that
    show all numbers are therefore different. -/

namespace Pdf

/-! ## Ways down -/

namespace Outline

variable {α : Type} {children : α → List α}

/-- The node at a position among its siblings, counted from one. -/
def sibling? (nodes : List α) : Nat → Option α
  | 0 => none
  | position + 1 => nodes[position]?

/-- The node that positions lead down to from a node. -/
def descend? (children : α → List α) (node : α) : List Nat → Option α
  | [] => some node
  | position :: path =>
      (sibling? (children node) position).bind (descend? children · path)

/-- The node that positions lead down to from the outermost nodes. -/
def reached? (children : α → List α) (nodes : List α) : List Nat → Option α
  | [] => none
  | position :: path =>
      (sibling? nodes position).bind (descend? children · path)

/-- A node is among others if it is one of them by its position. -/
theorem mem_iff_sibling? {nodes : List α} {node : α} :
    node ∈ nodes ↔ ∃ position, sibling? nodes position = some node := by
  constructor
  · intro h
    obtain ⟨i, hi⟩ := List.mem_iff_getElem?.mp h
    exact ⟨i + 1, hi⟩
  · rintro ⟨position, h⟩
    cases position with
    | zero => exact nomatch h
    | succ i => exact List.mem_iff_getElem?.mpr ⟨i, h⟩

/-- What is reached lies below one of the outermost nodes. -/
theorem exists_reached?_iff {nodes : List α} {node : α} :
    (∃ path, reached? children nodes path = some node)
      ↔ ∃ top ∈ nodes, ∃ path, descend? children top path = some node := by
  constructor
  · rintro ⟨path, h⟩
    cases path with
    | nil => exact nomatch h
    | cons position path =>
        obtain ⟨top, htop, hdown⟩ := Option.bind_eq_some_iff.mp h
        exact ⟨top, mem_iff_sibling?.mpr ⟨position, htop⟩, path, hdown⟩
  · rintro ⟨top, htop, path, h⟩
    obtain ⟨position, hposition⟩ := mem_iff_sibling?.mp htop
    exact ⟨position :: path, Option.bind_eq_some_iff.mpr ⟨top, hposition, h⟩⟩

/-- A position that leads somewhere is at most the number of siblings. -/
theorem lt_of_sibling? {nodes : List α} {node : α} {position bound : Nat}
    (h : sibling? nodes position = some node) (hlt : nodes.length < bound) :
    position < bound := by
  cases position with
  | zero => exact nomatch h
  | succ i =>
      obtain ⟨hi, -⟩ := List.getElem?_eq_some_iff.mp h
      omega

/-- No position on a way down exceeds the number of the siblings there. -/
theorem lt_of_descend? {bound : Nat} {path : List Nat} {node below : α}
    (hbound : ∀ way passed, descend? children node way = some passed →
      (children passed).length < bound)
    (h : descend? children node path = some below) :
    ∀ position ∈ path, position < bound := by
  induction path generalizing node with
  | nil => exact fun _ hmem => nomatch hmem
  | cons position path ih =>
      obtain ⟨child, hchild, hdown⟩ := Option.bind_eq_some_iff.mp h
      have hfirst : position < bound :=
        lt_of_sibling? hchild (hbound [] node rfl)
      have hrest : ∀ p ∈ path, p < bound := by
        refine ih ?_ hdown
        intro way passed hway
        refine hbound (position :: way) passed ?_
        exact Option.bind_eq_some_iff.mpr ⟨child, hchild, hway⟩
      exact List.forall_mem_cons.mpr ⟨hfirst, hrest⟩

/-- If no node has too many children, the positions of a path stay below the
    bound. -/
theorem lt_of_reached? {bound : Nat} {path : List Nat} {nodes : List α}
    {below : α} (hnodes : nodes.length < bound)
    (hbound : ∀ way passed, reached? children nodes way = some passed →
      (children passed).length < bound)
    (h : reached? children nodes path = some below) :
    ∀ position ∈ path, position < bound := by
  cases path with
  | nil => exact nomatch h
  | cons position path =>
      obtain ⟨top, htop, hdown⟩ := Option.bind_eq_some_iff.mp h
      have hrest : ∀ p ∈ path, p < bound := by
        refine lt_of_descend? ?_ hdown
        intro way passed hway
        refine hbound (position :: way) passed ?_
        exact Option.bind_eq_some_iff.mpr ⟨top, htop, hway⟩
      exact List.forall_mem_cons.mpr ⟨lt_of_sibling? htop hnodes, hrest⟩

end Outline

open Outline

/-! ## Numbering, seen from a heading -/

namespace Heading

/-- The headings below. -/
def children : Heading → List Heading
  | node _ _ children => children

/-- A heading with numbers that it gets from outside. -/
def withNumbers (numbers : List Nat) : Heading → NumberedHeading
  | node title visible children =>
      .node title visible numbers (numberFrom numbers 1 children)

/-- A heading below others gets their numbers and its position. -/
theorem number_eq (parents : List Nat) (position : Nat) (h : Heading) :
    h.number parents position = h.withNumbers (parents ++ [position]) := by
  cases h
  rfl

/-- A heading has the numbers that it was given. -/
theorem numbers_withNumbers (numbers : List Nat) (h : Heading) :
    (h.withNumbers numbers).numbers = numbers := by
  cases h
  rfl

/-- The children of a numbered heading are numbered below it. -/
theorem children_withNumbers (numbers : List Nat) (h : Heading) :
    (h.withNumbers numbers).children = numberFrom numbers 1 h.children := by
  cases h
  rfl

/-- Each heading of a row gets its place in the row as last number. -/
theorem getElem?_numberFrom (parents : List Nat) (first i : Nat)
    (headings : List Heading) : (numberFrom parents first headings)[i]?
      = headings[i]?.map (·.withNumbers (parents ++ [first + i])) := by
  induction headings generalizing first i with
  | nil => rfl
  | cons h headings ih =>
      cases i with
      | zero => exact congrArg some (number_eq parents first h)
      | succ i =>
          have hrest := ih (first + 1) i
          rw [Nat.add_assoc, Nat.add_comm 1 i] at hrest
          exact hrest

/-- Numbering loses no heading of a row. -/
theorem length_numberFrom (parents : List Nat) (first : Nat)
    (headings : List Heading) :
    (numberFrom parents first headings).length = headings.length := by
  induction headings generalizing first with
  | nil => rfl
  | cons h headings ih => exact congrArg (· + 1) (ih (first + 1))

/-- Numbering a row and picking one of it commute. -/
theorem sibling?_numberFrom (parents : List Nat) (headings : List Heading)
    (position : Nat) : sibling? (numberFrom parents 1 headings) position
      = (sibling? headings position).map
        (·.withNumbers (parents ++ [position])) := by
  cases position with
  | zero => rfl
  | succ i =>
      have hget := getElem?_numberFrom parents 1 i headings
      rw [Nat.add_comm 1 i] at hget
      exact hget

/-- Below a heading, its numbers stand in front of the way down. -/
theorem descend?_withNumbers (numbers path : List Nat) (h : Heading) :
    descend? NumberedHeading.children (h.withNumbers numbers) path
      = (descend? Heading.children h path).map
        (·.withNumbers (numbers ++ path)) := by
  induction path generalizing h numbers with
  | nil =>
      rw [List.append_nil]
      rfl
  | cons position path ih =>
      rw [descend?, descend?, children_withNumbers, sibling?_numberFrom]
      cases sibling? h.children position with
      | none => rfl
      | some child =>
          have hchild := ih (numbers ++ [position]) child
          rw [List.append_assoc] at hchild
          exact hchild

/-- Numbering below a heading and going down commute. -/
theorem reached?_numberFrom (parents path : List Nat)
    (headings : List Heading) :
    reached? NumberedHeading.children (numberFrom parents 1 headings) path
      = (reached? Heading.children headings path).map
        (·.withNumbers (parents ++ path)) := by
  cases path with
  | nil => rfl
  | cons position path =>
      rw [reached?, reached?, sibling?_numberFrom]
      cases sibling? headings position with
      | none => rfl
      | some child =>
          have hchild := descend?_withNumbers (parents ++ [position]) path child
          rw [List.append_assoc] at hchild
          exact hchild

/-- Going down and numbering commute. -/
theorem reached?_numberAll (chapters : List Heading) (path : List Nat) :
    reached? NumberedHeading.children (numberAll chapters) path
      = (reached? Heading.children chapters path).map
        (·.withNumbers path) :=
  reached?_numberFrom [] path chapters

end Heading

/-! ## The order of the document -/

namespace NumberedHeading

mutual

/-- The heading without its numbers. -/
def unnumbered : NumberedHeading → Heading
  | node title visible _ children =>
      .node title visible (unnumberedAll children)

/-- Headings without their numbers. -/
def unnumberedAll : List NumberedHeading → List Heading
  | [] => []
  | h :: rest => h.unnumbered :: unnumberedAll rest

end

mutual

/-- A heading and all headings below it, in the order of the document. -/
def outline : NumberedHeading → List NumberedHeading
  | node title visible numbers children =>
      node title visible numbers children :: outlineAll children

/-- Headings and all headings below them, in the order of the document. -/
def outlineAll : List NumberedHeading → List NumberedHeading
  | [] => []
  | h :: rest => h.outline ++ outlineAll rest

end

/-- The outline of a heading is the heading and the outlines below it. -/
theorem outline_eq (h : NumberedHeading) :
    h.outline = h :: outlineAll h.children := by
  cases h
  rfl

/-- The outline of a row is the outlines of its headings in order. -/
theorem outlineAll_eq (headings : List NumberedHeading) :
    outlineAll headings = headings.flatMap outline := by
  induction headings with
  | nil => rfl
  | cons h headings ih => rw [outlineAll, ih, List.flatMap_cons]

/-- What is reached by a path stands in the outline. -/
theorem mem_outline_of_descend? {path : List Nat} {h k : NumberedHeading}
    (hdown : descend? children h path = some k) : k ∈ h.outline := by
  induction path generalizing h with
  | nil =>
      rw [outline_eq, ← Option.some.inj hdown]
      exact List.mem_cons_self
  | cons position path ih =>
      obtain ⟨child, hchild, hrest⟩ := Option.bind_eq_some_iff.mp hdown
      rw [outline_eq, outlineAll_eq]
      refine List.mem_cons_of_mem h (List.mem_flatMap.mpr ?_)
      exact ⟨child, mem_iff_sibling?.mpr ⟨position, hchild⟩, ih hrest⟩

-- The induction is on the heading together with the headings below it.
mutual

/-- What stands in the outline of a heading is reached from it by a path. -/
theorem exists_of_mem_outline : ∀ (h : NumberedHeading) {k : NumberedHeading},
    k ∈ h.outline → ∃ path, descend? children h path = some k
  | node title visible numbers below, k, hk => by
      rw [outline] at hk
      rcases List.mem_cons.mp hk with rfl | hbelow
      · exact ⟨[], rfl⟩
      · obtain ⟨child, hchild, path, hpath⟩ :=
          exists_of_mem_outlineAll below hbelow
        obtain ⟨position, hposition⟩ := mem_iff_sibling?.mp hchild
        refine ⟨position :: path, ?_⟩
        exact Option.bind_eq_some_iff.mpr ⟨child, hposition, hpath⟩

/-- What stands in the outline of a row is reached from one of its headings. -/
theorem exists_of_mem_outlineAll : ∀ (headings : List NumberedHeading)
    {k : NumberedHeading}, k ∈ outlineAll headings →
      ∃ top ∈ headings, ∃ path, descend? children top path = some k
  | [], k, hk => nomatch hk
  | h :: rest, k, hk => by
      rw [outlineAll] at hk
      rcases List.mem_append.mp hk with hfirst | hrest
      · exact ⟨h, List.mem_cons_self, exists_of_mem_outline h hfirst⟩
      · obtain ⟨top, htop, hpath⟩ := exists_of_mem_outlineAll rest hrest
        exact ⟨top, List.mem_cons_of_mem h htop, hpath⟩

end

/-- The outline lists what can be reached. -/
theorem mem_outlineAll_iff {headings : List NumberedHeading}
    {k : NumberedHeading} : k ∈ outlineAll headings
      ↔ ∃ path, reached? children headings path = some k := by
  rw [exists_reached?_iff]
  constructor
  · exact exists_of_mem_outlineAll headings
  · rintro ⟨top, htop, path, hpath⟩
    rw [outlineAll_eq]
    exact List.mem_flatMap.mpr ⟨top, htop, mem_outline_of_descend? hpath⟩

end NumberedHeading

namespace Heading

open NumberedHeading

mutual

/-- Without its numbers a heading is what it was. -/
theorem unnumbered_number : ∀ (h : Heading) (parents : List Nat)
    (position : Nat), (h.number parents position).unnumbered = h
  | node title visible children, parents, position => by
      rw [number, unnumbered, unnumberedAll_numberFrom children]

theorem unnumberedAll_numberFrom : ∀ (headings : List Heading)
    (parents : List Nat) (first : Nat),
    unnumberedAll (numberFrom parents first headings) = headings
  | [], _, _ => rfl
  | h :: rest, parents, first => by
      rw [numberFrom, unnumberedAll, unnumbered_number h,
        unnumberedAll_numberFrom rest]

end

/-- A heading in an outline is numbered by the way that leads to it. -/
theorem reached?_numberAll_eq_some_iff {chapters : List Heading}
    {path : List Nat} {h : NumberedHeading} :
    reached? NumberedHeading.children (numberAll chapters) path = some h
      ↔ h ∈ outlineAll (numberAll chapters) ∧ h.numbers = path := by
  have hnumbers : ∀ {way}, reached? NumberedHeading.children
      (numberAll chapters) way = some h → h.numbers = way := by
    intro way hway
    rw [reached?_numberAll] at hway
    obtain ⟨bare, -, rfl⟩ := Option.map_eq_some_iff.mp hway
    exact numbers_withNumbers way bare
  constructor
  · intro hreached
    exact ⟨mem_outlineAll_iff.mpr ⟨path, hreached⟩, hnumbers hreached⟩
  · rintro ⟨hmem, rfl⟩
    obtain ⟨way, hway⟩ := mem_outlineAll_iff.mp hmem
    rw [hnumbers hway]
    exact hway

/-- The numbers of everything in an outline start with the outermost ones. -/
theorem exists_numbers_of_mem_outline {numbers : List Nat} {h : Heading}
    {k : NumberedHeading} (hk : k ∈ (h.withNumbers numbers).outline) :
    ∃ path, k.numbers = numbers ++ path := by
  obtain ⟨path, hpath⟩ := exists_of_mem_outline _ hk
  rw [descend?_withNumbers] at hpath
  obtain ⟨bare, -, rfl⟩ := Option.map_eq_some_iff.mp hpath
  exact ⟨path, numbers_withNumbers _ bare⟩

/-- Headings that are counted from `first` on have no smaller position. -/
theorem exists_numbers_of_mem_outlineAll {parents : List Nat} {first : Nat}
    {headings : List Heading} {k : NumberedHeading}
    (hk : k ∈ outlineAll (numberFrom parents first headings)) :
    ∃ position path, first ≤ position
      ∧ k.numbers = parents ++ position :: path := by
  induction headings generalizing first with
  | nil => exact nomatch hk
  | cons h headings ih =>
      rw [numberFrom, outlineAll, number_eq] at hk
      rcases List.mem_append.mp hk with hfirst | hrest
      · obtain ⟨path, hpath⟩ := exists_numbers_of_mem_outline hfirst
        rw [List.append_assoc] at hpath
        exact ⟨first, path, Nat.le_refl first, hpath⟩
      · obtain ⟨position, path, hle, hpath⟩ := ih hrest
        exact ⟨position, path, Nat.le_of_succ_le hle, hpath⟩

end Heading

namespace NumberedHeading

/-- Whether the numbers of a heading come in front of those of another one,
    number by number. -/
def Precedes (h k : NumberedHeading) : Prop :=
  List.Lex (· < ·) h.numbers k.numbers

/-- Numbers that differ precede each other in one direction only. -/
theorem Precedes.numbers_ne {h k : NumberedHeading} (hlt : h.Precedes k) :
    h.numbers ≠ k.numbers := by
  intro he
  rw [Precedes, he] at hlt
  exact List.lex_irrefl Nat.lt_irrefl k.numbers hlt

end NumberedHeading

namespace Heading

open NumberedHeading

-- A heading precedes all that is below it, and each of its siblings stands
-- with all that is below it in front of the next one.
mutual

theorem pairwise_outline : ∀ (h : Heading) (parents : List Nat)
    (position : Nat), (h.number parents position).outline.Pairwise Precedes
  | node title visible children, parents, position => by
      rw [number, outline, List.pairwise_cons]
      refine ⟨?_, pairwise_outlineAll children _ 1⟩
      intro k hk
      obtain ⟨p, path, -, hp⟩ := exists_numbers_of_mem_outlineAll hk
      have hlex := List.Lex.append_left (· < ·)
        (@List.Lex.nil Nat (· < ·) p path) (parents ++ [position])
      rw [List.append_nil, ← hp] at hlex
      exact hlex

theorem pairwise_outlineAll : ∀ (headings : List Heading)
    (parents : List Nat) (first : Nat),
    (outlineAll (numberFrom parents first headings)).Pairwise Precedes
  | [], _, _ => List.Pairwise.nil
  | h :: rest, parents, first => by
      rw [numberFrom, outlineAll, List.pairwise_append]
      refine ⟨pairwise_outline h parents first,
        pairwise_outlineAll rest parents (first + 1), ?_⟩
      intro k hk k' hk'
      rw [number_eq] at hk
      obtain ⟨path, hpath⟩ := exists_numbers_of_mem_outline hk
      obtain ⟨p, path', hlt, hpath'⟩ := exists_numbers_of_mem_outlineAll hk'
      rw [List.append_assoc] at hpath
      rw [Precedes, hpath, hpath']
      exact List.Lex.append_left (· < ·) (List.Lex.rel hlt) parents

end

end Heading

/-! ## Titles -/

namespace NumberedHeading

/-- Dotted numbers are digits and points. -/
theorem toList_dotted (numbers : List Nat) : (dotted numbers).toList
    = numbers.flatMap fun n => Nat.toDigits 10 n ++ ['.'] := by
  have hnumber : ∀ n : Nat, (toString n ++ ".").toList
      = Nat.toDigits 10 n ++ ['.'] := by
    intro n
    rw [String.toList_append]
    exact congrArg (· ++ ['.']) Nat.toList_repr
  rw [dotted, String.toList_join, List.flatMap_map]
  simp only [hnumber]

/-- Digits end where something else stands. -/
theorem digits_append_inj (ds es : List Char) {r s : List Char} {c d : Char}
    (hds : ∀ x ∈ ds, x.isDigit = true) (hes : ∀ x ∈ es, x.isDigit = true)
    (hc : c.isDigit = false) (hd : d.isDigit = false)
    (h : ds ++ c :: r = es ++ d :: s) : ds = es ∧ c :: r = d :: s := by
  induction ds generalizing es with
  | nil =>
      cases es with
      | nil => exact ⟨rfl, h⟩
      | cons e es =>
          have he : e.isDigit = true := hes e List.mem_cons_self
          rw [← (List.cons.inj h).1, hc] at he
          exact nomatch he
  | cons x ds ih =>
      cases es with
      | nil =>
          have hx : x.isDigit = true := hds x List.mem_cons_self
          rw [(List.cons.inj h).1, hd] at hx
          exact nomatch hx
      | cons e es =>
          obtain ⟨rfl, htail⟩ := List.cons.inj h
          obtain ⟨rfl, hrest⟩ := ih es
            (fun y hy => hds y (List.mem_cons_of_mem x hy))
            (fun y hy => hes y (List.mem_cons_of_mem x hy)) htail
          exact ⟨rfl, hrest⟩

/-- What is shown in front of a blank can be told from what stands behind. -/
theorem dotted_append_inj {xs ys : List Nat} {a b : List Char}
    (h : (dotted xs).toList ++ ' ' :: a = (dotted ys).toList ++ ' ' :: b) :
    xs = ys := by
  rw [toList_dotted, toList_dotted] at h
  -- a number stands in front of its point, and the blank behind no digit
  induction xs generalizing ys with
  | nil =>
      cases ys with
      | nil => rfl
      | cons y ys =>
          rw [List.flatMap_cons, List.append_assoc, List.append_assoc] at h
          have hdigits := (digits_append_inj [] _ (fun _ hx => nomatch hx)
            (fun x hx => Bytes.isDigit_of_mem_toDigits hx) rfl rfl h).1
          exact absurd hdigits.symm Nat.toDigits_ne_nil
  | cons x xs ih =>
      cases ys with
      | nil =>
          rw [List.flatMap_cons, List.append_assoc, List.append_assoc] at h
          have hdigits := (digits_append_inj _ []
            (fun x hx => Bytes.isDigit_of_mem_toDigits hx)
            (fun _ hx => nomatch hx) rfl rfl h).1
          exact absurd hdigits Nat.toDigits_ne_nil
      | cons y ys =>
          rw [List.flatMap_cons, List.flatMap_cons, List.append_assoc,
            List.append_assoc, List.append_assoc, List.append_assoc] at h
          obtain ⟨hdigits, hrest⟩ := digits_append_inj _ _
            (fun x hx => Bytes.isDigit_of_mem_toDigits hx)
            (fun x hx => Bytes.isDigit_of_mem_toDigits hx) rfl rfl h
          have hxy : x = y := by
            rw [← @Nat.ofDigitChars_ten_toDigits x, hdigits,
              Nat.ofDigitChars_ten_toDigits]
          rw [hxy, ih (List.cons.inj hrest).2]

/-- As many numbers are shown as the heading asks for, and no more than it
    has. -/
theorem length_shownNumbers (h : NumberedHeading) :
    h.shownNumbers.length = min h.visible h.depth := by
  rw [shownNumbers, List.length_drop, ← depth]
  omega

/-- A heading that shows all its numbers has at least one of them. -/
theorem title_of_depth_le {h : NumberedHeading} (hle : h.depth ≤ h.visible)
    (hne : h.numbers ≠ []) :
    h.title = dotted h.numbers ++ " " ++ h.bareTitle := by
  have hshown : h.shownNumbers = h.numbers := by
    rw [shownNumbers, Nat.min_eq_right hle, Nat.sub_self, List.drop_zero]
  rw [title, hshown, List.isEmpty_eq_false_iff.mpr hne]
  rfl

/-- Titles that show all numbers tell them. -/
theorem numbers_eq_of_title_eq {h k : NumberedHeading}
    (hh : h.depth ≤ h.visible) (hk : k.depth ≤ k.visible)
    (hhne : h.numbers ≠ []) (hkne : k.numbers ≠ []) (he : h.title = k.title) :
    h.numbers = k.numbers := by
  rw [title_of_depth_le hh hhne, title_of_depth_le hk hkne] at he
  have hchars := congrArg String.toList he
  simp only [String.toList_append, List.append_assoc] at hchars
  exact dotted_append_inj hchars

/-- The innermost numbers that a title shows, and what stands behind them. -/
theorem title_of_visible {h : NumberedHeading} (hvisible : h.visible ≠ 0)
    (hne : h.numbers ≠ []) :
    ∃ outer inner, h.numbers = outer ++ inner
      ∧ inner.length = min h.visible h.depth
      ∧ h.title.toList = (inner.flatMap fun n => Nat.toDigits 10 n ++ ['.'])
        ++ ' ' :: h.bareTitle.toList := by
  have hdepth : 0 < h.depth := List.length_pos_iff.mpr hne
  have hshown : h.shownNumbers ≠ [] := by
    rw [← List.length_pos_iff, length_shownNumbers]
    omega
  refine ⟨h.numbers.take (h.depth - min h.visible h.depth), h.shownNumbers,
    (List.take_append_drop _ _).symm, length_shownNumbers h, ?_⟩
  rw [title, List.isEmpty_eq_false_iff.mpr hshown, ← toList_dotted]
  simp only [Bool.false_eq_true, if_false, String.toList_append,
    List.append_assoc]
  rfl

/-- A heading that shows no numbers has its bare title. -/
theorem title_of_not_visible {h : NumberedHeading} (hvisible : h.visible = 0) :
    h.title = h.bareTitle := by
  have hshown : h.shownNumbers = [] := by
    rw [← List.length_eq_zero_iff, length_shownNumbers, hvisible,
      Nat.zero_min]
  rw [title, hshown]
  rfl

end NumberedHeading

namespace Heading

open NumberedHeading

/-- **THE NUMBERS OF A HEADING SAY WHERE IT STANDS.**  Numbering changes
    neither the tree nor what its headings say.  Each heading has as its
    numbers the positions that lead to it, so they increase in the order of the
    document and fit wherever the numbers of siblings fit.  A title shows as
    many of the innermost numbers as its heading asks for, and none if it asks
    for none; if all headings show all their numbers, no two titles are the
    same. -/
theorem numberAll_located (chapters : List Heading) :
    let headings := outlineAll (numberAll chapters)
    unnumberedAll (numberAll chapters) = chapters
      ∧ (∀ path h,
        reached? NumberedHeading.children (numberAll chapters) path = some h
          ↔ h ∈ headings ∧ h.numbers = path)
      ∧ (headings.map numbers).Nodup ∧ headings.Pairwise Precedes
      ∧ (∀ h ∈ headings, (h.visible = 0 → h.title = h.bareTitle)
        ∧ (h.visible ≠ 0 → ∃ outer inner, h.numbers = outer ++ inner
          ∧ inner.length = min h.visible h.depth
          ∧ h.title.toList
            = (inner.flatMap fun n => Nat.toDigits 10 n ++ ['.'])
              ++ ' ' :: h.bareTitle.toList))
      ∧ ((∀ h ∈ headings, h.depth ≤ h.visible) → (headings.map title).Nodup)
      ∧ ∀ bound, chapters.length < bound →
        (∀ h ∈ headings, h.children.length < bound) →
        ∀ h ∈ headings, ∀ n ∈ h.numbers, n < bound := by
  intro headings
  have hreached : ∀ {h}, h ∈ headings → reached? NumberedHeading.children
      (numberAll chapters) h.numbers = some h := fun hmem =>
    reached?_numberAll_eq_some_iff.mpr ⟨hmem, rfl⟩
  have hne : ∀ {h}, h ∈ headings → h.numbers ≠ [] := by
    intro h hmem he
    have hnone := hreached hmem
    rw [he] at hnone
    exact nomatch hnone
  have hprecedes : headings.Pairwise Precedes :=
    pairwise_outlineAll chapters [] 1
  have hdistinct : headings.Pairwise fun h k => h.numbers ≠ k.numbers :=
    hprecedes.imp Precedes.numbers_ne
  refine ⟨unnumberedAll_numberFrom chapters [] 1,
    fun path h => reached?_numberAll_eq_some_iff,
    List.pairwise_map.mpr hdistinct, hprecedes, ?_, ?_, ?_⟩
  · intro h hmem
    exact ⟨title_of_not_visible, fun hvisible =>
      title_of_visible hvisible (hne hmem)⟩
  · intro hvisible
    refine List.pairwise_map.mpr (hdistinct.imp_of_mem ?_)
    intro h k hh hk hnumbers htitle
    exact hnumbers (numbers_eq_of_title_eq (hvisible h hh) (hvisible k hk)
      (hne hh) (hne hk) htitle)
  · intro bound hchapters hbound h hmem
    rw [← length_numberFrom [] 1 chapters] at hchapters
    refine lt_of_reached? hchapters ?_ (hreached hmem)
    intro way passed hway
    exact hbound passed (reached?_numberAll_eq_some_iff.mp hway).1

/-- Chapters whose bare titles look like numbered ones. -/
def sampleChapters : List Heading :=
  [.node "A" 1 [.node "2. A" 2 [], .node "A" 3 [.node "A" 3 []]],
    .node "1. A" 1 [], .node "" 2 [.node "1. A" 2 []]]

theorem numberAll_located_sample :
    (∀ h ∈ outlineAll (numberAll sampleChapters),
        h.depth ≤ h.visible ∧ h.children.length < 2 ^ 32 - 1)
      ∧ ((outlineAll (numberAll sampleChapters)).map title).Nodup
      ∧ ∀ h ∈ outlineAll (numberAll sampleChapters),
        ∀ n ∈ h.numbers, n < 2 ^ 32 - 1 := by
  have hsample : ∀ h ∈ outlineAll (numberAll sampleChapters),
      h.depth ≤ h.visible ∧ h.children.length < 2 ^ 32 - 1 := by
    decide
  obtain ⟨-, -, -, -, -, htitles, hnumbers⟩ := numberAll_located sampleChapters
  exact ⟨hsample, htitles fun h hmem => (hsample h hmem).1,
    hnumbers (2 ^ 32 - 1) (by decide) fun h hmem => (hsample h hmem).2⟩

end Heading

end Pdf
