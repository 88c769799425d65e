import Pdf.Proofs.Font.Compaction

/-! # Runs — the form in which each width is written

    What a reader gets from a `/W` array does not say in which of the two
    forms a width stands there.  This file does: the ranges of the array are
    the maximal runs of codes with one width, two codes at least, and its
    lists are the maximal blocks of the codes with a width that are in no run.

    Segments are put together from the highest code on, with one code of
    look-ahead, so a list gives its first code away when a run turns out to
    begin there (`Prepended.split`).  The proof separates what one such step
    keeps from what it means.  A step keeps segments `Canonical`, which
    compares neighbours only.  In canonical segments two neighbouring codes of
    one width stand in one range (`Canonical.range_of_twins`), and from this
    alone each range is a run and each list a block.  That there is a segment
    for each run and block then follows, since no two of them share a code. -/

namespace Pdf

open Syntax

/-! ## Runs and blocks -/

section Runs

variable {w : Nat → Int32}

/-- A maximal run of two or more consecutive codes that share a width. -/
structure IsRun (w : Nat → Int32) (first last : Nat) (width : Int32) :
    Prop where
  two : first < last
  width_ne : width ≠ 0
  same : ∀ code, first ≤ code → code ≤ last → w code = width
  before : ∀ code, code + 1 = first → w code ≠ width
  behind : w (last + 1) ≠ width

/-- A code of a maximal run. -/
def InRun (w : Nat → Int32) (code : Nat) : Prop :=
  ∃ first last width, IsRun w first last width ∧ first ≤ code ∧ code ≤ last

/-- A code with a width that is in no maximal run. -/
def StandsAlone (w : Nat → Int32) (code : Nat) : Prop :=
  w code ≠ 0 ∧ ¬ InRun w code

/-- A maximal block of consecutive codes with widths, none of them in a
    maximal run. -/
structure IsBlock (w : Nat → Int32) (first : Nat) (widths : List Int32) :
    Prop where
  nonempty : widths ≠ []
  alone : ∀ i (_ : i < widths.length),
    w (first + i) = widths[i] ∧ StandsAlone w (first + i)
  before : ∀ code, code + 1 = first → ¬ StandsAlone w code
  behind : ¬ StandsAlone w (first + widths.length)

/-- Runs that share a code have one width. -/
theorem IsRun.width_eq {first last first' last' code : Nat}
    {width width' : Int32} (h : IsRun w first last width)
    (h' : IsRun w first' last' width') (hcode : first ≤ code ∧ code ≤ last)
    (hcode' : first' ≤ code ∧ code ≤ last') : width = width' :=
  (h.same code hcode.1 hcode.2).symm.trans (h'.same code hcode'.1 hcode'.2)

/-- A run begins no later than another one that it meets. -/
theorem IsRun.first_le {first last first' last' code : Nat}
    {width width' : Int32} (h : IsRun w first last width)
    (h' : IsRun w first' last' width') (hcode : first ≤ code ∧ code ≤ last)
    (hcode' : first' ≤ code ∧ code ≤ last') : first ≤ first' := by
  refine Nat.le_of_not_lt ?_
  intro hlt
  -- the code before the first run would be one of the second run
  refine h.before (first - 1) (by omega) ?_
  rw [h.width_eq h' hcode hcode']
  exact h'.same _ (by omega) (by omega)

/-- A run ends no earlier than another one that it meets. -/
theorem IsRun.le_last {first last first' last' code : Nat}
    {width width' : Int32} (h : IsRun w first last width)
    (h' : IsRun w first' last' width') (hcode : first ≤ code ∧ code ≤ last)
    (hcode' : first' ≤ code ∧ code ≤ last') : last' ≤ last := by
  refine Nat.le_of_not_lt ?_
  intro hlt
  refine h.behind ?_
  rw [h.width_eq h' hcode hcode']
  exact h'.same _ (by omega) (by omega)

/-- Runs that share a code are one run. -/
theorem IsRun.unique {first last first' last' code : Nat}
    {width width' : Int32} (h : IsRun w first last width)
    (h' : IsRun w first' last' width') (hcode : first ≤ code ∧ code ≤ last)
    (hcode' : first' ≤ code ∧ code ≤ last') :
    first = first' ∧ last = last' ∧ width = width' :=
  ⟨Nat.le_antisymm (h.first_le h' hcode hcode')
      (h'.first_le h hcode' hcode),
    Nat.le_antisymm (h'.le_last h hcode' hcode)
      (h.le_last h' hcode hcode'),
    h.width_eq h' hcode hcode'⟩

/-- The codes of a block stand alone. -/
theorem IsBlock.alone_of_mem {first code : Nat} {widths : List Int32}
    (h : IsBlock w first widths) (hfirst : first ≤ code)
    (hcode : code < first + widths.length) : StandsAlone w code := by
  obtain ⟨i, rfl⟩ := Nat.exists_eq_add_of_le hfirst
  exact (h.alone i (by omega)).2

/-- Blocks that share a code begin together. -/
theorem IsBlock.first_le {first first' code : Nat}
    {widths widths' : List Int32} (h : IsBlock w first widths)
    (h' : IsBlock w first' widths')
    (hcode : first ≤ code ∧ code < first + widths.length)
    (hcode' : first' ≤ code ∧ code < first' + widths'.length) :
    first ≤ first' := by
  refine Nat.le_of_not_lt ?_
  intro hlt
  exact h.before (first - 1) (by omega)
    (h'.alone_of_mem (by omega) (by omega))

/-- A block ends no earlier than another one that it meets. -/
theorem IsBlock.behind_le {first first' code : Nat}
    {widths widths' : List Int32} (h : IsBlock w first widths)
    (h' : IsBlock w first' widths')
    (hcode : first ≤ code ∧ code < first + widths.length)
    (hcode' : first' ≤ code ∧ code < first' + widths'.length) :
    first' + widths'.length ≤ first + widths.length := by
  refine Nat.le_of_not_lt ?_
  intro hlt
  exact h.behind (h'.alone_of_mem (by omega) (by omega))

/-- Blocks that share a code are one block. -/
theorem IsBlock.unique {first first' code : Nat}
    {widths widths' : List Int32} (h : IsBlock w first widths)
    (h' : IsBlock w first' widths')
    (hcode : first ≤ code ∧ code < first + widths.length)
    (hcode' : first' ≤ code ∧ code < first' + widths'.length) :
    first = first' ∧ widths = widths' := by
  have hfirst : first = first' :=
    Nat.le_antisymm (h.first_le h' hcode hcode')
      (h'.first_le h hcode' hcode)
  have hbehind := h.behind_le h' hcode hcode'
  have hbehind' := h'.behind_le h hcode' hcode
  subst hfirst
  refine ⟨rfl, List.ext_getElem (by omega) ?_⟩
  intro i hi hi'
  exact (h.alone i hi).1.symm.trans (h'.alone i hi').1

end Runs

namespace Segment

/-! ## The codes of a segment -/

/-- The first code of a segment. -/
def first : Segment → Nat
  | range first _ _ => first
  | list first _ _ => first

/-- The last code of a segment. -/
def last : Segment → Nat
  | range _ last _ => last
  | list first _ widths => first + widths.length

/-- The segment is a list. -/
def IsList : Segment → Prop
  | range _ _ _ => False
  | list _ _ _ => True

/-- A range gives one width to each of its codes. -/
theorem mem_expand_range {first last code : Nat} {width v : Int32} :
    (code, v) ∈ (range first last width).expand
      ↔ first ≤ code ∧ code ≤ last ∧ v = width := by
  rw [expand, List.mem_map]
  constructor
  · rintro ⟨c, hc, he⟩
    obtain ⟨rfl, rfl⟩ := Prod.mk.inj he
    have hbounds := List.mem_range'_1.mp hc
    exact ⟨hbounds.1, by omega, rfl⟩
  · rintro ⟨hfirst, hlast, rfl⟩
    exact ⟨code, List.mem_range'_1.mpr ⟨hfirst, by omega⟩, rfl⟩

/-- A list gives each width to the code of its place. -/
theorem mem_expand_list {first code : Nat} {width v : Int32}
    {widths : List Int32} :
    (code, v) ∈ (list first width widths).expand
      ↔ first ≤ code ∧ (width :: widths)[code - first]? = some v := by
  rw [expand, List.mem_map]
  constructor
  · rintro ⟨⟨v, c⟩, hc, he⟩
    obtain ⟨rfl, rfl⟩ := Prod.mk.inj he
    exact List.mk_mem_zipIdx_iff_le_and_getElem?_sub.mp hc
  · intro h
    exact ⟨(v, code),
      List.mk_mem_zipIdx_iff_le_and_getElem?_sub.mpr h, rfl⟩

/-- The codes of a segment are those from its first one to its last one. -/
theorem bounds_of_mem {s : Segment} {code : Nat} {v : Int32}
    (h : (code, v) ∈ s.expand) : s.first ≤ code ∧ code ≤ s.last := by
  cases s with
  | range first last width =>
      obtain ⟨hfirst, hlast, -⟩ := mem_expand_range.mp h
      exact ⟨hfirst, hlast⟩
  | list first width widths =>
      obtain ⟨hfirst, hget⟩ := mem_expand_list.mp h
      have hlt := (List.getElem?_eq_some_iff.mp hget).1
      rw [List.length_cons] at hlt
      refine ⟨hfirst, ?_⟩
      show code ≤ first + widths.length
      omega

/-- A segment has a width for each code between its ends. -/
theorem exists_mem_of_bounds {s : Segment} {code : Nat}
    (hfirst : s.first ≤ code) (hlast : code ≤ s.last) :
    ∃ v, (code, v) ∈ s.expand := by
  cases s with
  | range first last width =>
      exact ⟨width, mem_expand_range.mpr ⟨hfirst, hlast, rfl⟩⟩
  | list first width widths =>
      have hlt : code - first < (width :: widths).length := by
        rw [List.length_cons]
        change code ≤ first + widths.length at hlast
        omega
      exact ⟨_, mem_expand_list.mpr
        ⟨hfirst, List.getElem?_eq_getElem hlt⟩⟩

/-! ## Segments that cannot be joined -/

/-- A range covers two codes at least, and a list has no neighbours of one
    width. -/
def IsTight : Segment → Prop
  | range first last _ => first < last
  | list first width widths => ∀ code v,
    (code, v) ∈ (list first width widths).expand →
      (code + 1, v) ∉ (list first width widths).expand

theorem IsTight.first_le_last {s : Segment} (h : s.IsTight) :
    s.first ≤ s.last := by
  cases s with
  | range first last width => exact Nat.le_of_lt h
  | list first width widths => exact Nat.le_add_right _ _

/-- A segment stands in front of another one.  If no code is between them,
    they are not both lists, and not of one width where they meet. -/
structure Apart (s t : Segment) : Prop where
  lt : s.last < t.first
  lists : s.last + 1 = t.first → s.IsList → ¬ t.IsList
  widths : s.last + 1 = t.first →
    ∀ v, (s.last, v) ∈ s.expand → (t.first, v) ∉ t.expand

/-- Each range and each list is as long as it can be. -/
structure Canonical (segments : List Segment) : Prop where
  tight : ∀ s ∈ segments, s.IsTight
  apart : segments.Pairwise Apart

/-- Segments with a code between them are apart. -/
theorem Apart.of_gap {s t : Segment} (h : s.last + 1 < t.first) :
    Apart s t :=
  ⟨by omega, fun he => by omega, fun he => by omega⟩

/-- What is apart from a segment is apart from those behind it, too. -/
theorem Apart.forall_cons {s t : Segment} {segments : List Segment}
    (h : Apart s t) (ht : t.IsTight) (hrest : ∀ u ∈ segments, Apart t u) :
    ∀ u ∈ t :: segments, Apart s u := by
  refine List.forall_mem_cons.mpr ⟨h, ?_⟩
  intro u hu
  have hst := h.lt
  have htu := (hrest u hu).lt
  have hle := ht.first_le_last
  exact .of_gap (by omega)

/-- A segment may take the place of another one that ends in the same way. -/
theorem Apart.of_ending {s s' t : Segment} (h : Apart s t)
    (hlast : s'.last = s.last) (hlist : s'.IsList → s.IsList)
    (hwidth : ∀ v, (s.last, v) ∈ s'.expand → (s.last, v) ∈ s.expand) :
    Apart s' t := by
  refine ⟨by rw [hlast]; exact h.lt, ?_, ?_⟩
  · intro he hs
    rw [hlast] at he
    exact h.lists he (hlist hs)
  · intro he v hv
    rw [hlast] at he hv
    exact h.widths he v (hwidth v hv)

theorem Canonical.head {s : Segment} {segments : List Segment}
    (h : Canonical (s :: segments)) : s.IsTight :=
  h.tight s List.mem_cons_self

/-- Nothing joins the first one of canonical segments. -/
theorem Canonical.front {s : Segment} {segments : List Segment}
    (h : Canonical (s :: segments)) : ∀ t ∈ segments, Apart s t :=
  (List.pairwise_cons.mp h.apart).1

theorem Canonical.tail {s : Segment} {segments : List Segment}
    (h : Canonical (s :: segments)) : Canonical segments :=
  ⟨fun t ht => h.tight t (List.mem_cons_of_mem s ht),
    (List.pairwise_cons.mp h.apart).2⟩

/-- A tight segment may stand in front of canonical ones that it is apart
    from. -/
theorem Canonical.cons {s : Segment} {segments : List Segment}
    (h : Canonical segments) (hs : s.IsTight)
    (hfront : ∀ t ∈ segments, Apart s t) : Canonical (s :: segments) :=
  ⟨List.forall_mem_cons.mpr ⟨hs, h.tight⟩,
    List.pairwise_cons.mpr ⟨hfront, h.apart⟩⟩

/-! ## Putting a code in front -/

/-- All that may happen when a code is put in front of segments. -/
inductive Prepended (code : Nat) (w : Int32) :
    List Segment → List Segment → Prop where
  /-- The code begins a list of its own. -/
  | alone {segments : List Segment}
      (h : ∀ s ∈ segments.head?, code + 1 = s.first →
        ¬ s.IsList ∧ (s.first, w) ∉ s.expand) :
      Prepended code w segments (list code w [] :: segments)
  /-- A range begins one code earlier. -/
  | extend {last : Nat} {rest : List Segment} :
      Prepended code w (range (code + 1) last w :: rest)
        (range code last w :: rest)
  /-- A list of one code becomes a range. -/
  | pair {rest : List Segment} :
      Prepended code w (list (code + 1) w [] :: rest)
        (range code (code + 1) w :: rest)
  /-- A list gives its first code to a range. -/
  | split {second : Int32} {widths : List Int32} {rest : List Segment} :
      Prepended code w (list (code + 1) w (second :: widths) :: rest)
        (range code (code + 1) w :: list (code + 2) second widths :: rest)
  /-- A list begins one code earlier. -/
  | grow {width : Int32} {widths : List Int32} {rest : List Segment}
      (h : w ≠ width) :
      Prepended code w (list (code + 1) width widths :: rest)
        (list code w (width :: widths) :: rest)

theorem first_mem_expand_list {first : Nat} {width v : Int32}
    {widths : List Int32} :
    (first, v) ∈ (list first width widths).expand ↔ v = width := by
  rw [mem_expand_list, Nat.sub_self, List.getElem?_cons_zero,
    Option.some_inj]
  exact ⟨fun h => h.2.symm, fun h => ⟨Nat.le_refl first, h.symm⟩⟩

theorem mem_expand_list_cons {first code : Nat} {width second v : Int32}
    {widths : List Int32} :
    (code, v) ∈ (list first width (second :: widths)).expand
      ↔ (code = first ∧ v = width)
        ∨ (code, v) ∈ (list (first + 1) second widths).expand := by
  rw [expand_list_cons, List.mem_cons, Prod.mk.injEq]

/-- To put a code in front of segments is one of the five cases. -/
theorem prepended_prepend (code : Nat) (w : Int32)
    (segments : List Segment) :
    Prepended code w segments (prepend (code, w) segments) := by
  cases segments with
  | nil => exact .alone fun s hs => nomatch hs
  | cons s rest =>
      cases s with
      | range first last width =>
          rw [prepend]
          split
          · next hjoin =>
              obtain ⟨rfl, rfl⟩ := hjoin
              exact .extend
          · next hjoin =>
              refine .alone ?_
              rintro s ⟨⟩ hnext
              refine ⟨id, ?_⟩
              intro hw
              exact hjoin ⟨hnext, (mem_expand_range.mp hw).2.2⟩
      | list first width widths =>
          -- a list that does not begin with the next code
          have hgap : code + 1 ≠ first → Prepended code w
              (list first width widths :: rest)
              (list code w [] :: list first width widths :: rest) := by
            intro hgap
            refine .alone ?_
            rintro s ⟨⟩ hnext
            exact absurd hnext hgap
          cases widths with
          | nil =>
              rw [prepend]
              split
              · next hjoin =>
                  obtain ⟨rfl, rfl⟩ := hjoin
                  exact .pair
              · next hjoin =>
                  split
                  · next hnext =>
                      subst hnext
                      exact .grow fun hw => hjoin ⟨rfl, hw⟩
                  · next hnext => exact hgap hnext
          | cons second widths =>
              rw [prepend]
              split
              · next hjoin =>
                  obtain ⟨rfl, rfl⟩ := hjoin
                  exact .split
              · next hjoin =>
                  split
                  · next hnext =>
                      subst hnext
                      exact .grow fun hw => hjoin ⟨rfl, hw⟩
                  · next hnext => exact hgap hnext

/-- **A STEP KEEPS SEGMENTS CANONICAL** if the code is below theirs. -/
theorem Prepended.canonical {code : Nat} {w : Int32}
    {segments segments' : List Segment}
    (h : Prepended code w segments segments') (hc : Canonical segments)
    (hbelow : ∀ s ∈ segments, code < s.first) : Canonical segments' := by
  cases h with
  | alone halone =>
      have htight : (list code w []).IsTight := by
        intro c v hv hv'
        have hbounds := bounds_of_mem hv
        have hbounds' := bounds_of_mem hv'
        simp only [first, last, List.length_nil] at hbounds hbounds'
        omega
      refine hc.cons htight ?_
      cases segments with
      | nil => exact fun t ht => nomatch ht
      | cons s rest =>
          have hs := hbelow s List.mem_cons_self
          have hapart : Apart (list code w []) s := by
            refine ⟨hs, fun he _ => (halone s rfl he).1, ?_⟩
            intro he v hv
            rw [first_mem_expand_list.mp hv]
            exact (halone s rfl he).2
          exact hapart.forall_cons hc.head hc.front
  | @extend last rest =>
      refine hc.tail.cons (Nat.lt_of_succ_lt hc.head) ?_
      intro t ht
      refine (hc.front t ht).of_ending rfl id ?_
      intro v hv
      exact mem_expand_range.mpr ⟨Nat.le_of_lt hc.head, Nat.le_refl last,
        (mem_expand_range.mp hv).2.2⟩
  | pair =>
      refine hc.tail.cons (Nat.lt_succ_self code) ?_
      intro t ht
      refine (hc.front t ht).of_ending rfl (fun h => h.elim) ?_
      intro v hv
      exact first_mem_expand_list.mpr (mem_expand_range.mp hv).2.2
  | @split second widths rest =>
      have hshorter : ∀ c v, (c, v) ∈ (list (code + 2) second widths).expand →
          (c, v) ∈ (list (code + 1) w (second :: widths)).expand := by
        intro c v hv
        rw [expand_list_cons]
        exact List.mem_cons_of_mem _ hv
      have hlist : (list (code + 2) second widths).IsTight := by
        intro c v hv hv'
        exact hc.head c v (hshorter c v hv) (hshorter _ v hv')
      have hends : ∀ t ∈ rest, Apart (list (code + 2) second widths) t := by
        intro t ht
        refine (hc.front t ht).of_ending ?_ id fun v hv => hshorter _ v hv
        show code + 2 + widths.length = code + 1 + (widths.length + 1)
        omega
      have hmeet : Apart (range code (code + 1) w)
          (list (code + 2) second widths) := by
        refine ⟨Nat.lt_succ_self (code + 1), fun _ h => h.elim, ?_⟩
        intro _ v hv hv'
        -- the list would have had two neighbours of one width
        obtain rfl := (mem_expand_range.mp hv).2.2
        exact hc.head (code + 1) v (first_mem_expand_list.mpr rfl)
          (hshorter _ v hv')
      exact (hc.tail.cons hlist hends).cons (Nat.lt_succ_self code)
        (hmeet.forall_cons hlist hends)
  | @grow width widths rest hne =>
      have htight : (list code w (width :: widths)).IsTight := by
        intro c v hv hv'
        obtain ⟨hcode, -⟩ | hnext := mem_expand_list_cons.mp hv'
        · -- nothing stands in front of the first code
          have hle := (bounds_of_mem hv).1
          simp only [first] at hle
          omega
        · obtain ⟨hcode, rfl⟩ | hv := mem_expand_list_cons.mp hv
          · rw [hcode] at hnext
            exact hne (first_mem_expand_list.mp hnext)
          · exact hc.head c v hv hnext
      refine hc.tail.cons htight ?_
      intro t ht
      refine (hc.front t ht).of_ending ?_ id ?_
      · show code + (widths.length + 1) = code + 1 + widths.length
        omega
      · intro v hv
        obtain ⟨hcode, -⟩ | hv := mem_expand_list_cons.mp hv
        · have hle := hc.head.first_le_last
          simp only [first] at hle
          omega
        · exact hv

/-- The first code of a segment is among those that the segments stand
    for. -/
theorem first_mem {s : Segment} {segments : List Segment}
    (h : s.IsTight) (hs : s ∈ segments) :
    ∃ v, (s.first, v) ∈ segments.flatMap expand := by
  obtain ⟨v, hv⟩ := exists_mem_of_bounds (Nat.le_refl s.first) h.first_le_last
  exact ⟨v, List.mem_flatMap.mpr ⟨s, hs, hv⟩⟩

/-- Segments that were built from ascending codes are canonical. -/
theorem canonical_ofEntries {entries : List (Nat × Int32)}
    (h : entries.Pairwise fun e e' => e.1 < e'.1) :
    Canonical (ofEntries entries) := by
  induction h with
  | nil => exact ⟨fun s hs => (nomatch hs), .nil⟩
  | @cons e entries he h ih =>
      refine (prepended_prepend e.1 e.2 _).canonical ih ?_
      intro s hs
      obtain ⟨v, hv⟩ := first_mem (ih.tight s hs) hs
      have hmem : (s.first, v) ∈ entries :=
        (ofEntries_spec entries).2 ▸ hv
      exact he _ hmem

/-! ## What canonical segments are -/

/-- Two segments are the same one, or one stands in front of the other. -/
theorem Canonical.trichotomy {s t : Segment} {segments : List Segment}
    (h : Canonical segments) (hs : s ∈ segments) (ht : t ∈ segments) :
    s = t ∨ Apart s t ∨ Apart t s := by
  induction segments with
  | nil => exact nomatch hs
  | cons u segments ih =>
      obtain hsu | hs := List.mem_cons.mp hs
      · obtain htu | ht := List.mem_cons.mp ht
        · exact .inl (hsu.trans htu.symm)
        · exact .inr (.inl (hsu ▸ h.front t ht))
      · obtain htu | ht := List.mem_cons.mp ht
        · exact .inr (.inr (htu ▸ h.front s hs))
        · exact ih h.tail hs ht

/-- No code is in two segments. -/
theorem Canonical.eq_of_mem {s t : Segment} {segments : List Segment}
    (h : Canonical segments) (hs : s ∈ segments) (ht : t ∈ segments)
    {code : Nat} {v v' : Int32} (hv : (code, v) ∈ s.expand)
    (hv' : (code, v') ∈ t.expand) : s = t := by
  have hs' := bounds_of_mem hv
  have ht' := bounds_of_mem hv'
  obtain heq | hapart | hapart := h.trichotomy hs ht
  · exact heq
  · have hlt := hapart.lt
    omega
  · have hlt := hapart.lt
    omega

/-- Lists that meet are one list. -/
theorem Canonical.eq_of_lists {s t : Segment} {segments : List Segment}
    (h : Canonical segments) (hs : s ∈ segments) (ht : t ∈ segments)
    (hslist : s.IsList) (htlist : t.IsList) {code : Nat}
    (hcode : s.first ≤ code ∧ code ≤ s.last)
    (hnext : t.first ≤ code + 1 ∧ code + 1 ≤ t.last) : s = t := by
  obtain heq | hapart | hapart := h.trichotomy hs ht
  · exact heq
  · have hlt := hapart.lt
    exact absurd htlist (hapart.lists (by omega) hslist)
  · have hlt := hapart.lt
    omega

/-- **NEIGHBOURING CODES OF ONE WIDTH STAND IN ONE RANGE**. -/
theorem Canonical.range_of_twins {segments : List Segment}
    (h : Canonical segments) {code : Nat} {v : Int32}
    (hv : (code, v) ∈ segments.flatMap expand)
    (hv' : (code + 1, v) ∈ segments.flatMap expand) :
    ∃ first last, range first last v ∈ segments
      ∧ first ≤ code ∧ code + 1 ≤ last := by
  obtain ⟨s, hs, hv⟩ := List.mem_flatMap.mp hv
  obtain ⟨t, ht, hv'⟩ := List.mem_flatMap.mp hv'
  have hbounds := bounds_of_mem hv
  have hbounds' := bounds_of_mem hv'
  obtain rfl | hapart | hapart := h.trichotomy hs ht
  · cases s with
    | range first last width =>
        obtain rfl := (mem_expand_range.mp hv).2.2
        exact ⟨first, last, hs, hbounds.1, hbounds'.2⟩
    | list first width widths =>
        exact absurd hv' (h.tight _ hs code v hv)
  · -- the segments would meet in codes of one width
    have hlt := hapart.lt
    have hlast : s.last = code := by omega
    have hfirst : t.first = code + 1 := by omega
    refine absurd ?_ (hapart.widths (by omega) v ?_)
    · rw [hfirst]
      exact hv'
    · rw [hlast]
      exact hv
  · have hlt := hapart.lt
    omega

/-! ## Segments of a function of widths -/

/-- The segments stand for the codes that have a width. -/
def Shows (w : Nat → Int32) (segments : List Segment) : Prop :=
  ∀ code v, (code, v) ∈ segments.flatMap expand ↔ w code = v ∧ v ≠ 0

section Meaning

variable {w : Nat → Int32} {segments : List Segment}

/-- What a segment stands for is shown. -/
theorem Shows.of_mem (h : Shows w segments) {s : Segment}
    (hs : s ∈ segments) {code : Nat} {v : Int32}
    (hv : (code, v) ∈ s.expand) : w code = v ∧ v ≠ 0 :=
  (h code v).mp (List.mem_flatMap.mpr ⟨s, hs, hv⟩)

/-- Each code with a width is in a segment. -/
theorem Shows.covers (h : Shows w segments) {code : Nat}
    (hcode : w code ≠ 0) : ∃ s ∈ segments, (code, w code) ∈ s.expand :=
  List.mem_flatMap.mp ((h code (w code)).mpr ⟨rfl, hcode⟩)

/-- Neighbouring codes of one width, in a range around them. -/
theorem Shows.range_of_twins (h : Shows w segments)
    (hc : Canonical segments) {code : Nat} (hne : w code ≠ 0)
    (hsame : w (code + 1) = w code) :
    ∃ first last, range first last (w code) ∈ segments
      ∧ first ≤ code ∧ code + 1 ≤ last :=
  hc.range_of_twins ((h code _).mpr ⟨rfl, hne⟩)
    ((h (code + 1) _).mpr ⟨hsame, hne⟩)

/-- A range has both of two neighbouring codes of its width, or none. -/
theorem Shows.mem_of_twins (h : Shows w segments) (hc : Canonical segments)
    {first last code : Nat} {width : Int32}
    (hs : range first last width ∈ segments) (hw : w code = width)
    (hw' : w (code + 1) = width)
    (hmeets : first ≤ code + 1 ∧ code ≤ last) :
    first ≤ code ∧ code + 1 ≤ last := by
  have htight : first < last := hc.tight _ hs
  have hne : width ≠ 0 := (h.of_mem hs (mem_expand_range.mpr
    ⟨Nat.le_refl first, Nat.le_of_lt htight, rfl⟩)).2
  obtain ⟨first', last', hs', hfirst', hlast'⟩ :=
    h.range_of_twins hc (hw ▸ hne) (hw'.trans hw.symm)
  -- the two ranges share one of the codes
  have heq : range first last width = range first' last' (w code) := by
    by_cases hcode : first ≤ code
    · exact hc.eq_of_mem hs hs'
        (mem_expand_range.mpr ⟨hcode, hmeets.2, rfl⟩)
        (mem_expand_range.mpr ⟨hfirst', Nat.le_of_succ_le hlast', rfl⟩)
    · exact hc.eq_of_mem hs hs'
        (mem_expand_range.mpr ⟨hmeets.1, by omega, rfl⟩)
        (mem_expand_range.mpr ⟨Nat.le_succ_of_le hfirst', hlast', rfl⟩)
  injection heq with hfirst hlast
  rw [hfirst, hlast]
  exact ⟨hfirst', hlast'⟩

/-- A range is a maximal run. -/
theorem Shows.isRun_of_mem (h : Shows w segments) (hc : Canonical segments)
    {first last : Nat} {width : Int32}
    (hs : range first last width ∈ segments) : IsRun w first last width := by
  have htwo : first < last := hc.tight _ hs
  have hmem : ∀ code, first ≤ code → code ≤ last →
      w code = width ∧ width ≠ 0 := fun code hfirst hlast =>
    h.of_mem hs (mem_expand_range.mpr ⟨hfirst, hlast, rfl⟩)
  have hfirst := hmem first (Nat.le_refl first) (Nat.le_of_lt htwo)
  have hlast := hmem last (Nat.le_of_lt htwo) (Nat.le_refl last)
  refine ⟨htwo, hfirst.2, fun code h h' => (hmem code h h').1, ?_, ?_⟩
  · intro code hcode hw
    have htwins := h.mem_of_twins hc hs hw (hcode ▸ hfirst.1) (by omega)
    omega
  · intro hw
    have htwins := h.mem_of_twins hc hs hlast.1 hw (by omega)
    omega

/-- A code of a maximal run is in a range. -/
theorem Shows.range_of_inRun (h : Shows w segments)
    (hc : Canonical segments) {code : Nat} (hrun : InRun w code) :
    ∃ first last, range first last (w code) ∈ segments
      ∧ first ≤ code ∧ code ≤ last := by
  obtain ⟨first, last, width, hrun, hfirst, hlast⟩ := hrun
  have hw := hrun.same code hfirst hlast
  have hne : w code ≠ 0 := hw ▸ hrun.width_ne
  have htwo := hrun.two
  obtain heq | hlt := Nat.eq_or_lt_of_le hlast
  · -- the last code of the run has a neighbour in front of it
    have hw' := hrun.same (code - 1) (by omega) (by omega)
    have hprev : code - 1 + 1 = code := by omega
    obtain ⟨first', last', hs, hfirst', hlast'⟩ :=
      h.range_of_twins hc (hw' ▸ hrun.width_ne)
        (hprev.symm ▸ hw.trans hw'.symm)
    refine ⟨first', last', ?_, by omega, by omega⟩
    rw [hw, ← hw']
    exact hs
  · have hw' := hrun.same (code + 1) (by omega) hlt
    obtain ⟨first', last', hs, hfirst', hlast'⟩ :=
      h.range_of_twins hc hne (hw'.trans hw.symm)
    exact ⟨first', last', hs, hfirst', by omega⟩

/-- A code stands alone exactly if it is in a list. -/
theorem Shows.standsAlone_iff (h : Shows w segments)
    (hc : Canonical segments) {code : Nat} :
    StandsAlone w code
      ↔ ∃ s ∈ segments, s.IsList ∧ (code, w code) ∈ s.expand := by
  constructor
  · rintro ⟨hne, hrun⟩
    obtain ⟨s, hs, hv⟩ := h.covers hne
    refine ⟨s, hs, ?_, hv⟩
    cases s with
    | range first last width =>
        have hbounds := bounds_of_mem hv
        exact hrun ⟨first, last, width, h.isRun_of_mem hc hs, hbounds.1,
          hbounds.2⟩
    | list first width widths => trivial
  · rintro ⟨s, hs, hlist, hv⟩
    refine ⟨(h.of_mem hs hv).2, ?_⟩
    intro hrun
    obtain ⟨first, last, hs', hfirst, hlast⟩ := h.range_of_inRun hc hrun
    have heq := hc.eq_of_mem hs hs' hv
      (mem_expand_range.mpr ⟨hfirst, hlast, rfl⟩)
    rw [heq] at hlist
    exact hlist

/-- A list is a maximal block. -/
theorem Shows.isBlock_of_mem (h : Shows w segments)
    (hc : Canonical segments) {first : Nat} {width : Int32}
    {widths : List Int32} (hs : list first width widths ∈ segments) :
    IsBlock w first (width :: widths) := by
  have hmem : ∀ i (hi : i < (width :: widths).length),
      (first + i, (width :: widths)[i])
        ∈ (list first width widths).expand := by
    intro i hi
    refine mem_expand_list.mpr ⟨Nat.le_add_right first i, ?_⟩
    rw [Nat.add_sub_cancel_left]
    exact List.getElem?_eq_getElem hi
  refine ⟨List.cons_ne_nil width widths, ?_, ?_, ?_⟩
  · intro i hi
    have hw := (h.of_mem hs (hmem i hi)).1
    refine ⟨hw, (h.standsAlone_iff hc).mpr ⟨_, hs, trivial, ?_⟩⟩
    rw [hw]
    exact hmem i hi
  · intro code hcode halone
    obtain ⟨s, hs', hlist, hv⟩ := (h.standsAlone_iff hc).mp halone
    have hbounds := bounds_of_mem hv
    have heq := hc.eq_of_lists hs' hs hlist trivial hbounds
      ⟨Nat.le_of_eq hcode.symm, hcode ▸ Nat.le_add_right _ _⟩
    rw [heq] at hbounds
    exact absurd hbounds.1 (by show ¬ first ≤ code; omega)
  · intro halone
    obtain ⟨s, hs', hlist, hv⟩ := (h.standsAlone_iff hc).mp halone
    have hbounds := bounds_of_mem hv
    have heq := hc.eq_of_lists hs hs' trivial hlist
      ⟨Nat.le_add_right first widths.length, Nat.le_refl _⟩ hbounds
    rw [← heq] at hbounds
    exact absurd hbounds.2 (Nat.not_succ_le_self _)

/-- **THE RANGES ARE THE MAXIMAL RUNS**. -/
theorem Shows.range_mem_iff (h : Shows w segments) (hc : Canonical segments)
    {first last : Nat} {width : Int32} :
    range first last width ∈ segments ↔ IsRun w first last width := by
  refine ⟨h.isRun_of_mem hc, ?_⟩
  intro hrun
  have hcode : first ≤ first ∧ first ≤ last :=
    ⟨Nat.le_refl first, Nat.le_of_lt hrun.two⟩
  obtain ⟨first', last', hs, hcode'⟩ :=
    h.range_of_inRun hc ⟨first, last, width, hrun, hcode⟩
  obtain ⟨rfl, rfl, hwidth⟩ := hrun.unique (h.isRun_of_mem hc hs) hcode hcode'
  rw [hwidth]
  exact hs

/-- **THE LISTS ARE THE MAXIMAL BLOCKS** of codes that stand alone. -/
theorem Shows.list_mem_iff (h : Shows w segments) (hc : Canonical segments)
    {first : Nat} {width : Int32} {widths : List Int32} :
    list first width widths ∈ segments
      ↔ IsBlock w first (width :: widths) := by
  refine ⟨h.isBlock_of_mem hc, ?_⟩
  intro hblock
  have halone := (hblock.alone 0 (Nat.succ_pos _)).2
  obtain ⟨s, hs, hlist, hv⟩ := (h.standsAlone_iff hc).mp halone
  have hbounds := bounds_of_mem hv
  cases s with
  | range first' last' width' => exact hlist.elim
  | list first' width' widths' =>
      obtain ⟨rfl, hwidths⟩ := hblock.unique (h.isBlock_of_mem hc hs)
        ⟨Nat.le_refl first, Nat.lt_add_of_pos_right (Nat.succ_pos _)⟩
        ⟨hbounds.1, Nat.lt_succ_of_le hbounds.2⟩
      obtain ⟨rfl, rfl⟩ := List.cons.inj hwidths
      exact hs

end Meaning

/-- Two segments of one form, the second of which goes on where the first one
    ends. -/
def Joins : Segment → Segment → Prop
  | range _ last width, range first _ width' =>
      last + 1 = first ∧ width = width'
  | list first _ widths, list first' _ _ =>
      first + widths.length + 1 = first'
  | _, _ => False

/-- Segments that are apart cannot be joined. -/
theorem Apart.not_joins {s t : Segment} (h : Apart s t) (hs : s.IsTight)
    (ht : t.IsTight) : ¬ s.Joins t := by
  intro hjoins
  cases s with
  | range first last width =>
      cases t with
      | range first' last' width' =>
          obtain ⟨hnext, rfl⟩ := hjoins
          exact h.widths hnext width
            (mem_expand_range.mpr ⟨hs.first_le_last, Nat.le_refl last, rfl⟩)
            (mem_expand_range.mpr ⟨Nat.le_refl first', ht.first_le_last, rfl⟩)
      | list first' width' widths' => exact hjoins
  | list first width widths =>
      cases t with
      | range first' last' width' => exact hjoins
      | list first' width' widths' => exact h.lists hjoins trivial trivial

/-- Canonical segments ascend, and none joins a later one. -/
theorem Canonical.ascending {segments : List Segment}
    (h : Canonical segments) :
    segments.Pairwise fun s t => s.last < t.first ∧ ¬ s.Joins t :=
  h.apart.imp_of_mem fun hs ht hapart =>
    ⟨hapart.lt, hapart.not_joins (h.tight _ hs) (h.tight _ ht)⟩

theorem Canonical.nodup {segments : List Segment} (h : Canonical segments) :
    segments.Nodup := by
  refine h.apart.imp_of_mem ?_
  rintro s t hs - hapart rfl
  exact Nat.not_le_of_lt hapart.lt (h.tight s hs).first_le_last

/-! ## The segments that were written -/

/-- The width that an item of a list spells. -/
def width? : Object → Option Int32
  | .integer i => (Advances.fit i).toOption
  | _ => none

/-- The segments that the items of a `/W` array spell. -/
def segments? : List Object → Option (List Segment)
  | [] => some []
  | .integer first :: .array widths :: rest => do
      let first ← first.toNat?
      match ← widths.mapM width? with
      | [] => none
      | width :: widths => return list first width widths :: (← segments? rest)
  | .integer first :: .integer last :: .integer width :: rest => do
      let first ← first.toNat?
      let last ← last.toNat?
      let width ← width? (.integer width)
      return range first last width :: (← segments? rest)
  | _ => none

/-- The segments of a `/W` array. -/
def written? (bytes : Bytes) : Option (List Segment) :=
  match read? bytes with
  | some (.array items, []) => segments? items
  | _ => none

theorem width?_toInt (w : Int32) : width? (.integer w.toInt) = some w := by
  rw [width?, Advances.fit, if_pos ⟨w.minValue_le_toInt, w.toInt_le⟩]
  exact congrArg some (Int32.ofInt_toInt w)

theorem mapM_width? (widths : List Int32) :
    (widths.map fun w => Object.integer w.toInt).mapM width?
      = some widths := by
  induction widths with
  | nil => rfl
  | cons w widths ih =>
      rw [List.map_cons, List.mapM_cons, ih, width?_toInt]
      rfl

/-- Segments that were made objects are read back as segments. -/
theorem segments?_objects (segments : List Segment) :
    segments? (segments.flatMap objects) = some segments := by
  induction segments with
  | nil => rfl
  | cons s segments ih =>
      rw [List.flatMap_cons]
      cases s with
      | range first last width =>
          show segments? (.integer first :: .integer last
            :: .integer width.toInt :: segments.flatMap objects) = _
          rw [segments?, ih, width?_toInt]
          rfl
      | list first width widths =>
          show segments? (.integer first
            :: .array ((width :: widths).map fun w => .integer w.toInt)
            :: segments.flatMap objects) = _
          rw [segments?, ih, mapM_width?]
          rfl

end Segment

namespace Advances

/-- The width of a code among some, 0 if it is none of them. -/
def shown (a : Advances) (codes : Std.ExtTreeSet UInt16) (code : Nat) :
    Int32 :=
  if code < UInt16.size ∧ UInt16.ofNat code ∈ codes then
    a.get (UInt16.ofNat code)
  else 0

theorem shown_toNat (a : Advances) {codes : Std.ExtTreeSet UInt16}
    {code : UInt16} (h : code ∈ codes) :
    a.shown codes code.toNat = a.get code := by
  rw [shown, UInt16.ofNat_toNat, if_pos ⟨code.toNat_lt, h⟩]

/-- Only codes that are in use show a width. -/
theorem exists_of_shown_ne {a : Advances} {codes : Std.ExtTreeSet UInt16}
    {code : Nat} (h : a.shown codes code ≠ 0) :
    ∃ c : UInt16, c ∈ codes ∧ c.toNat = code := by
  rw [shown] at h
  split at h
  · next hcode =>
      exact ⟨UInt16.ofNat code, hcode.2, UInt16.toNat_ofNat_of_lt hcode.1⟩
  · exact absurd rfl h

/-- The segments of some codes stand for their widths. -/
theorem shows_segments (a : Advances) (codes : Std.ExtTreeSet UInt16) :
    Segment.Shows (a.shown codes) (a.segments codes) := by
  intro code v
  rw [segments, (Segment.ofEntries_spec _).2, List.mem_map]
  constructor
  · rintro ⟨⟨c, w⟩, hused, he⟩
    obtain ⟨hc, rfl, hne⟩ := mem_used.mp hused
    obtain ⟨rfl, rfl⟩ := Prod.mk.inj he
    exact ⟨a.shown_toNat hc, hne⟩
  · rintro ⟨rfl, hne⟩
    obtain ⟨c, hc, rfl⟩ := exists_of_shown_ne hne
    rw [a.shown_toNat hc] at hne
    refine ⟨(c, a.get c), mem_used.mpr ⟨hc, rfl, hne⟩, ?_⟩
    rw [a.shown_toNat hc]

/-- The segments of an array are canonical. -/
theorem canonical_segments (a : Advances) (codes : Std.ExtTreeSet UInt16) :
    Segment.Canonical (a.segments codes) := by
  refine Segment.canonical_ofEntries (List.pairwise_map.mpr ?_)
  exact (a.ascending_used codes).imp fun h => UInt16.lt_iff_toNat_lt.mp h

/-- A reader of the array gets its segments. -/
theorem written?_of_horizontalArray {a : Advances}
    {codes : Std.ExtTreeSet UInt16} {text : Bytes}
    (h : a.horizontalArray codes = some text) :
    Segment.written? text = some (a.segments codes) := by
  rw [eq_of_horizontalArray h, Segment.written?, read?_printAll]
  exact Segment.segments?_objects (a.segments codes)

/-- **THE `/W` ARRAY IS CANONICAL**: among the codes with a width, its ranges
    are the maximal runs of two or more consecutive codes that share one, and
    its lists are the maximal blocks of consecutive codes that are in no such
    run.  Each of them stands there once, in ascending order, and no segment
    can be joined with one behind it. -/
theorem horizontalArray_maximal {a : Advances}
    {codes : Std.ExtTreeSet UInt16} {text : Bytes}
    (h : a.horizontalArray codes = some text) :
    ∃ segments, Segment.written? text = some segments
      ∧ (∀ first last width, .range first last width ∈ segments
        ↔ IsRun (a.shown codes) first last width)
      ∧ (∀ first width widths, .list first width widths ∈ segments
        ↔ IsBlock (a.shown codes) first (width :: widths))
      ∧ segments.Nodup
      ∧ segments.Pairwise fun s t => s.last < t.first ∧ ¬ s.Joins t := by
  have hshows := a.shows_segments codes
  have hcanonical := a.canonical_segments codes
  exact ⟨a.segments codes, written?_of_horizontalArray h,
    fun _ _ _ => hshows.range_mem_iff hcanonical,
    fun _ _ _ => hshows.list_mem_iff hcanonical,
    hcanonical.nodup, hcanonical.ascending⟩

/-- An array with both a maximal run and a maximal block. -/
theorem horizontalArray_maximal_sample :
    sampleAdvances.horizontalArray sampleCodes
        = some (Bytes.ascii "[1[100]2 4 200 5[-30]65534 65535 200]")
      ∧ IsRun (sampleAdvances.shown sampleCodes) 2 4 200
      ∧ IsBlock (sampleAdvances.shown sampleCodes) 5 [-30] := by
  have htext : sampleAdvances.horizontalArray sampleCodes
      = some (Bytes.ascii "[1[100]2 4 200 5[-30]65534 65535 200]") := by
    decide +kernel
  obtain ⟨segments, hread, hrange, hlist, -, -⟩ :=
    horizontalArray_maximal htext
  have hsegments : Segment.written?
      (Bytes.ascii "[1[100]2 4 200 5[-30]65534 65535 200]")
      = some [.list 1 100 [], .range 2 4 200, .list 5 (-30) [],
        .range 65534 65535 200] := by
    decide +kernel
  obtain rfl := Option.some.inj (hread.symm.trans hsegments)
  exact ⟨htext, (hrange 2 4 200).mp (by decide),
    (hlist 5 (-30) []).mp (by decide)⟩

end Advances

end Pdf
