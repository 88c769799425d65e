import Pdf.Document.Basic
import Pdf.Proofs.Action.Sequence
import Pdf.Proofs.Body.Identities
import Pdf.Proofs.Font.Viewing

/-! # Building — what calls on a document leave behind

    A document is built by adding fonts, by using them for text and by calls on
    its body, in any order.  A font gets the reference that its body hands out
    next, and nothing is stored under it as long as nobody fills it
    (`Prepared`).

    From then on the font changes by the texts that it is used for, and by
    nothing else: other fonts get other references, and calls on the body do
    not see fonts at all.  So the font that is found at the end is the one that
    was created, with exactly the characters of these texts (`IsUsed`). -/

namespace Pdf

namespace CompositeFont

/-! ## Fonts -/

/-- A font under a name with a style and under an encoding, before it is used
    for anything. -/
structure IsNew (font encoding : String) (f : CompositeFont) : Prop where
  name : nameAndStyle font = (f.name, f.style)
  encoding : f.encoding = encoding
  used : f.used = .empty

/-- A created font is the one that was asked for, and nothing is used of it
    yet. -/
theorem isNew_of_create {font encoding : String} {l : FontLibrary}
    {f : CompositeFont} (h : ((create font encoding).run l).result = .ok f) :
    IsNew font encoding f := by
  rw [create, Action.run_bind_ok _ (Action.run_read l)] at h
  cases hname : nameAndStyle font with
  | mk name style =>
      simp only [hname] at h
      split at h
      · cases h
      · obtain ⟨codes, -, h, -⟩ := Action.exists_of_bind_eq_ok h
        obtain ⟨metrics, -, h, -⟩ := Action.exists_of_bind_eq_ok h
        obtain ⟨_, -, h, -⟩ := Action.exists_of_bind_eq_ok h
        rw [← Except.ok.inj h]
        exact ⟨hname, rfl, rfl⟩

/-- The font with the characters of some texts noted as used. -/
def useAll (f : CompositeFont) (texts : List String) : CompositeFont :=
  texts.foldl use f

/-- Noting used characters changes no character. -/
theorem cids_use (f : CompositeFont) (text : String) :
    (f.use text).cids = f.cids := rfl

/-- Using a font changes nothing else about it. -/
theorem useAll_eq (f : CompositeFont) (texts : List String) :
    f.useAll texts = { f with used := (f.useAll texts).used } := by
  induction texts generalizing f with
  | nil => rfl
  | cons text texts ih => exact ih (f.use text)

/-- After some texts, the used characters are those from before and those of the
    texts. -/
theorem mem_used_useAll {f : CompositeFont} {texts : List String}
    {cid : UInt16} : cid ∈ (f.useAll texts).used
      ↔ cid ∈ f.used ∨ ∃ text ∈ texts, cid ∈ f.cids text := by
  induction texts generalizing f with
  | nil => simp [useAll]
  | cons text texts ih =>
      have hrest := @ih (f.use text)
      rw [cids_use] at hrest
      refine hrest.trans ?_
      rw [use, mem_foldl_insert, or_assoc]
      simp only [List.mem_cons, or_and_right, exists_or, exists_eq_left]

end CompositeFont

namespace Document

variable {d : Document}

/-! ## Operations -/

/-- A call that may change a document. -/
inductive Operation where
  | addFont (font encoding : String)
  | useText (r : Ref) (text : String)
  | onBody (o : Body.Operation)

/-- The document after an operation, be it successful or not. -/
def Operation.after (d : Document) : Operation → Document
  | addFont font encoding => ((Document.addFont font encoding).run d).state
  | useText r text => d.useText r text
  | onBody o => { d with body := o.after d.body }

/-- The document after some operations. -/
def afterAll (d : Document) (operations : List Operation) : Document :=
  operations.foldl (fun d o => o.after d) d

/-- Whether an operation leaves the references of fonts to their fonts. -/
def Operation.SparesFonts (d : Document) : Operation → Prop
  | onBody (.fill r _) => d.font? r = none
  | _ => True

/-- None of some operations fills a reference that is one of a font by then. -/
def SparesFonts : Document → List Operation → Prop
  | _, [] => True
  | d, o :: operations =>
      o.SparesFonts d ∧ SparesFonts (o.after d) operations

/-- What the first operations spare does not depend on later ones. -/
theorem SparesFonts.of_append {operations operations' : List Operation}
    (h : SparesFonts d (operations ++ operations')) :
    SparesFonts d operations := by
  induction operations generalizing d with
  | nil => trivial
  | cons o operations ih => exact ⟨h.1, ih h.2⟩

/-- What adding a font comes to once it is known whether it could be created,
    apart from the library. -/
def accept (d : Document) : Except Error CompositeFont →
    Except Error Ref × Document
  | .error e => (.error e, d)
  | .ok f =>
      if Body.highestNumber ≤ d.body.issued then (.error .numbersExhausted, d)
      else (.ok d.body.nextRef,
        { d with
          body := d.body.issue
          fonts := d.fonts.insert d.body.nextRef f })

/-- What adding a font does, in one equation: it is created, and a number is
    reserved for it. -/
theorem run_addFont (font encoding : String) (d : Document) :
    let o := (CompositeFont.create font encoding).run d.library
    ((addFont font encoding).run d).result = (d.accept o.result).1
      ∧ ((addFont font encoding).run d).state
        = { (d.accept o.result).2 with library := o.state } := by
  intro o
  have hlibrary : (onLibrary (CompositeFont.create font encoding)).run d
      = ⟨o.result, { d with library := o.state }, o.events⟩ := rfl
  rw [addFont]
  cases hcreated : o.result with
  | error e =>
      rw [hcreated] at hlibrary
      rw [Action.run_bind_error _ hlibrary]
      exact ⟨rfl, rfl⟩
  | ok f =>
      rw [hcreated] at hlibrary
      rw [Action.run_bind_ok _ hlibrary, accept]
      have hbody : (onBody Body.reserve).run { d with library := o.state }
          = ⟨(Body.reserve.run d.body).result,
            { d with
              library := o.state
              body := (Body.reserve.run d.body).state },
            (Body.reserve.run d.body).events⟩ := rfl
      rw [Body.run_reserve] at hbody
      by_cases hfull : Body.highestNumber ≤ d.body.issued
      · rw [if_pos hfull] at hbody ⊢
        rw [Action.run_bind_error _ hbody]
        exact ⟨rfl, rfl⟩
      · rw [if_neg hfull] at hbody ⊢
        rw [Action.run_bind_ok _ hbody]
        exact ⟨rfl, rfl⟩

/-- All that adding a font can do: nothing but to read descriptions, or to give
    a font the next reference. -/
theorem addFont_cases (font encoding : String) (d : Document) :
    (∃ e library, ((addFont font encoding).run d).result = .error e
        ∧ ((addFont font encoding).run d).state = { d with library })
      ∨ ∃ f library,
        ((CompositeFont.create font encoding).run d.library).result = .ok f
        ∧ d.body.issued < Body.highestNumber
        ∧ ((addFont font encoding).run d).result = .ok d.body.nextRef
        ∧ ((addFont font encoding).run d).state
          = { d with
            body := d.body.issue
            library
            fonts := d.fonts.insert d.body.nextRef f } := by
  obtain ⟨hresult, hstate⟩ := run_addFont font encoding d
  rw [hresult, hstate]
  cases ((CompositeFont.create font encoding).run d.library).result with
  | error e => exact Or.inl ⟨e, _, rfl, rfl⟩
  | ok f =>
      rw [accept]
      by_cases hfull : Body.highestNumber ≤ d.body.issued
      · rw [if_pos hfull]
        exact Or.inl ⟨_, _, rfl, rfl⟩
      · rw [if_neg hfull]
        exact Or.inr ⟨f, _, rfl, Nat.lt_of_not_le hfull, rfl, rfl⟩

/-! ## Fonts -/

/-- A font that is added stands under its own reference only. -/
theorem font?_insert (r s : Ref) (f : CompositeFont) (body : Body)
    (library : FontLibrary) :
    ({ d with body, library, fonts := d.fonts.insert r f } : Document).font? s
      = if s = r then some f else d.font? s := by
  rw [font?, Std.ExtTreeMap.getElem?_insert]
  by_cases h : s = r
  · rw [h, if_pos Std.ReflCmp.compare_self, if_pos rfl]
  · rw [if_neg h, if_neg fun e => h (Std.LawfulEqCmp.eq_of_compare e).symm]
    rfl

/-- A text is noted by the font under its reference, and by no other one. -/
theorem font?_useText (r s : Ref) (text : String) :
    (d.useText r text).font? s
      = if s = r then (d.font? s).map (·.use text) else d.font? s := by
  rw [font?, useText, Std.ExtTreeMap.getElem?_modify]
  by_cases h : s = r
  · rw [h, if_pos Std.ReflCmp.compare_self, if_pos rfl]
    rfl
  · rw [if_neg h, if_neg fun e => h (Std.LawfulEqCmp.eq_of_compare e).symm]
    rfl

/-- A document with nothing in it. -/
structure IsFresh (d : Document) : Prop where
  body : d.body = .empty
  fonts : d.fonts = .empty

/-- A document whose fonts can be stored: each of them has a reference that was
    handed out and that holds nothing. -/
structure Prepared (d : Document) : Prop where
  sound : d.body.Sound
  reserved : ∀ r f, d.font? r = some f → d.body.hasIssued r = true
  unfilled : ∀ r f, d.font? r = some f → d.body.items[r]? = none

/-- A fresh document is prepared to be written. -/
theorem IsFresh.prepared (h : d.IsFresh) : d.Prepared := by
  have hnone : ∀ r, d.font? r = none := by
    intro r
    rw [font?, h.fonts]
    exact Std.ExtTreeMap.getElem?_empty
  refine ⟨?_, ?_, ?_⟩
  · rw [h.body]
    exact Body.Reachable.empty.sound
  · intro r f hf
    rw [hnone r] at hf
    cases hf
  · intro r f hf
    rw [hnone r] at hf
    cases hf

/-- **ONE OPERATION** that spares the references of fonts keeps a document
    prepared. -/
theorem prepared_after {o : Operation} (h : d.Prepared)
    (ho : o.SparesFonts d) : (o.after d).Prepared := by
  cases o with
  | addFont font encoding =>
      rw [Operation.after]
      rcases addFont_cases font encoding d with ⟨e, library, -, hstate⟩
        | ⟨f, library, -, hlt, -, hstate⟩
      · rw [hstate]
        exact ⟨h.sound, h.reserved, h.unfilled⟩
      · rw [hstate]
        refine ⟨Body.sound_issue h.sound hlt, ?_, ?_⟩
        · intro r g hg
          rw [font?_insert] at hg
          by_cases hr : r = d.body.nextRef
          · rw [hr]
            exact Body.hasIssued_nextRef hlt
          · rw [if_neg hr] at hg
            exact Body.hasIssued_issue (h.reserved r g hg)
        · intro r g hg
          rw [font?_insert] at hg
          by_cases hr : r = d.body.nextRef
          · rw [hr]
            exact h.sound.getElem?_nextRef
          · rw [if_neg hr] at hg
            exact h.unfilled r g hg
  | useText r text =>
      have hfont : ∀ s g, (d.useText r text).font? s = some g →
          ∃ f, d.font? s = some f := by
        intro s g hg
        rw [font?_useText] at hg
        split at hg
        · obtain ⟨f, hf, -⟩ := Option.map_eq_some_iff.mp hg
          exact ⟨f, hf⟩
        · exact ⟨g, hg⟩
      refine ⟨h.sound, ?_, ?_⟩
      · intro s g hg
        obtain ⟨f, hf⟩ := hfont s g hg
        exact h.reserved s f hf
      · intro s g hg
        obtain ⟨f, hf⟩ := hfont s g hg
        exact h.unfilled s f hf
  | onBody o =>
      refine ⟨Body.sound_after o h.sound, ?_, ?_⟩
      · intro r f hf
        exact Body.hasIssued_of_issued_le (h.reserved r f hf)
          (Body.issued_le_after o d.body)
      · intro r f hf
        refine Body.getElem?_after_of_reserved h.sound (h.reserved r f hf)
          (h.unfilled r f hf) ?_
        rintro item rfl
        have hnone : d.font? r = none := ho
        cases hnone.symm.trans hf

/-- **ALL OPERATIONS** keep it prepared. -/
theorem prepared_afterAll {operations : List Operation} (h : d.Prepared)
    (ho : SparesFonts d operations) : (d.afterAll operations).Prepared := by
  induction operations generalizing d with
  | nil => exact h
  | cons o operations ih => exact ih (prepared_after h ho.1) ho.2

/-! ## Texts -/

/-- The text that an operation uses a font for. -/
def Operation.textsOf (r : Ref) : Operation → List String
  | useText s text => if s = r then [text] else []
  | _ => []

/-- The texts of a font are those of the calls for its reference. -/
theorem mem_textsOf {operations : List Operation} {r : Ref} {text : String} :
    text ∈ operations.flatMap (·.textsOf r)
      ↔ .useText r text ∈ operations := by
  rw [List.mem_flatMap]
  constructor
  · rintro ⟨o, ho, htext⟩
    cases o with
    | useText s text' =>
        rw [Operation.textsOf] at htext
        by_cases hs : s = r
        · rw [if_pos hs, List.mem_singleton] at htext
          rw [htext, ← hs]
          exact ho
        · rw [if_neg hs] at htext
          cases htext
    | addFont font encoding => cases htext
    | onBody o => cases htext
  · intro h
    refine ⟨_, h, ?_⟩
    rw [Operation.textsOf, if_pos rfl]
    exact List.mem_singleton_self _

/-- A font changes by the text that it is used for, and by nothing else. -/
theorem font?_after {r : Ref} {f : CompositeFont} (o : Operation)
    (hs : d.body.Sound) (hr : d.body.hasIssued r = true)
    (hf : d.font? r = some f) :
    (o.after d).font? r = some (f.useAll (o.textsOf r))
      ∧ (o.after d).body.Sound ∧ (o.after d).body.hasIssued r = true := by
  cases o with
  | addFont font encoding =>
      rw [Operation.after]
      rcases addFont_cases font encoding d with ⟨e, library, -, hstate⟩
        | ⟨g, library, -, hlt, -, hstate⟩
      · rw [hstate]
        exact ⟨hf, hs, hr⟩
      · have hne : r ≠ d.body.nextRef := by
          rintro rfl
          exact Body.not_hasIssued_nextRef hs.bounded hr
        rw [hstate, font?_insert, if_neg hne]
        exact ⟨hf, Body.sound_issue hs hlt, Body.hasIssued_issue hr⟩
  | useText s text =>
      refine ⟨?_, hs, hr⟩
      rw [Operation.after, font?_useText, Operation.textsOf]
      by_cases he : r = s
      · rw [if_pos he, if_pos he.symm, hf]
        rfl
      · rw [if_neg he, if_neg fun h => he h.symm]
        exact hf
  | onBody o =>
      exact ⟨hf, Body.sound_after o hs,
        Body.hasIssued_of_issued_le hr (Body.issued_le_after o d.body)⟩

/-- A font that is there keeps its place and notes the texts of all later
    calls. -/
theorem font?_afterAll {r : Ref} {f : CompositeFont}
    (operations : List Operation) (hs : d.body.Sound)
    (hr : d.body.hasIssued r = true) (hf : d.font? r = some f) :
    (d.afterAll operations).font? r
      = some (f.useAll (operations.flatMap (·.textsOf r))) := by
  induction operations generalizing d f with
  | nil => exact hf
  | cons o operations ih =>
      obtain ⟨hfont, hsound, hissued⟩ := font?_after o hs hr hf
      rw [List.flatMap_cons, CompositeFont.useAll, List.foldl_append]
      exact ih hsound hissued hfont

/-- A font that was added and then used: it is the one that was created but for
    the characters, which are those of the texts that it was used for. -/
structure IsUsed (library : FontLibrary) (font encoding : String)
    (behind : List Operation) (r : Ref) (f : CompositeFont) : Prop where
  created : ((CompositeFont.create font encoding).run library).result
    = .ok { f with used := .empty }
  name : CompositeFont.nameAndStyle font = (f.name, f.style)
  encoding : f.encoding = encoding
  used : ∀ cid, cid ∈ f.used
    ↔ ∃ text, .useText r text ∈ behind ∧ cid ∈ f.cids text

/-- **A FONT IS FOUND UNDER THE REFERENCE THAT ADDING IT GAVE**, whatever is
    called behind, with all texts that it is used for and no others.  No font
    had this reference before. -/
theorem isUsed_of_addFont {font encoding : String} {r : Ref}
    (h : d.Prepared) (hadd : ((addFont font encoding).run d).result = .ok r)
    (behind : List Operation) :
    d.font? r = none ∧ ∃ f,
      (((addFont font encoding).run d).state.afterAll behind).font? r = some f
        ∧ IsUsed d.library font encoding behind r f := by
  rcases addFont_cases font encoding d with ⟨e, library, he, -⟩
    | ⟨f, library, hcreate, hlt, hok, hstate⟩
  · rw [he] at hadd
    cases hadd
  · have hr : d.body.nextRef = r := Except.ok.inj (hok.symm.trans hadd)
    have hnew := CompositeFont.isNew_of_create hcreate
    refine ⟨?_, f.useAll (behind.flatMap (·.textsOf r)), ?_, ?_⟩
    · cases hfont : d.font? r with
      | none => rfl
      | some g =>
          have hissued := h.reserved r g hfont
          rw [← hr] at hissued
          exact absurd hissued (Body.not_hasIssued_nextRef h.sound.bounded)
    · rw [hstate, ← hr]
      refine font?_afterAll behind (Body.sound_issue h.sound hlt)
        (Body.hasIssued_nextRef hlt) ?_
      rw [font?_insert, if_pos rfl]
    · rw [f.useAll_eq]
      refine ⟨?_, hnew.name, hnew.encoding, ?_⟩
      · rw [← hnew.used]
        exact hcreate
      · intro cid
        refine CompositeFont.mem_used_useAll.trans ?_
        rw [hnew.used]
        simp only [mem_textsOf]
        exact or_iff_right Std.ExtTreeSet.not_mem_empty

end Document

end Pdf
