import Pdf.Proofs.Body.Sharing

/-! # Identities — which references a body gives, and what it keeps

    A reference is given by reserving, adding and sharing.  All that one call
    can do is said once, together with what it answers (`Performs`); a call
    that fails does nothing at all.  From that it is read off, call by call,
    that the references given so far are numbered from 1 on without a gap, that
    items stand under such references only, and that sharing gives one
    reference to one fingerprint (`Records`).

    An item is put under a reserved reference once.  Two such calls on
    different references do not see each other, so they can change places. -/

namespace Pdf

/-- The reference with a number, of the generation that numbers start with. -/
def Ref.ofNumber (number : Nat) : Ref := ⟨number.toUInt32, 0⟩

namespace Body

variable {b b' : Body}

/-! ## Calls -/

/-- What an operation answers: the reference that it gives, if it gives one, or
    an error. -/
def Operation.answer (b : Body) : Operation → Except Error (Option Ref)
  | reserve => (Body.reserve.run b).result.map some
  | add item => ((Body.add item).run b).result.map some
  | fill r item => ((Body.fill r item).run b).result.map fun _ => none
  | share item => ((Body.share item).run b).result.map some
  | edit r f => ((Body.edit r f).run b).result.map fun _ => none

/-- An operation together with its answer. -/
structure Call where
  operation : Operation
  answer : Except Error (Option Ref)

/-- The reference that a call gave. -/
def Call.given : Call → Option Ref
  | ⟨_, .ok r⟩ => r
  | ⟨_, .error _⟩ => none

/-- The calls that some operations amount to, in their order. -/
def calls : Body → List Operation → List Call
  | _, [] => []
  | b, o :: operations => ⟨o, o.answer b⟩ :: calls (o.after b) operations

/-- The references that some calls gave, each of them where it was given for
    the first time. -/
def issuedBy (past : List Call) : List Ref :=
  (past.filterMap Call.given).eraseDups

/-- All that a call can do to a body, with its answer. -/
inductive Performs (b : Body) :
    Operation → Except Error (Option Ref) → Body → Prop where
  | failed {o : Operation} {e : Error} : Performs b o (.error e) b
  | reserved : b.issued < highestNumber →
      Performs b .reserve (.ok (some b.nextRef)) b.issue
  | added {item : Item} : b.issued < highestNumber →
      Performs b (.add item) (.ok (some b.nextRef))
        (b.issue.store b.nextRef item)
  | filled {r : Ref} {item : Item} : b.hasIssued r = true →
      b.items[r]? = none → Performs b (.fill r item) (.ok none) (b.store r item)
  | recalled {r : Ref} {item : Item} : b.known[item.fingerprint]? = some r →
      Performs b (.share item) (.ok (some r)) b
  | shared {item : Item} : b.known[item.fingerprint]? = none →
      b.issued < highestNumber →
      Performs b (.share item) (.ok (some b.nextRef))
        { b.issue.store b.nextRef item with
          known := b.known.insert item.fingerprint b.nextRef }
  | edited {r : Ref} {item : Item} {f : Item → Item} :
      b.items[r]? = some item →
      Performs b (.edit r f) (.ok none) (b.store r (f item))

/-- Each operation is one of the cases of what an operation does. -/
theorem performs (o : Operation) (b : Body) :
    Performs b o (o.answer b) (o.after b) := by
  cases o with
  | reserve =>
      rw [Operation.answer, Operation.after, run_reserve]
      by_cases h : highestNumber ≤ b.issued
      · rw [if_pos h]
        exact .failed
      · rw [if_neg h]
        exact .reserved (Nat.lt_of_not_le h)
  | add item =>
      rw [Operation.answer, Operation.after, run_add]
      by_cases h : highestNumber ≤ b.issued
      · rw [if_pos h]
        exact .failed
      · rw [if_neg h]
        exact .added (Nat.lt_of_not_le h)
  | fill r item =>
      rw [Operation.answer, Operation.after, run_fill]
      cases hissued : b.hasIssued r with
      | false => exact .failed
      | true =>
          rw [if_neg (by decide)]
          by_cases hholds : b.holds r = true
          · rw [if_pos hholds]
            exact .failed
          · rw [if_neg hholds]
            rw [holds_eq, Option.not_isSome_iff_eq_none] at hholds
            exact .filled hissued hholds
  | share item =>
      rw [Operation.answer, Operation.after, run_share]
      cases hknown : b.known[item.fingerprint]? with
      | some r => exact .recalled hknown
      | none =>
          by_cases h : highestNumber ≤ b.issued
          · simp only [if_pos h]
            exact .failed
          · simp only [if_neg h]
            exact .shared hknown (Nat.lt_of_not_le h)
  | edit r f =>
      rw [Operation.answer, Operation.after, run_edit]
      cases hr : b.items[r]? with
      | none => exact .failed
      | some item => exact .edited hr

/-! ## Numbers -/

theorem nextRef_eq (b : Body) : b.nextRef = .ofNumber (b.issued + 1) := rfl

/-- A number of a file fits into a reference. -/
theorem toNat_ofNumber {n : Nat} (h : n ≤ highestNumber) :
    (Ref.ofNumber n).number.toNat = n := by
  rw [highestNumber] at h
  have hlt : n < 2 ^ 32 := by omega
  exact Nat.mod_eq_of_lt hlt

/-- A reference of generation 0 is told by its number. -/
theorem ofNumber_toNat {r : Ref} (h : r.generation = 0) :
    Ref.ofNumber r.number.toNat = r := by
  obtain ⟨number, generation⟩ := r
  have hgeneration : generation = 0 := h
  rw [Ref.ofNumber, hgeneration]
  exact congrArg (Ref.mk · 0) UInt32.ofNat_toNat

/-- The references that were handed out are those of the numbers up to the last
    one. -/
theorem hasIssued_iff_mem {r : Ref} (h : b.issued ≤ highestNumber) :
    b.hasIssued r = true
      ↔ r ∈ (List.range' 1 b.issued).map Ref.ofNumber := by
  rw [hasIssued_iff, List.mem_map]
  constructor
  · rintro ⟨hne, hle, hgeneration⟩
    refine ⟨r.number.toNat, ?_, ofNumber_toNat hgeneration⟩
    have hpos : r.number.toNat ≠ 0 := fun he => hne (UInt32.toNat_inj.mp he)
    rw [List.mem_range'_1]
    omega
  · rintro ⟨n, hn, rfl⟩
    rw [List.mem_range'_1] at hn
    have hnum : (Ref.ofNumber n).number.toNat = n := toNat_ofNumber (by omega)
    refine ⟨?_, by omega, rfl⟩
    intro hzero
    rw [hzero] at hnum
    have hpos : 0 ≠ n := by omega
    exact hpos hnum

/-- The next reference was never handed out before. -/
theorem not_hasIssued_nextRef (h : b.issued ≤ highestNumber) :
    ¬ b.hasIssued b.nextRef = true := by
  intro hissued
  have hle := ((hasIssued_iff b _).mp hissued).2.1
  rw [toNat_nextRef h] at hle
  omega

/-! ## What calls leave behind -/

/-- What some calls and the body that they lead to say of each other. -/
structure Records (past : List Call) (b : Body) : Prop where
  sound : b.Sound
  /-- The references are numbered in the order in which they were given. -/
  given : issuedBy past = (List.range' 1 b.issued).map Ref.ofNumber
  /-- What is known is what was shared. -/
  known : ∀ (fingerprint : Digest) (r : Ref), b.known[fingerprint]? = some r
    ↔ ∃ item, ⟨.share item, .ok (some r)⟩ ∈ past
      ∧ item.fingerprint = fingerprint
  /-- A known reference was handed out, and for one fingerprint only. -/
  owned : ∀ (fingerprint : Digest) (r : Ref),
    b.known[fingerprint]? = some r → b.hasIssued r = true
      ∧ ∀ fingerprint', b.known[fingerprint']? = some r →
        fingerprint' = fingerprint

/-- The empty history is the one of the empty body. -/
theorem records_empty : Records [] .empty := by
  have hknown : ∀ fingerprint : Digest,
      Body.empty.known[fingerprint]? = none :=
    fun _ => Std.ExtTreeMap.getElem?_empty
  refine ⟨Reachable.empty.sound, rfl, ?_, ?_⟩
  · intro fingerprint r
    rw [hknown]
    constructor
    · intro h
      cases h
    · rintro ⟨item, hmem, -⟩
      cases hmem
  · intro fingerprint r h
    rw [hknown] at h
    cases h

section

variable {past : List Call} {o : Operation} {answer : Except Error (Option Ref)}

/-- The references that a history hands out are those that the body knows as
    issued. -/
theorem Records.mem_issuedBy_iff {r : Ref} (h : Records past b) :
    r ∈ issuedBy past ↔ b.hasIssued r = true := by
  rw [h.given, hasIssued_iff_mem h.sound.bounded]

/-- A call that gives nothing leaves the given references alone. -/
theorem issuedBy_concat_of_none {c : Call} (h : c.given = none) :
    issuedBy (past ++ [c]) = issuedBy past := by
  rw [issuedBy, List.filterMap_append, List.filterMap_cons_none h,
    List.filterMap_nil, List.append_nil]
  rfl

/-- So does a call that gives what was given before. -/
theorem issuedBy_concat_of_mem {c : Call} {r : Ref} (h : c.given = some r)
    (hr : r ∈ issuedBy past) : issuedBy (past ++ [c]) = issuedBy past := by
  rw [issuedBy, List.mem_eraseDups] at hr
  rw [issuedBy, List.filterMap_append, List.filterMap_cons_some h,
    List.filterMap_nil, List.eraseDups_append]
  simp [List.removeAll, hr, issuedBy, -List.mem_filterMap]

/-- Any other reference is put behind those that were given before. -/
theorem issuedBy_concat_of_not_mem {c : Call} {r : Ref}
    (h : c.given = some r) (hr : r ∉ issuedBy past) :
    issuedBy (past ++ [c]) = issuedBy past ++ [r] := by
  rw [issuedBy, List.mem_eraseDups] at hr
  rw [issuedBy, List.filterMap_append, List.filterMap_cons_some h,
    List.filterMap_nil, List.eraseDups_append]
  simp [List.removeAll, hr, issuedBy, List.eraseDups_cons,
    -List.mem_filterMap]

/-- The next number continues the list. -/
theorem Records.given_next (h : Records past b)
    (hgiven : Call.given ⟨o, answer⟩ = some b.nextRef) :
    issuedBy (past ++ [⟨o, answer⟩])
      = (List.range' 1 (b.issued + 1)).map Ref.ofNumber := by
  have hnew : b.nextRef ∉ issuedBy past := by
    rw [h.mem_issuedBy_iff]
    exact not_hasIssued_nextRef h.sound.bounded
  rw [issuedBy_concat_of_not_mem hgiven hnew, h.given, List.range'_concat,
    List.map_append, List.map_singleton, nextRef_eq]
  congr 3
  omega

/-- A call that shares nothing takes no part in what is known. -/
theorem Records.known_concat (h : Records past b)
    (hshare : ∀ item r, (⟨o, answer⟩ : Call) ≠ ⟨.share item, .ok (some r)⟩)
    (fingerprint : Digest) (r : Ref) :
    b.known[fingerprint]? = some r
      ↔ ∃ item, ⟨.share item, .ok (some r)⟩ ∈ past ++ [⟨o, answer⟩]
        ∧ item.fingerprint = fingerprint := by
  rw [h.known]
  constructor
  · rintro ⟨item, hmem, hfingerprint⟩
    exact ⟨item, List.mem_append_left _ hmem, hfingerprint⟩
  · rintro ⟨item, hmem, hfingerprint⟩
    rcases List.mem_append.mp hmem with hpast | hlast
    · exact ⟨item, hpast, hfingerprint⟩
    · exact absurd (List.mem_singleton.mp hlast).symm (hshare item r)

/-- A reference stays issued while the counter grows. -/
theorem hasIssued_of_issued_le {r : Ref} (h : b.hasIssued r = true)
    (hle : b.issued ≤ b'.issued) : b'.hasIssued r = true := by
  obtain ⟨hne, hnumber, hgeneration⟩ := (hasIssued_iff b r).mp h
  exact (hasIssued_iff b' r).mpr
    ⟨hne, Nat.le_trans hnumber hle, hgeneration⟩

/-- What a call that shares nothing has to keep. -/
theorem Records.concat (h : Records past b) (hs : b'.Sound)
    (hgiven : Call.given ⟨o, answer⟩ = none ∧ b'.issued = b.issued
      ∨ Call.given ⟨o, answer⟩ = some b.nextRef
        ∧ b'.issued = b.issued + 1)
    (hknown : b'.known = b.known)
    (hshare : ∀ item r, (⟨o, answer⟩ : Call) ≠ ⟨.share item, .ok (some r)⟩) :
    Records (past ++ [⟨o, answer⟩]) b' := by
  refine ⟨hs, ?_, ?_, ?_⟩
  · rcases hgiven with ⟨hnone, hissued⟩ | ⟨hnext, hissued⟩
    · rw [issuedBy_concat_of_none hnone, hissued, h.given]
    · rw [h.given_next hnext, hissued]
  · rw [hknown]
    exact h.known_concat hshare
  · rw [hknown]
    intro fingerprint r hr
    obtain ⟨hissued, hone⟩ := h.owned fingerprint r hr
    refine ⟨hasIssued_of_issued_le hissued ?_, hone⟩
    omega

/-- Sharing a known item is recorded and changes nothing. -/
theorem Records.recalled {r : Ref} {item : Item} (h : Records past b)
    (hr : b.known[item.fingerprint]? = some r) :
    Records (past ++ [⟨.share item, .ok (some r)⟩]) b := by
  have hmem : r ∈ issuedBy past :=
    h.mem_issuedBy_iff.mpr (h.owned _ r hr).1
  refine ⟨h.sound, ?_, ?_, h.owned⟩
  · exact (issuedBy_concat_of_mem rfl hmem).trans h.given
  · intro fingerprint s
    constructor
    · intro hs
      obtain ⟨shared, hpast, hfingerprint⟩ := (h.known fingerprint s).mp hs
      exact ⟨shared, List.mem_append_left _ hpast, hfingerprint⟩
    · rintro ⟨shared, hshared, rfl⟩
      rcases List.mem_append.mp hshared with hpast | hlast
      · exact (h.known _ s).mpr ⟨shared, hpast, rfl⟩
      · obtain ⟨hitem, hanswer⟩ := Call.mk.inj (List.mem_singleton.mp hlast)
        rw [Operation.share.inj hitem,
          Option.some.inj (Except.ok.inj hanswer)]
        exact hr

/-- Sharing an unknown item records a new reference and its fingerprint. -/
theorem Records.shared {item : Item} (h : Records past b)
    (hnone : b.known[item.fingerprint]? = none)
    (hlt : b.issued < highestNumber) :
    Records (past ++ [⟨.share item, .ok (some b.nextRef)⟩])
      { b.issue.store b.nextRef item with
        known := b.known.insert item.fingerprint b.nextRef } := by
  have hstore := sound_store item (sound_issue h.sound hlt)
    (hasIssued_nextRef hlt)
  -- the reference is new, so no fingerprint had it before
  have hnew : ∀ fingerprint : Digest,
      b.known[fingerprint]? ≠ some b.nextRef := fun fingerprint hr =>
    not_hasIssued_nextRef h.sound.bounded (h.owned fingerprint _ hr).1
  have hinsert : ∀ (fingerprint : Digest) (r : Ref),
      (b.known.insert item.fingerprint b.nextRef)[fingerprint]? = some r
        ↔ (fingerprint = item.fingerprint ∧ r = b.nextRef)
          ∨ b.known[fingerprint]? = some r := by
    intro fingerprint r
    rw [Std.ExtTreeMap.getElem?_insert]
    by_cases he : fingerprint = item.fingerprint
    · rw [he, if_pos Std.ReflCmp.compare_self, hnone]
      simp [eq_comm]
    · rw [if_neg fun hcmp => he (Std.LawfulEqCmp.eq_of_compare hcmp).symm]
      simp [he]
  refine ⟨⟨hstore.bounded, hstore.issued⟩, h.given_next rfl, ?_, ?_⟩
  · intro fingerprint r
    refine (hinsert fingerprint r).trans ?_
    rw [h.known]
    constructor
    · rintro (⟨rfl, rfl⟩ | ⟨shared, hpast, hfingerprint⟩)
      · exact ⟨item, by simp, rfl⟩
      · exact ⟨shared, List.mem_append_left _ hpast, hfingerprint⟩
    · rintro ⟨shared, hshared, rfl⟩
      rcases List.mem_append.mp hshared with hpast | hlast
      · exact Or.inr ⟨shared, hpast, rfl⟩
      · obtain ⟨hitem, hanswer⟩ := Call.mk.inj (List.mem_singleton.mp hlast)
        rw [Operation.share.inj hitem]
        exact Or.inl ⟨rfl, Option.some.inj (Except.ok.inj hanswer)⟩
  · intro fingerprint r hr
    rcases (hinsert fingerprint r).mp hr with ⟨rfl, rfl⟩ | hold
    · refine ⟨hasIssued_nextRef hlt, ?_⟩
      intro fingerprint' hr'
      rcases (hinsert fingerprint' _).mp hr' with ⟨he, -⟩ | hold'
      · exact he
      · exact absurd hold' (hnew fingerprint')
    · obtain ⟨hissued, hone⟩ := h.owned fingerprint r hold
      refine ⟨hasIssued_issue hissued, ?_⟩
      intro fingerprint' hr'
      rcases (hinsert fingerprint' r).mp hr' with ⟨-, rfl⟩ | hold'
      · exact absurd hold (hnew fingerprint)
      · exact hone fingerprint' hold'

end

/-- **ONE CALL** is recorded in the body that it leaves. -/
theorem records_after {past : List Call} (o : Operation)
    (h : Records past b) :
    Records (past ++ [⟨o, o.answer b⟩]) (o.after b) := by
  have hsound := sound_after o h.sound
  have hperforms := performs o b
  generalize o.answer b = answer at hperforms ⊢
  generalize o.after b = b' at hperforms hsound ⊢
  cases hperforms with
  | failed =>
      refine h.concat hsound (Or.inl ⟨rfl, rfl⟩) rfl ?_
      rintro item r ⟨⟩
  | reserved _ =>
      refine h.concat hsound (Or.inr ⟨rfl, rfl⟩) rfl ?_
      rintro item r ⟨⟩
  | added _ =>
      refine h.concat hsound (Or.inr ⟨rfl, rfl⟩) rfl ?_
      rintro item r ⟨⟩
  | filled _ _ =>
      refine h.concat hsound (Or.inl ⟨rfl, rfl⟩) rfl ?_
      rintro item r ⟨⟩
  | recalled hr => exact h.recalled hr
  | shared hnone hlt => exact h.shared hnone hlt
  | edited _ =>
      refine h.concat hsound (Or.inl ⟨rfl, rfl⟩) rfl ?_
      rintro item r ⟨⟩

/-- **ALL CALLS** are recorded in the body that they leave. -/
theorem records_afterAll {past : List Call} (operations : List Operation)
    (h : Records past b) :
    Records (past ++ calls b operations) (b.afterAll operations) := by
  induction operations generalizing past b with
  | nil =>
      rw [calls, List.append_nil]
      exact h
  | cons o operations ih =>
      have hrest := ih (records_after o h)
      rw [List.append_assoc] at hrest
      exact hrest

/-! ## Operations, one by one -/

/-- An item is put under a reference that was handed out and has none, and
    under no other. -/
theorem answer_fill_eq_ok_iff {r : Ref} {item : Item} :
    (Operation.fill r item).answer b = .ok none
      ↔ b.hasIssued r = true ∧ b.items[r]? = none := by
  rw [Operation.answer, run_fill]
  cases b.hasIssued r with
  | false => simp [Except.map]
  | true =>
      rw [if_neg (by decide), holds_eq]
      cases b.items[r]? with
      | none => simp [Except.map]
      | some _ => simp [Except.map]

/-- Stored items stay as they are, unless they are edited. -/
theorem getElem?_after {o : Operation} {r : Ref} {item : Item}
    (hs : b.Sound) (h : b.items[r]? = some item)
    (ho : ∀ f, o ≠ .edit r f) : (o.after b).items[r]? = some item := by
  have hissued : b.hasIssued r = true := hs.issued r (by rw [h]; rfl)
  have hnext : r ≠ b.nextRef := by
    rintro rfl
    exact not_hasIssued_nextRef hs.bounded hissued
  have hperforms := performs o b
  generalize o.answer b = answer at hperforms
  generalize o.after b = b' at hperforms ⊢
  cases hperforms with
  | failed => exact h
  | reserved _ => exact h
  | added _ =>
      rw [getElem?_store, if_neg hnext]
      exact h
  | @filled r' item' _ hnone =>
      have hne : r ≠ r' := by
        rintro rfl
        rw [hnone] at h
        cases h
      rw [getElem?_store, if_neg hne]
      exact h
  | recalled _ => exact h
  | @shared item' _ _ =>
      show (b.issue.store b.nextRef item').items[r]? = _
      rw [getElem?_store, if_neg hnext]
      exact h
  | @edited r' _ f _ =>
      have hne : r ≠ r' := by
        rintro rfl
        exact ho f rfl
      rw [getElem?_store, if_neg hne]
      exact h

/-- No operation takes a number back. -/
theorem issued_le_after (o : Operation) (b : Body) :
    b.issued ≤ (o.after b).issued := by
  have hperforms := performs o b
  generalize o.answer b = answer at hperforms
  generalize o.after b = b' at hperforms ⊢
  cases hperforms with
  | failed | filled | recalled | edited => exact Nat.le_refl _
  | reserved | added | shared => exact Nat.le_succ _

/-- A reserved reference holds nothing until it is filled. -/
theorem getElem?_after_of_reserved {o : Operation} {r : Ref} (hs : b.Sound)
    (hr : b.hasIssued r = true) (hnone : b.items[r]? = none)
    (ho : ∀ item, o ≠ .fill r item) : (o.after b).items[r]? = none := by
  have hnext : r ≠ b.nextRef := by
    rintro rfl
    exact not_hasIssued_nextRef hs.bounded hr
  have hperforms := performs o b
  generalize o.answer b = answer at hperforms
  generalize o.after b = b' at hperforms ⊢
  cases hperforms with
  | failed | reserved | recalled => exact hnone
  | added _ =>
      rw [getElem?_store, if_neg hnext]
      exact hnone
  | @filled s item _ _ =>
      have hne : r ≠ s := by
        rintro rfl
        exact ho item rfl
      rw [getElem?_store, if_neg hne]
      exact hnone
  | @shared item _ _ =>
      show (b.issue.store b.nextRef item).items[r]? = _
      rw [getElem?_store, if_neg hnext]
      exact hnone
  | @edited s item f hitem =>
      have hne : r ≠ s := by
        rintro rfl
        rw [hnone] at hitem
        cases hitem
      rw [getElem?_store, if_neg hne]
      exact hnone

/-- An operation that fails changes nothing. -/
theorem after_eq_of_answer_eq_error {o : Operation} {e : Error}
    (h : o.answer b = .error e) : o.after b = b := by
  have hperforms := performs o b
  rw [h] at hperforms
  generalize o.after b = b' at hperforms ⊢
  cases hperforms with
  | failed => rfl

/-! ## Reserved references -/

/-- Items under two references are stored in either order. -/
theorem store_comm {r s : Ref} (x y : Item) (h : r ≠ s) :
    (b.store r x).store s y = (b.store s y).store r x := by
  have hitems : ((b.store r x).store s y).items
      = ((b.store s y).store r x).items := by
    refine Std.ExtTreeMap.ext_getElem? fun t => ?_
    simp only [getElem?_store]
    by_cases hr : t = r
    · rw [hr, if_neg h, if_pos rfl, if_pos rfl]
    · rw [if_neg hr, if_neg hr]
  exact congrArg (Body.mk · b.known b.issued) hitems

/-- Filling stores the item if the reference is issued and empty, and does
    nothing if not. -/
theorem after_fill (r : Ref) (item : Item) (b : Body) :
    (Operation.fill r item).after b
      = if b.hasIssued r = true ∧ b.holds r = false
        then b.store r item else b := by
  rw [Operation.after, run_fill]
  cases b.hasIssued r with
  | false => rfl
  | true =>
      cases b.holds r with
      | false => rfl
      | true => rfl

/-- Filling hands out no reference. -/
theorem hasIssued_after_fill (r s : Ref) (item : Item) :
    ((Operation.fill r item).after b).hasIssued s = b.hasIssued s := by
  rw [after_fill]
  split
  · rfl
  · rfl

/-- Storing an item is not seen under another reference. -/
theorem holds_after_fill {r s : Ref} (item : Item) (h : s ≠ r) :
    ((Operation.fill r item).after b).holds s = b.holds s := by
  rw [after_fill]
  split
  · rw [holds_eq, getElem?_store, if_neg h, holds_eq]
  · rfl

/-- Filling one reference does not change the answer for another. -/
theorem answer_fill_after_fill {r s : Ref} (x y : Item) (h : s ≠ r) :
    (Operation.fill s y).answer ((Operation.fill r x).after b)
      = (Operation.fill s y).answer b := by
  rw [Operation.answer, Operation.answer, run_fill, run_fill,
    hasIssued_after_fill, holds_after_fill x h]
  split
  · rfl
  · split
    · rfl
    · rfl

/-- Two references may be filled in either order. -/
theorem after_fill_comm {r s : Ref} (x y : Item) (h : r ≠ s) :
    (Operation.fill s y).after ((Operation.fill r x).after b)
      = (Operation.fill r x).after ((Operation.fill s y).after b) := by
  rw [after_fill s, after_fill r x ((Operation.fill s y).after b),
    hasIssued_after_fill, hasIssued_after_fill, holds_after_fill x h.symm,
    holds_after_fill y h, after_fill, after_fill]
  by_cases hr : b.hasIssued r = true ∧ b.holds r = false
  · rw [if_pos hr, if_pos hr]
    split
    · exact store_comm x y h
    · rfl
  · rw [if_neg hr, if_neg hr]

/-! ## The discipline -/

/-- What holds of a body behind all calls that were made on it, whatever they
    were and whatever they answered. -/
structure Disciplined (past : List Call) (b : Body) : Prop where
  /-- The references are numbered from 1 on, in the order in which they were
      given for the first time, and within the bound of the format. -/
  numbered : ∃ n ≤ highestNumber,
    issuedBy past = (List.range' 1 n).map Ref.ofNumber
  /-- A reference is given again only to an item that is shared once more, as
      far as its fingerprint tells. -/
  again : ∀ (o : Operation) (r : Ref), o.answer b = .ok (some r) →
    (r ∈ issuedBy past ↔ ∃ item earlier s, o = .share item
      ∧ ⟨.share earlier, .ok (some s)⟩ ∈ past
      ∧ earlier.fingerprint = item.fingerprint)
  /-- Items stand under such references only. -/
  stored : ∀ r : Ref, b.items[r]? ≠ none → r ∈ issuedBy past
  /-- An item can be put under such a reference if there is none yet, and in no
      other case. -/
  filled : ∀ (r : Ref) (item : Item),
    (∃ answer, (Operation.fill r item).answer b = .ok answer)
      ↔ r ∈ issuedBy past ∧ r.generation = 0 ∧ b.items[r]? = none
  /-- So equal items share a reference, and items share one only if they are
      equal or if their fingerprints collide. -/
  shared : ∀ (x y : Item) (r s : Ref), ⟨.share x, .ok (some r)⟩ ∈ past →
    ⟨.share y, .ok (some s)⟩ ∈ past →
    (r = s ↔ x.fingerprint = y.fingerprint)
  /-- Nothing but an edit of it changes a stored item. -/
  kept : ∀ (o : Operation) (r : Ref) (item : Item),
    b.items[r]? = some item → (∀ f, o ≠ .edit r f) →
    (o.after b).items[r]? = some item
  /-- A call that fails changes nothing. -/
  unchanged : ∀ (o : Operation) (e : Error), o.answer b = .error e →
    o.after b = b
  /-- Items are put under different references in either order. -/
  exchanged : ∀ (r s : Ref) (x y : Item), r ≠ s →
    (Operation.fill s y).after ((Operation.fill r x).after b)
        = (Operation.fill r x).after ((Operation.fill s y).after b)
      ∧ (Operation.fill s y).answer ((Operation.fill r x).after b)
        = (Operation.fill s y).answer b
      ∧ (Operation.fill r x).answer ((Operation.fill s y).after b)
        = (Operation.fill r x).answer b

/-- What a call gives was given before exactly if it recalls a shared item. -/
theorem Records.mem_issuedBy_answer_iff {past : List Call} {o : Operation}
    {r : Ref} (h : Records past b) (ho : o.answer b = .ok (some r)) :
    r ∈ issuedBy past ↔ ∃ item earlier s, o = .share item
      ∧ ⟨.share earlier, .ok (some s)⟩ ∈ past
      ∧ earlier.fingerprint = item.fingerprint := by
  have hnew : ¬ b.nextRef ∈ issuedBy past := by
    rw [h.mem_issuedBy_iff]
    exact not_hasIssued_nextRef h.sound.bounded
  have hperforms := performs o b
  rw [ho] at hperforms
  generalize o.after b = b' at hperforms
  cases hperforms with
  | reserved _ =>
      refine iff_of_false hnew ?_
      rintro ⟨item, earlier, s, ⟨⟩, -⟩
  | added _ =>
      refine iff_of_false hnew ?_
      rintro ⟨item, earlier, s, ⟨⟩, -⟩
  | @recalled _ item hr =>
      obtain ⟨earlier, hmem, hfingerprint⟩ := (h.known _ r).mp hr
      exact iff_of_true (h.mem_issuedBy_iff.mpr (h.owned _ r hr).1)
        ⟨item, earlier, r, rfl, hmem, hfingerprint⟩
  | @shared item hnone _ =>
      refine iff_of_false hnew ?_
      rintro ⟨item', earlier, s, hitem, hmem, hfingerprint⟩
      have hknown := (h.known _ s).mpr ⟨earlier, hmem, hfingerprint⟩
      rw [← Operation.share.inj hitem, hnone] at hknown
      cases hknown

/-- **IDENTITIES ARE DISCIPLINED**: whatever operations are performed on an
    empty body, with whatever arguments, the references that it gives, the
    items under them and what is known of shared items belong together. -/
theorem disciplined_afterAll (operations : List Operation) :
    Disciplined (calls .empty operations)
      (Body.empty.afterAll operations) := by
  have h : Records (calls .empty operations)
      (Body.empty.afterAll operations) :=
    records_afterAll operations records_empty
  generalize calls .empty operations = past at h ⊢
  generalize Body.empty.afterAll operations = b at h ⊢
  refine ⟨⟨b.issued, h.sound.bounded, h.given⟩,
    fun o r ho => h.mem_issuedBy_answer_iff ho, ?_, ?_, ?_,
    fun o r item hr ho => getElem?_after h.sound hr ho,
    fun o e ho => after_eq_of_answer_eq_error ho,
    fun r s x y hrs => ⟨after_fill_comm x y hrs,
      answer_fill_after_fill x y hrs.symm, answer_fill_after_fill y x hrs⟩⟩
  · intro r hr
    exact h.mem_issuedBy_iff.mpr
      (h.sound.issued r (Option.isSome_iff_ne_none.mpr hr))
  · intro r item
    rw [h.mem_issuedBy_iff]
    constructor
    · rintro ⟨answer, hanswer⟩
      have hnone : answer = none := by
        have hperforms := performs (.fill r item) b
        rw [hanswer] at hperforms
        generalize (Operation.fill r item).after b = b' at hperforms
        cases hperforms with
        | filled _ _ => rfl
      rw [hnone] at hanswer
      obtain ⟨hissued, hfree⟩ := answer_fill_eq_ok_iff.mp hanswer
      exact ⟨hissued, ((hasIssued_iff b r).mp hissued).2.2, hfree⟩
    · rintro ⟨hissued, -, hfree⟩
      exact ⟨none, answer_fill_eq_ok_iff.mpr ⟨hissued, hfree⟩⟩
  · intro x y r s hx hy
    have hr := (h.known _ r).mpr ⟨x, hx, rfl⟩
    have hs := (h.known _ s).mpr ⟨y, hy, rfl⟩
    constructor
    · rintro rfl
      exact ((h.owned _ r hr).2 _ hs).symm
    · intro he
      rw [he, hs] at hr
      exact (Option.some.inj hr).symm

end Body

end Pdf
