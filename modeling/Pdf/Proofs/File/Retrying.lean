import Mathlib.Data.List.Count
import Pdf.Proofs.File.Dangling
import Pdf.Proofs.Filter.Chain

/-! # Retrying — refused streams are excepted one by one

    A compressor may refuse the data of any stream.  Without a cross-reference
    stream this is found out before the first byte, and the error names the
    refused stream with the lowest number (`Attempted`).  So the stream can be
    excepted from compression and the same writer be used again (`insist`).

    Each retry lowers the number of refused streams by one (`refusals`), and
    excepting a stream that is refused does not change what the body becomes
    when all of them are excepted (`spared`).  By induction on the retries the
    last attempt is a write of that body. -/

namespace Pdf

namespace Item

variable {request : Request} {item : Item}

/-- Whether an item is a stream whose policy has its data compressed. -/
def compresses (settings : Settings) : Item → Bool
  | value _ => false
  | stream s => s.policy.compresses settings

/-- Whether an item is a stream whose data is to be compressed and cannot
    be. -/
def isRefused (request : Request) : Item → Bool
  | value _ => false
  | stream s => s.policy.compresses request.settings
      && ! (request.compressor s.data).isOk

/-- The item, excepted from compression if its data is refused. -/
def spared (request : Request) (item : Item) : Item :=
  if item.isRefused request then item.withPolicy .uncompressed else item

/-- An item is refused exactly if it is a stream that is to be compressed and
    whose data the compressor refuses. -/
theorem isRefused_iff :
    item.isRefused request = true ↔ ∃ s message, item = .stream s
      ∧ s.policy.compresses request.settings = true
      ∧ request.compressor s.data = .error message := by
  cases item with
  | value object => simp [isRefused]
  | stream s =>
      cases hdata : request.compressor s.data with
      | ok packed => simp [isRefused, hdata, Except.isOk, Except.toBool]
      | error message => simp [isRefused, hdata, Except.isOk, Except.toBool]

/-- Only what is compressed is refused. -/
theorem compresses_of_isRefused (h : item.isRefused request = true) :
    item.compresses request.settings = true := by
  obtain ⟨s, message, rfl, hcompresses, -⟩ := isRefused_iff.mp h
  exact hcompresses

/-- Nothing is refused that is not compressed. -/
theorem isRefused_withPolicy :
    (item.withPolicy .uncompressed).isRefused request = false := by
  cases item with
  | value object => rfl
  | stream s => rfl

/-- An item that is not refused is spared by leaving it alone. -/
theorem spared_of_not_isRefused (h : item.isRefused request = false) :
    item.spared request = item := by
  rw [spared, h]
  rfl

/-- A refused item is spared whether it is excepted before or not. -/
theorem spared_withPolicy (h : item.isRefused request = true) :
    (item.withPolicy .uncompressed).spared request = item.spared request := by
  rw [spared_of_not_isRefused isRefused_withPolicy, spared, if_pos h]

/-- Sparing an item changes none of its references. -/
theorem refs_spared : (item.spared request).refs = item.refs := by
  rw [spared]
  split
  · cases item with
    | value object => rfl
    | stream s => rfl
  · rfl

end Item

namespace Body

variable {b : Body} {request : Request} {w : Writer}

/-! ## Refusals -/

/-- The compressor refuses the data of a stream that is to be compressed, and
    of none with a lower number. -/
structure RefusesFirst (b : Body) (request : Request) (r : Ref)
    (message : String) : Prop where
  refused : ∃ s, b.items[r]? = some (.stream s)
    ∧ s.policy.compresses request.settings = true
    ∧ request.compressor s.data = .error message
  first : ∀ (r' : Ref) item, b.items[r']? = some item →
    item.isRefused request = true → r.number ≤ r'.number

/-- Who is refused first is refused. -/
theorem RefusesFirst.exists_isRefused {r : Ref} {message : String}
    (h : b.RefusesFirst request r message) :
    ∃ item, b.items[r]? = some item ∧ item.isRefused request = true := by
  obtain ⟨s, hr, hcompresses, hrefused⟩ := h.refused
  exact ⟨_, hr, Item.isRefused_iff.mpr ⟨s, message, rfl, hcompresses, hrefused⟩⟩

/-- An object fails to be encoded exactly if it is refused, and the error names
    it. -/
theorem encodeObject_eq_error_iff {t : Trailer} {r : Ref} {item : Item}
    {e : Error} :
    encodeObject request t r item = .error e
      ↔ ∃ s message, item = .stream s
        ∧ s.policy.compresses request.settings = true
        ∧ request.compressor s.data = .error message
        ∧ e = .compressionFailed (some r) message := by
  -- sealing does not fail
  have hseal : encodeObject request t r item = .error e
      ↔ item.encode request.settings request.compressor r = .error e := by
    rw [encodeObject]
    cases item.encode request.settings request.compressor r with
    | error e' => rfl
    | ok content =>
        cases sealOf request.cipher t r with
        | none => simp
        | some hide => simp
  rw [hseal]
  cases item with
  | value object => simp [Item.encode]
  | stream s =>
      rw [Item.encode]
      cases hs : s.encode request.settings request.compressor with
      | ok encoded =>
          constructor
          · intro h
            cases h
          · rintro ⟨s', message, hitem, hcompresses, hrefused, -⟩
            rw [← Item.stream.inj hitem] at hcompresses hrefused
            rw [Stream.encode_eq_error_iff.mpr
              ⟨hcompresses, message, hrefused, rfl⟩] at hs
            cases hs
      | error e' =>
          obtain ⟨hcompresses, message, hrefused, rfl⟩ :=
            Stream.encode_eq_error_iff.mp hs
          constructor
          · intro h
            exact ⟨s, message, rfl, hcompresses, hrefused,
              (Except.error.inj h).symm⟩
          · rintro ⟨s', message', hitem, -, hrefused', rfl⟩
            rw [← Item.stream.inj hitem, hrefused] at hrefused'
            rw [Except.error.inj hrefused']
            rfl

/-- Encoding fails at the first item that is refused, and at no other one. -/
theorem encodeAll_find? (request : Request) (t : Trailer)
    (items : List (Ref × Item)) :
    (∃ contents, items.find? (·.2.isRefused request) = none
        ∧ encodeAll request t items = (contents, .ok ()))
      ∨ ∃ contents r s message,
        items.find? (·.2.isRefused request) = some (r, .stream s)
          ∧ s.policy.compresses request.settings = true
          ∧ request.compressor s.data = .error message
          ∧ encodeAll request t items
            = (contents, .error (.compressionFailed (some r) message)) := by
  induction items with
  | nil => exact Or.inl ⟨[], rfl, rfl⟩
  | cons i items ih =>
      obtain ⟨r, item⟩ := i
      rw [encodeAll]
      cases hi : encodeObject request t r item with
      | error e =>
          obtain ⟨s, message, rfl, hcompresses, hrefused, rfl⟩ :=
            encodeObject_eq_error_iff.mp hi
          have hitem := Item.isRefused_iff.mpr
            ⟨s, message, rfl, hcompresses, hrefused⟩
          exact Or.inr ⟨[], r, s, message, List.find?_cons_of_pos hitem,
            hcompresses, hrefused, rfl⟩
      | ok content =>
          have hitem : ¬ item.isRefused request = true := by
            intro hrefused
            obtain ⟨s, message, rfl, hcompresses, hdata⟩ :=
              Item.isRefused_iff.mp hrefused
            rw [encodeObject_eq_error_iff.mpr
              ⟨s, message, rfl, hcompresses, hdata, rfl⟩] at hi
            cases hi
          have hfind : ((r, item) :: items).find? (·.2.isRefused request)
              = items.find? (·.2.isRefused request) :=
            List.find?_cons_of_neg hitem
          rw [hfind]
          rcases ih with ⟨contents, hnone, he⟩
            | ⟨contents, r', s, message, hsome, hcompresses, hrefused, he⟩
          · refine Or.inl ⟨(r, content) :: contents, hnone, ?_⟩
            simp only [he]
          · refine Or.inr ⟨(r, content) :: contents, r', s, message, hsome,
              hcompresses, hrefused, ?_⟩
            simp only [he]

/-- The items are searched by ascending numbers. -/
theorem refusesFirst_of_find? {r : Ref} {s : Stream} {message : String}
    (hb : b.Sound)
    (h : b.items.toList.find? (·.2.isRefused request) = some (r, .stream s))
    (hcompresses : s.policy.compresses request.settings = true)
    (hrefused : request.compressor s.data = .error message) :
    b.RefusesFirst request r message := by
  have hitem : b.items[r]? = some (.stream s) :=
    Std.ExtTreeMap.mem_toList_iff_getElem?_eq_some.mp
      (List.mem_of_find?_eq_some h)
  refine ⟨⟨s, hitem, hcompresses, hrefused⟩, ?_⟩
  intro r' item' hitem' hrefused'
  obtain ⟨-, front, back, hlist, hfront⟩ := List.find?_eq_some_iff_append.mp h
  have hascending := hb.ascending_keys
  rw [← Std.ExtTreeMap.map_fst_toList_eq_keys, hlist, List.pairwise_map]
    at hascending
  obtain ⟨-, hbehind, -⟩ := List.pairwise_append.mp hascending
  have hmem : (r', item') ∈ front ++ (r, .stream s) :: back := by
    rw [← hlist]
    exact Std.ExtTreeMap.mem_toList_iff_getElem?_eq_some.mpr hitem'
  rcases List.mem_append.mp hmem with hf | hrest
  · -- nothing in front is refused
    have hnot := hfront _ hf
    rw [hrefused'] at hnot
    cases hnot
  · rcases List.mem_cons.mp hrest with he | hback
    · rw [(Prod.mk.inj he).1]
      exact UInt32.le_refl _
    · exact UInt32.le_of_lt ((List.pairwise_cons.mp hbehind).1 _ hback)

/-! ## Attempts -/

/-- All that an attempt to write a body can come to, as far as refusals go. -/
inductive Attempted (b : Body) (request : Request) (w : Writer) :
    Outcome Writer Unit → Prop where
  /-- The body cannot be written, whatever the compressor does. -/
  | stopped {e : Error} : b.obstacle request = some e →
      Attempted b request w ⟨.error e, w, []⟩
  /-- A stream was refused, and nothing was written. -/
  | refused {r : Ref} {message : String} {events : List Event} :
      b.RefusesFirst request r message →
      Attempted b request w
        ⟨.error (.compressionFailed (some r) message), w, events⟩
  /-- No stream was refused. -/
  | passed {o : Outcome Writer Unit} :
      (∀ (r : Ref) item, b.items[r]? = some item →
        item.isRefused request = false) →
      (∀ object message,
        o.result ≠ .error (.compressionFailed object message)) →
      Attempted b request w o

/-- A table is not compressed, so a laid-out file is not refused. -/
theorem result_perform_layout_ne (contents : List (Ref × Content))
    (hx : request.settings.xrefAsStream = false) (object : Option Ref)
    (message : String) :
    ((Writer.perform (b.layout request (b.encryptionTrailer request) contents
      w.offset w.hash)).run w).result
      ≠ .error (.compressionFailed object message) := by
  have hdone := Writer.done_perform (b.layout request
    (b.encryptionTrailer request) contents w.offset w.hash) w
  rcases hdone with ⟨hresult, -⟩ | ⟨cause, hresult⟩
  · rw [hresult, layout_eq]
    cases hsection : b.closingSection request
        (place request.settings contents w.offset) w.offset w.hash with
    | ok bytes =>
        intro h
        cases h
    | error e =>
        intro h
        have he : e = .compressionFailed object message := Except.error.inj h
        rcases xrefSection_error hsection
          with ⟨hstream, -⟩ | ⟨r, offset, hlarge⟩
        · rw [hx] at hstream
          cases hstream
        · rw [hlarge] at he
          cases he
  · rw [hresult]
    intro h
    cases h

/-- What stops a body is not the compressor. -/
theorem ne_of_obstacle {e : Error} (h : b.obstacle request = some e)
    (object : Option Ref) (message : String) :
    e ≠ .compressionFailed object message := by
  rintro rfl
  rcases obstacle_cases h with ⟨target, referrer, he⟩ | he
  · cases he
  · cases he

theorem attempted_write (hb : b.Sound)
    (hx : request.settings.xrefAsStream = false) (w : Writer) :
    Attempted b request w ((b.write request).run w) := by
  cases ho : b.obstacle request with
  | some e =>
      rw [run_write_of_obstacle w ho]
      exact .stopped ho
  | none =>
      show Attempted b request w
        ((Writer.perform (b.plan request w.offset w.hash)).run w)
      rw [plan, ho]
      rcases encodeAll_find? request (b.encryptionTrailer request)
          b.items.toList
        with ⟨contents, hfind, he⟩
        | ⟨contents, r, s, message, hfind, hcompresses, hrefused, he⟩
      · simp only [he]
        refine .passed ?_ (result_perform_layout_ne _ hx)
        intro r item hitem
        exact Bool.eq_false_iff.mpr (List.find?_eq_none.mp hfind (r, item)
          (Std.ExtTreeMap.mem_toList_iff_getElem?_eq_some.mpr hitem))
      · simp only [he]
        rw [Writer.run_perform_failing]
        exact .refused (refusesFirst_of_find? hb hfind hcompresses hrefused)

/-- After a refusal the writer is untouched and the first refused stream is
    known. -/
theorem Attempted.of_refused {o : Outcome Writer Unit} {object : Option Ref}
    {message : String} (h : Attempted b request w o)
    (ho : o.result = .error (.compressionFailed object message)) :
    o.state = w ∧ ∃ r, object = some r ∧ b.RefusesFirst request r message := by
  cases h with
  | stopped he =>
      exact absurd (Except.error.inj ho) (ne_of_obstacle he object message)
  | @refused r message' events hfirst =>
      obtain ⟨rfl, rfl⟩ := Error.compressionFailed.inj (Except.error.inj ho)
      exact ⟨rfl, r, rfl, hfirst⟩
  | passed _ hnot => exact absurd ho (hnot object message)

/-! ## Excepted streams -/

/-- The body with every stream that is refused excepted from compression. -/
def spared (b : Body) (request : Request) : Body :=
  { b with items := b.items.map fun _ item => item.spared request }

/-- How many streams are refused. -/
def refusals (b : Body) (request : Request) : Nat :=
  b.items.toList.countP (·.2.isRefused request)

/-- How many streams are to be compressed. -/
def compressing (b : Body) (settings : Settings) : Nat :=
  b.items.toList.countP (·.2.compresses settings)

/-- No more streams are refused than are to be compressed. -/
theorem refusals_le_compressing :
    b.refusals request ≤ b.compressing request.settings :=
  List.countP_mono_left fun _ _ h => Item.compresses_of_isRefused h

/-- A body in which nothing is refused is spared by leaving it alone. -/
theorem spared_of_none_refused (h : ∀ (r : Ref) item,
    b.items[r]? = some item → item.isRefused request = false) :
    b.spared request = b := by
  have hitems : b.items.map (fun _ item => item.spared request) = b.items := by
    refine Std.ExtTreeMap.ext_getElem? fun r => ?_
    rw [Std.ExtTreeMap.getElem?_map]
    cases hr : b.items[r]? with
    | none => rfl
    | some item =>
        exact congrArg some (Item.spared_of_not_isRefused (h r item hr))
  rw [spared, hitems]

/-- Policies do not play a part in what stops a body. -/
theorem obstacle_spared : (b.spared request).obstacle request
    = b.obstacle request := by
  have hholds : (b.spared request).holds = b.holds :=
    funext fun r => Std.ExtTreeMap.contains_map
  have hfirst : (b.spared request).firstDangling = b.firstDangling := by
    funext refs
    rw [firstDangling, firstDangling, hholds]
  have hfrom : ∀ o : Ref × Item,
      (b.spared request).danglingFrom (o.1, o.2.spared request)
        = b.danglingFrom o := by
    rintro ⟨r, item⟩
    rw [danglingFrom, danglingFrom, hfirst, Item.refs_spared]
  have hitems : (b.spared request).items.toList
      = b.items.toList.map fun o => (o.1, o.2.spared request) :=
    Std.ExtTreeMap.toList_map
  have hdangling : (b.spared request).danglingError request.trailer.refs
      = b.danglingError request.trailer.refs := by
    rw [danglingError, danglingError, hfirst, hitems, List.findSome?_map]
    simp only [Function.comp_def, hfrom]
  rw [obstacle, obstacle, hdangling]
  rfl

/-- An item that is stored in the place of another one. -/
theorem store_eq_map {r : Ref} {item : Item} (other : Item)
    (h : b.items[r]? = some item) :
    (b.store r other).items
      = b.items.map fun s old => if s = r then other else old := by
  refine Std.ExtTreeMap.ext_getElem? fun s => ?_
  rw [getElem?_store, Std.ExtTreeMap.getElem?_map]
  by_cases hs : s = r
  · rw [if_pos hs, hs, h, Option.map_some, if_pos rfl]
  · simp only [if_neg hs, Option.map_id']

/-- Sparing one refused stream beforehand makes no difference in the end. -/
theorem spared_store {r : Ref} {item : Item} (h : b.items[r]? = some item)
    (hrefused : item.isRefused request = true) :
    (b.store r (item.withPolicy .uncompressed)).spared request
      = b.spared request := by
  have hitems : ((b.store r (item.withPolicy .uncompressed)).spared
      request).items = (b.spared request).items := by
    refine Std.ExtTreeMap.ext_getElem? fun s => ?_
    rw [spared, spared, Std.ExtTreeMap.getElem?_map,
      Std.ExtTreeMap.getElem?_map, getElem?_store]
    by_cases hs : s = r
    · rw [if_pos hs, hs, h, Option.map_some, Option.map_some,
        Item.spared_withPolicy hrefused]
    · rw [if_neg hs]
  exact congrArg (Body.mk · b.known b.issued) hitems

/-- One element that counts no longer is one less. -/
theorem countP_lt_countP {α : Type} {p q : α → Bool} {l : List α} {a : α}
    (h : ∀ x ∈ l, p x = true → q x = true) (ha : a ∈ l) (hp : p a = false)
    (hq : q a = true) : l.countP p < l.countP q := by
  obtain ⟨front, back, rfl⟩ := List.append_of_mem ha
  have hfront : front.countP p ≤ front.countP q :=
    List.countP_mono_left fun x hx => h x (List.mem_append_left _ hx)
  have hback : back.countP p ≤ back.countP q :=
    List.countP_mono_left fun x hx =>
      h x (List.mem_append_right _ (List.mem_cons_of_mem _ hx))
  rw [List.countP_append, List.countP_append,
    List.countP_cons_of_neg (Bool.eq_false_iff.mp hp),
    List.countP_cons_of_pos hq]
  omega

/-- An excepted stream is refused no more. -/
theorem refusals_store_lt {r : Ref} {item : Item}
    (h : b.items[r]? = some item) (hrefused : item.isRefused request = true) :
    (b.store r (item.withPolicy .uncompressed)).refusals request
      < b.refusals request := by
  rw [refusals, store_eq_map _ h, Std.ExtTreeMap.toList_map, List.countP_map]
  refine countP_lt_countP (a := (r, item)) ?_
    (Std.ExtTreeMap.mem_toList_iff_getElem?_eq_some.mpr h) ?_ hrefused
  · rintro ⟨s, other⟩ hmem hother
    by_cases hs : s = r
    · simp only [Function.comp_def, if_pos hs, Item.isRefused_withPolicy]
        at hother
      cases hother
    · simpa only [Function.comp_def, if_neg hs] using hother
  · simp only [Function.comp_def, if_true]
    exact Item.isRefused_withPolicy

/-! ## Retries -/

/-- Writes a body, and as long as a stream is refused excepts it from
    compression and tries again, at most so many times.  The body of the last
    attempt is given together with its outcome. -/
def insist (request : Request) :
    (retries : Nat) → Body → Writer → Body × Outcome Writer Unit
  | 0, b, w => (b, (b.write request).run w)
  | retries + 1, b, w =>
      match ((b.write request).run w).result with
      | .error (.compressionFailed (some r) _) =>
          insist request retries
            ((Operation.edit r (Item.withPolicy .uncompressed)).after b)
            ((b.write request).run w).state
      | _ => (b, (b.write request).run w)

/-- Without a refusal the first attempt is the last. -/
theorem insist_of_passed {retries : Nat}
    (h : ∀ r message, ((b.write request).run w).result
      ≠ .error (.compressionFailed (some r) message)) :
    insist request retries b w = (b, (b.write request).run w) := by
  cases retries with
  | zero => rfl
  | succ retries =>
      rw [insist]
      split
      · next r message hr => exact absurd hr (h r message)
      · rfl

/-- A stream is refused in an attempt, and the next attempt is made with the
    same writer. -/
theorem insist_of_refused {retries : Nat} {r : Ref} {item : Item}
    {message : String} (hitem : b.items[r]? = some item)
    (h : ((b.write request).run w).result
      = .error (.compressionFailed (some r) message))
    (hstate : ((b.write request).run w).state = w) :
    insist request (retries + 1) b w = insist request retries
      (b.store r (item.withPolicy .uncompressed)) w := by
  rw [insist]
  simp only [h, hstate]
  rw [Operation.after, run_edit, hitem]

/-- Whatever was retried, the last attempt is a write with the first writer. -/
theorem insist_eq (hb : b.Sound) (hx : request.settings.xrefAsStream = false)
    (retries : Nat) (w : Writer) :
    (insist request retries b w).1.Sound
      ∧ (insist request retries b w).2
        = ((insist request retries b w).1.write request).run w := by
  induction retries generalizing b with
  | zero => exact ⟨hb, rfl⟩
  | succ retries ih =>
      by_cases hrefused : ∃ r message, ((b.write request).run w).result
          = .error (.compressionFailed (some r) message)
      · obtain ⟨r, message, hresult⟩ := hrefused
        obtain ⟨hstate, r', hr', hfirst⟩ :=
          (attempted_write hb hx w).of_refused hresult
        cases hr'
        obtain ⟨item, hitem, -⟩ := hfirst.exists_isRefused
        rw [insist_of_refused hitem hresult hstate]
        exact ih (sound_store _ hb (hb.issued r (by rw [hitem]; rfl)))
      · rw [insist_of_passed fun r message h => hrefused ⟨r, message, h⟩]
        exact ⟨hb, rfl⟩

/-- With a retry for each refused stream, the last attempt is not refused, and
    it comes to what writing the spared body comes to. -/
theorem insist_eq_of_refusals_le (hb : b.Sound)
    (hx : request.settings.xrefAsStream = false) {retries : Nat} (w : Writer)
    (h : b.refusals request ≤ retries) :
    (∀ object message, (insist request retries b w).2.result
        ≠ .error (.compressionFailed object message))
      ∧ (insist request retries b w).2
        = ((b.spared request).write request).run w := by
  induction retries generalizing b with
  | zero =>
      have hnone : ∀ (r : Ref) item, b.items[r]? = some item →
          item.isRefused request = false := by
        intro r item hitem
        exact Bool.eq_false_iff.mpr (List.countP_eq_zero.mp
          (Nat.le_zero.mp h) (r, item)
          (Std.ExtTreeMap.mem_toList_iff_getElem?_eq_some.mpr hitem))
      refine ⟨?_, ?_⟩
      · intro object message hresult
        obtain ⟨-, r, -, hfirst⟩ :=
          (attempted_write hb hx w).of_refused hresult
        obtain ⟨item, hitem, hrefused⟩ := hfirst.exists_isRefused
        rw [hnone r item hitem] at hrefused
        cases hrefused
      · rw [spared_of_none_refused hnone]
        rfl
  | succ retries ih =>
      have hattempted := attempted_write hb hx w
      generalize ho : (b.write request).run w = o at hattempted
      cases hattempted with
      | @stopped e hobstacle =>
          have hspared := hobstacle
          rw [← obstacle_spared] at hspared
          have hnot : ∀ object message, (Except.error e : Except Error Unit)
              ≠ .error (.compressionFailed object message) :=
            fun object message he =>
              ne_of_obstacle hobstacle object message (Except.error.inj he)
          rw [insist_of_passed, ho, run_write_of_obstacle w hspared]
          · exact ⟨hnot, rfl⟩
          · rw [ho]
            exact fun r message => hnot (some r) message
      | @refused r message events hfirst =>
          obtain ⟨item, hitem, hrefused⟩ := hfirst.exists_isRefused
          have hresult : ((b.write request).run w).result
              = .error (.compressionFailed (some r) message) := by rw [ho]
          have hstate : ((b.write request).run w).state = w := by rw [ho]
          have hless := refusals_store_lt hitem hrefused
          rw [insist_of_refused hitem hresult hstate,
            ← spared_store hitem hrefused]
          exact ih (sound_store _ hb (hb.issued r (by rw [hitem]; rfl)))
            (by omega)
      | passed hnone hnot =>
          rw [insist_of_passed, spared_of_none_refused hnone, ho]
          · exact ⟨hnot, rfl⟩
          · rw [ho]
            exact fun r message => hnot (some r) message

/-- **REFUSED STREAMS CAN BE EXCEPTED ONE BY ONE**: without a cross-reference
    stream, whenever an attempt is refused, nothing was written and the error
    names the refused stream with the lowest number; and if there is a retry for
    each stream that is to be compressed, the last attempt is not refused and
    comes to what writing comes to at once if exactly the refused streams are
    excepted. -/
theorem insist_spared (hb : b.Reachable) (request : Request)
    (hx : request.settings.xrefAsStream = false) (w : Writer) :
    (∀ retries object message, (insist request retries b w).2.result
          = .error (.compressionFailed object message) →
        retries < b.compressing request.settings
          ∧ (insist request retries b w).2.state = w
          ∧ ∃ r, object = some r ∧ (insist request retries b w).1.RefusesFirst
            request r message)
      ∧ ∀ retries, b.compressing request.settings ≤ retries →
        (∀ object message, (insist request retries b w).2.result
            ≠ .error (.compressionFailed object message))
          ∧ (insist request retries b w).2
            = ((b.spared request).write request).run w := by
  have henough : ∀ {retries : Nat},
      b.compressing request.settings ≤ retries →
      b.refusals request ≤ retries :=
    fun h => Nat.le_trans refusals_le_compressing h
  refine ⟨?_, fun retries h =>
    insist_eq_of_refusals_le hb.sound hx w (henough h)⟩
  intro retries object message hresult
  obtain ⟨hsound, hlast⟩ := insist_eq hb.sound hx retries w
  refine ⟨?_, ?_⟩
  · by_contra hle
    exact (insist_eq_of_refusals_le hb.sound hx w
      (henough (Nat.le_of_not_lt hle))).1 object message hresult
  · rw [hlast] at hresult ⊢
    exact (attempted_write hsound hx w).of_refused hresult

/-- A body with three streams, of which the first and the last are long. -/
def sampleScribbles : Body :=
  Operation.after (Operation.after (Operation.after (Operation.after .empty
    (.add (.stream { data := Bytes.ascii "BT ET" })))
    (.add (.stream { data := Bytes.ascii "q" })))
    (.add (.value (.dictionary (Dict.ofType (.key "Catalog"))))))
    (.add (.stream { data := Bytes.ascii "q Q", policy := .compressed }))

/-- A request with a compressor that refuses data of more than two bytes. -/
def sampleRefusing : Request where
  trailer := { root := ⟨3, 0⟩ }
  settings := { addsId := false }
  compressor data := if 2 < data.length then .error "long" else .ok data

theorem insist_spared_sampleScribbles :
    sampleScribbles.Reachable
      ∧ sampleRefusing.settings.xrefAsStream = false
      ∧ (insist sampleRefusing 1 sampleScribbles {}).2.result
        = .error (.compressionFailed (some ⟨4, 0⟩) "long")
      ∧ 1 < sampleScribbles.compressing sampleRefusing.settings
      ∧ (insist sampleRefusing 3 sampleScribbles {}).2.result = .ok ()
      ∧ (insist sampleRefusing 3 sampleScribbles {}).2
        = ((sampleScribbles.spared sampleRefusing).write sampleRefusing).run
          {} := by
  have hb : sampleScribbles.Reachable :=
    .after _ (.after _ (.after _ (.after _ .empty)))
  have hresult : (insist sampleRefusing 1 sampleScribbles {}).2.result
      = .error (.compressionFailed (some ⟨4, 0⟩) "long") := rfl
  obtain ⟨hrefused, henough⟩ :=
    insist_spared hb sampleRefusing rfl {}
  exact ⟨hb, rfl, hresult, (hrefused 1 _ _ hresult).1,
    Writer.eq_ok_of_isOk (by decide +kernel),
    (henough 3 (by decide +kernel)).2⟩

end Body

end Pdf
