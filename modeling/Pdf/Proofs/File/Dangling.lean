import Pdf.Proofs.Body.Leaves
import Pdf.Proofs.File.Tiling
import Pdf.Proofs.Object.References

/-! # Dangling references — found before the first byte, and never written

    A reference dangles if nothing is stored under exactly its number and its
    generation; that the number was handed out does not help.  A body with a
    dangling reference, or with a trailer that has one, is not written: the
    error names the first of them (`DanglesFirst`), which is the one with the
    lowest offset in the lowest-numbered object that has any, or else the first
    one of the trailer.

    What is written has no reference that was not checked.  Filters and ciphers
    add none, and the dictionary of a section has those of its trailer only; so
    the entry of every reference in a complete file is in use.  Verbatim bytes
    are not looked into. -/

namespace Pdf

/-- The places of a trailer for a reference, in their order. -/
def Trailer.slots (t : Trailer) : List (Option Ref) :=
  [some t.root, t.info, t.encrypt]

/-- The references of a trailer are those of its slots that are in use. -/
theorem Trailer.refs_eq (t : Trailer) :
    t.refs = t.slots.filterMap fun slot => slot := by
  obtain ⟨root, info, encrypt, id, prev⟩ := t
  cases info <;> cases encrypt <;> rfl

/-- A trailer refers to what stands in one of its slots. -/
theorem Trailer.mem_refs_iff {t : Trailer} {r : Ref} :
    r ∈ t.refs ↔ some r ∈ t.slots := by
  rw [refs_eq, List.mem_filterMap]
  constructor
  · rintro ⟨slot, hslot, rfl⟩
    exact hslot
  · intro h
    exact ⟨some r, h, rfl⟩

namespace Body

/-! ## References to nothing -/

/-- A reference that is written inside an object leads to nothing. -/
def Dangles (b : Body) (o : Object) : Prop :=
  ∃ offset target, o.WrittenAt 0 offset target ∧ b.items[target]? = none

/-- A reference to nothing, and the object in which it is written unless it is
    one of the trailer: no lower-numbered object has such a reference, and
    none is written in front of it. -/
inductive DanglesFirst (b : Body) (t : Trailer) : Ref → Option Ref → Prop where
  | item {r : Ref} {item : Item} {offset : Nat} {target : Ref} :
      b.items[r]? = some item →
      item.object.WrittenAt 0 offset target →
      b.items[target]? = none →
      (∀ offset' target', item.object.WrittenAt 0 offset' target' →
        b.items[target']? = none → offset ≤ offset') →
      (∀ (r' : Ref) item', b.items[r']? = some item' → b.Dangles item'.object →
        r.number ≤ r'.number) →
      DanglesFirst b t target (some r)
  | trailer {before behind : List (Option Ref)} {target : Ref} :
      (∀ (r : Ref) item, b.items[r]? = some item → ¬ b.Dangles item.object) →
      t.slots = before ++ some target :: behind →
      b.items[target]? = none →
      (∀ r, some r ∈ before → b.items[r]? ≠ none) →
      DanglesFirst b t target none

/-- Nothing is held under a reference exactly if a look-up finds nothing. -/
theorem not_holds_iff {b : Body} {r : Ref} :
    (! b.holds r) = true ↔ b.items[r]? = none := by
  rw [holds_eq, Bool.not_eq_true', Option.isSome_eq_false_iff,
    Option.isNone_iff_eq_none]

/-- Whether a leaf leads to something, or nowhere at all. -/
def resolves (b : Body) : Object → Bool
  | .reference r => b.holds r
  | _ => true

/-- Whether references lead somewhere does not change when a stream is coded. -/
theorem passesCoding_resolves (b : Body) :
    Object.PassesCoding b.resolves :=
  ⟨fun _ => rfl, fun _ => rfl⟩

/-- The search for a reference to nothing comes to no end if all leaves
    resolve. -/
theorem firstDangling_eq_none_iff {b : Body} {o : Object} :
    b.firstDangling o.refs = none ↔ o.every b.resolves = true := by
  rw [firstDangling, List.find?_eq_none, Object.every, List.all_eq_true,
    Object.refs]
  constructor
  · intro h leaf hleaf
    cases leaf with
    | reference r =>
        have hr := h r (List.mem_filterMap.mpr ⟨_, hleaf, rfl⟩)
        simpa [resolves] using hr
    | _ => rfl
  · intro h r hr
    obtain ⟨leaf, hleaf, hreference⟩ := List.mem_filterMap.mp hr
    cases leaf with
    | reference r' =>
        rw [← Option.some.inj hreference]
        simpa [resolves] using h _ hleaf
    | _ => cases hreference

/-- All leaves of an object lead somewhere exactly if it does not dangle. -/
theorem every_resolves_iff {b : Body} {o : Object} :
    o.every b.resolves = true ↔ ¬ b.Dangles o := by
  rw [← firstDangling_eq_none_iff, firstDangling, List.find?_eq_none]
  constructor
  · rintro h ⟨offset, target, hwritten, hnone⟩
    exact h target hwritten.mem_refs (not_holds_iff.mpr hnone)
  · intro h target hmem hnot
    obtain ⟨offset, hwritten⟩ := (Object.mem_refs_iff 0).mp hmem
    exact h ⟨offset, target, hwritten, not_holds_iff.mp hnot⟩

/-! ## The check -/

/-- The search goes by the order in which the references are written. -/
theorem exists_of_firstDangling {b : Body} {o : Object} {target : Ref}
    (h : b.firstDangling o.refs = some target) :
    ∃ offset, o.WrittenAt 0 offset target ∧ b.items[target]? = none
      ∧ ∀ offset' target', o.WrittenAt 0 offset' target' →
        b.items[target']? = none → offset ≤ offset' := by
  obtain ⟨offset, hwritten, hfirst⟩ :=
    Object.exists_writtenAt_of_find? o 0 h
  have hnot : (! b.holds target) = true :=
    List.find?_some (p := fun r => ! b.holds r) h
  refine ⟨offset, hwritten, not_holds_iff.mp hnot, ?_⟩
  intro offset' target' hother hnone
  exact hfirst offset' target' hother (not_holds_iff.mpr hnone)

/-- An object is not reported exactly if it does not dangle. -/
theorem danglingFrom_eq_none_iff {b : Body} {r : Ref} {item : Item} :
    b.danglingFrom (r, item) = none ↔ ¬ b.Dangles item.object := by
  rw [danglingFrom, Option.map_eq_none_iff, item.refs_eq,
    firstDangling_eq_none_iff, every_resolves_iff]

/-- No object is told of exactly if none has a reference to nothing. -/
theorem findSome?_danglingFrom_eq_none_iff {b : Body} :
    b.items.toList.findSome? b.danglingFrom = none
      ↔ ∀ (r : Ref) item, b.items[r]? = some item
        → ¬ b.Dangles item.object := by
  rw [List.findSome?_eq_none_iff]
  constructor
  · intro h r item hitem
    exact danglingFrom_eq_none_iff.mp (h (r, item)
      (Std.ExtTreeMap.mem_toList_iff_getElem?_eq_some.mpr hitem))
  · rintro h ⟨r, item⟩ hmem
    exact danglingFrom_eq_none_iff.mpr (h r item
      (Std.ExtTreeMap.mem_toList_iff_getElem?_eq_some.mp hmem))

/-- The trailer is searched slot by slot. -/
theorem slots_of_firstDangling {b : Body} {t : Trailer} {target : Ref}
    (h : b.firstDangling t.refs = some target) :
    ∃ before behind, t.slots = before ++ some target :: behind
      ∧ b.items[target]? = none
      ∧ ∀ r, some r ∈ before → b.items[r]? ≠ none := by
  rw [firstDangling, t.refs_eq, List.find?_filterMap] at h
  obtain ⟨slot, hfind, rfl⟩ := Option.bind_eq_some_iff.mp h
  obtain ⟨hslot, before, behind, hslots, hbefore⟩ :=
    List.find?_eq_some_iff_append.mp hfind
  refine ⟨before, behind, hslots, not_holds_iff.mp hslot, ?_⟩
  intro r hr hnone
  have hheld := hbefore (some r) hr
  rw [Option.any_some, not_holds_iff.mpr hnone] at hheld
  exact Bool.false_ne_true hheld

/-- **THE FIRST ONE IS TOLD**: the error of the check is about the first
    reference to nothing. -/
theorem danglesFirst_of_danglingError {b : Body} (hb : b.Sound) {t : Trailer}
    {e : Error} (h : b.danglingError t.refs = some e) :
    ∃ target referrer, e = .danglingReference target referrer
      ∧ b.DanglesFirst t target referrer := by
  rw [danglingError] at h
  cases hfound : b.items.toList.findSome? b.danglingFrom with
  | none =>
      rw [hfound] at h
      obtain ⟨target, hfirst, rfl⟩ := Option.map_eq_some_iff.mp h
      obtain ⟨before, behind, hslots, hnone, hbefore⟩ :=
        slots_of_firstDangling hfirst
      exact ⟨target, none, rfl, .trailer
        (findSome?_danglingFrom_eq_none_iff.mp hfound) hslots hnone hbefore⟩
  | some e' =>
      rw [hfound] at h
      obtain ⟨front, ⟨r, item⟩, back, hlist, hr, hfront⟩ :=
        List.findSome?_eq_some_iff.mp hfound
      rw [danglingFrom, item.refs_eq] at hr
      obtain ⟨target, hfirst, he⟩ := Option.map_eq_some_iff.mp hr
      obtain ⟨offset, hwritten, hnone, hleast⟩ :=
        exists_of_firstDangling hfirst
      have hitem : b.items[r]? = some item := by
        refine Std.ExtTreeMap.mem_toList_iff_getElem?_eq_some.mp ?_
        rw [hlist]
        simp
      refine ⟨target, some r, ?_, .item hitem hwritten hnone hleast ?_⟩
      · rw [he]
        exact (Option.some.inj h).symm
      · intro r' item' hitem' hdangles
        -- the objects in front have no such reference, and those behind have
        -- higher numbers
        have hmem : (r', item') ∈ front ++ (r, item) :: back := by
          rw [← hlist]
          exact Std.ExtTreeMap.mem_toList_iff_getElem?_eq_some.mpr hitem'
        have hascending := hb.ascending_keys
        rw [← Std.ExtTreeMap.map_fst_toList_eq_keys, hlist,
          List.pairwise_map] at hascending
        obtain ⟨-, hbehind, -⟩ := List.pairwise_append.mp hascending
        rcases List.mem_append.mp hmem with hf | hrest
        · exact absurd hdangles
            (danglingFrom_eq_none_iff.mp (hfront _ hf))
        · rcases List.mem_cons.mp hrest with he | hback
          · rw [(Prod.mk.inj he).1]
            exact UInt32.le_refl _
          · exact UInt32.le_of_lt
              ((List.pairwise_cons.mp hbehind).1 _ hback)

/-- **NOTHING IS REPORTED** exactly if all references of the objects and of the
    trailer lead somewhere. -/
theorem danglingError_eq_none_iff {b : Body} {t : Trailer} :
    b.danglingError t.refs = none
      ↔ (∀ (r : Ref) item, b.items[r]? = some item → ¬ b.Dangles item.object)
        ∧ ∀ target, some target ∈ t.slots → b.items[target]? ≠ none := by
  have htrailer : b.firstDangling t.refs = none
      ↔ ∀ target, some target ∈ t.slots → b.items[target]? ≠ none := by
    rw [firstDangling, List.find?_eq_none]
    constructor
    · intro h target hslot hnone
      exact h target (Trailer.mem_refs_iff.mpr hslot)
        (not_holds_iff.mpr hnone)
    · intro h target hmem hnot
      exact h target (Trailer.mem_refs_iff.mp hmem) (not_holds_iff.mp hnot)
  rw [← findSome?_danglingFrom_eq_none_iff, ← htrailer, danglingError]
  cases b.items.toList.findSome? b.danglingFrom with
  | some e =>
      constructor
      · intro h
        cases h
      · intro h
        cases h.1
  | none => exact Option.map_eq_none_iff.trans (and_iff_right rfl).symm

/-! ## The error of a file -/

/-- In the face of an obstacle nothing is written and the writer stays as it
    is. -/
theorem run_write_of_obstacle {b : Body} {request : Request} {e : Error}
    (w : Writer) (h : b.obstacle request = some e) :
    (b.write request).run w = ⟨.error e, w, []⟩ := by
  show (Writer.perform (b.plan request w.offset w.hash)).run w = _
  rw [plan, h]
  exact Writer.run_perform_failing [] e w

/-- A laid-out plan that ends with an error has no section. -/
theorem closingSection_of_ending {b : Body} {request : Request}
    {contents : List (Ref × Content)} {offset : Nat} {hash : SipHash}
    {e : Error} (h : (b.layout request (b.encryptionTrailer request) contents
      offset hash).ending = .error e) :
    b.closingSection request (place request.settings contents offset) offset
      hash = .error e := by
  rw [layout_eq] at h
  cases hsection : b.closingSection request
      (place request.settings contents offset) offset hash with
  | ok bytes =>
      rw [hsection] at h
      cases h
  | error e' =>
      rw [hsection] at h
      rw [Except.error.inj h]

/-- Whatever goes wrong behind the check, it is not a reference. -/
theorem result_write_ne_dangling {b : Body} {request : Request} (w : Writer)
    (h : b.obstacle request = none) (target : Ref) (referrer : Option Ref) :
    ((b.write request).run w).result
      ≠ .error (.danglingReference target referrer) := by
  show ((Writer.perform (b.plan request w.offset w.hash)).run w).result ≠ _
  intro hresult
  rw [plan, h] at hresult
  rcases encodeAll_cases request (b.encryptionTrailer request) b.items.toList
    with ⟨contents, he, -⟩ | ⟨contents, r, item, message, he, -⟩
  · simp only [he] at hresult
    rcases Writer.done_perform (b.layout request (b.encryptionTrailer request)
      contents w.offset w.hash) w with ⟨hending, -⟩ | ⟨cause, hio⟩
    · rw [hending] at hresult
      rcases xrefSection_error (closingSection_of_ending hresult)
        with ⟨-, message, hrefused⟩ | ⟨r, offset, hlarge⟩
      · cases hrefused
      · cases hlarge
    · rw [hio] at hresult
      cases hresult
  · simp only [he, Writer.run_perform_failing] at hresult
    cases hresult

/-- A file fails because of a reference exactly if the check says so. -/
theorem result_write_eq_dangling_iff {b : Body} {request : Request}
    {w : Writer} {target : Ref} {referrer : Option Ref} :
    ((b.write request).run w).result
        = .error (.danglingReference target referrer)
      ↔ b.danglingError request.trailer.refs
        = some (.danglingReference target referrer) := by
  cases hcheck : b.danglingError request.trailer.refs with
  | some e =>
      have hobstacle : b.obstacle request = some e := by
        rw [obstacle, hcheck]
      rw [run_write_of_obstacle w hobstacle]
      constructor
      · intro h
        exact congrArg some (Except.error.inj h)
      · intro h
        exact congrArg Except.error (Option.some.inj h)
  | none =>
      refine ⟨fun h => ?_, fun h => by cases h⟩
      cases hobstacle : b.obstacle request with
      | none => exact absurd h (result_write_ne_dangling w hobstacle _ _)
      | some e =>
          -- the only other obstacle is that no number is left
          rw [run_write_of_obstacle w hobstacle] at h
          rw [Except.error.inj h, obstacle, hcheck] at hobstacle
          simp only at hobstacle
          split at hobstacle
          · cases hobstacle
          · cases hobstacle

/-! ## References in a file -/

/-- What is written for an item has no reference that the item has not. -/
theorem Encodes.every_resolves {b : Body} {request : Request}
    {contents : List (Ref × Content)} (h : b.Encodes request contents)
    (hclean : b.danglingError request.trailer.refs = none)
    {c : Ref × Content} (hc : c ∈ contents) :
    c.2.object.every b.resolves = true := by
  obtain ⟨item, hitem, he⟩ := h.of_mem (r := c.1) (c := c.2) hc
  have hresolves : item.object.every b.resolves = true :=
    every_resolves_iff.mpr
      ((danglingError_eq_none_iff.mp hclean).1 c.1 item hitem)
  obtain ⟨clear, hencode, hc⟩ := encodeObject_eq_ok he
  have hclear := Item.every_encode b.passesCoding_resolves hencode hresolves
  rcases hc with hc | ⟨hide, hc⟩
  · rw [hc]
    exact hclear
  · rw [hc]
    exact Content.every_sealed (f := hide) b.passesCoding_resolves
      (fun _ _ => rfl) hclear

/-- An identifier is all that a trailer may get before it is written. -/
theorem refs_closingTrailer (b : Body) (request : Request)
    (placed : List PlacedObject) (hash : SipHash) :
    (b.closingTrailer request placed hash).refs = request.trailer.refs := by
  obtain ⟨id, -, htrailer⟩ := exists_closingTrailer_eq b request placed hash
  rw [htrailer]
  rfl

/-- In a file without dangling references those of the trailer lead somewhere,
    too. -/
theorem Complete.every_resolves {b : Body} {request : Request}
    {w w' : Writer} {contents : List (Ref × Content)} {bytes : Bytes}
    {entries : List Xref.Entry} {d : Dict}
    (h : Complete b request w w' contents bytes entries d)
    (hclean : b.danglingError request.trailer.refs = none) :
    d.every b.resolves = true := by
  refine h.heads.every b.passesCoding_resolves
    (Trailer.every_dict _ (fun _ => rfl) ?_ fun _ _ => rfl)
  intro r hr
  rw [refs_closingTrailer] at hr
  have hsome := (danglingError_eq_none_iff.mp hclean).2 r
    (Trailer.mem_refs_iff.mp hr)
  have hholds : b.holds r = true := by
    rw [holds_eq, Option.isSome_iff_ne_none]
    exact hsome
  exact (Bool.and_true _).trans hholds

/-- The entry of a stored reference is in use, with its generation. -/
theorem Complete.inUse {b : Body} (hb : b.Sound) {request : Request}
    {w w' : Writer} {contents : List (Ref × Content)} {bytes : Bytes}
    {entries : List Xref.Entry} {d : Dict}
    (h : Complete b request w w' contents bytes entries d) {o : Object}
    (ho : o.every b.resolves = true) {offset : Nat} {target : Ref}
    (hwritten : o.WrittenAt 0 offset target) :
    ∃ position, entries[target.number.toNat]?
      = some (.inUse position target.generation) := by
  cases hitem : b.items[target]? with
  | none =>
      exact absurd (show b.Dangles o from ⟨offset, target, hwritten, hitem⟩)
        (every_resolves_iff.mp ho)
  | some item =>
      obtain ⟨c, hc, -⟩ := h.encodes.of_item hitem
      obtain ⟨front, back, rfl⟩ := List.append_of_mem hc
      have hissued := hb.issued target (by rw [hitem]; rfl)
      have hgeneration := ((hasIssued_iff b target).mp hissued).2.2
      exact ⟨_, (h.leads.inUse _ _ _).mpr ⟨hgeneration, Or.inl
        ⟨writtenObjects front, _, writtenObjects back, List.map_append, rfl,
          rfl⟩⟩⟩

/-- **DANGLING REFERENCES ARE TOLD EXACTLY**: a body is not written because of
    a reference if and only if some reference inside an object, or of the
    trailer, leads to nothing; the error names the first one.  In a complete
    file the entry of every reference, in an object as it was written or in the
    dictionary with the trailer, is in use. -/
theorem write_dangling {b : Body} (hb : b.Reachable) (request : Request)
    (w : Writer) :
    let o := (b.write request).run w
    ((∃ target referrer,
          o.result = .error (.danglingReference target referrer))
        ↔ (∃ (r : Ref) (item : Item), b.items[r]? = some item
            ∧ b.Dangles item.object)
          ∨ ∃ target, some target ∈ request.trailer.slots
            ∧ b.items[target]? = none)
      ∧ (∀ target referrer,
        o.result = .error (.danglingReference target referrer) →
        b.DanglesFirst request.trailer target referrer)
      ∧ (o.result = .ok () → ∃ contents bytes entries d,
        Complete b request w o.state contents bytes entries d
          ∧ ∀ offset target,
            (∃ c ∈ contents, c.2.object.WrittenAt 0 offset target)
              ∨ (Object.dictionary d).WrittenAt 0 offset target →
            ∃ position, entries[target.number.toNat]?
              = some (.inUse position target.generation)) := by
  intro o
  have hfirst : ∀ target referrer,
      o.result = .error (.danglingReference target referrer) →
      b.DanglesFirst request.trailer target referrer := by
    intro target referrer h
    obtain ⟨target', referrer', he, hdangles⟩ :=
      danglesFirst_of_danglingError hb.sound
        (result_write_eq_dangling_iff.mp h)
    obtain ⟨rfl, rfl⟩ := Error.danglingReference.inj he
    exact hdangles
  refine ⟨⟨?_, ?_⟩, hfirst, ?_⟩
  · rintro ⟨target, referrer, h⟩
    cases hfirst target referrer h with
    | item hitem hwritten hnone _ _ =>
        exact Or.inl ⟨_, _, hitem, _, _, hwritten, hnone⟩
    | trailer _ hslots hnone _ =>
        refine Or.inr ⟨target, ?_, hnone⟩
        rw [hslots]
        simp
  · intro hdangles
    cases hcheck : b.danglingError request.trailer.refs with
    | some e =>
        obtain ⟨target, referrer, rfl, -⟩ :=
          danglesFirst_of_danglingError hb.sound hcheck
        exact ⟨target, referrer, result_write_eq_dangling_iff.mpr hcheck⟩
    | none =>
        obtain ⟨hitems, hslots⟩ := danglingError_eq_none_iff.mp hcheck
        rcases hdangles with ⟨r, item, hitem, hd⟩ | ⟨target, hslot, hnone⟩
        · exact absurd hd (hitems r item hitem)
        · exact absurd hnone (hslots target hslot)
  · intro hok
    obtain ⟨contents, bytes, entries, d, hcomplete⟩ :=
      exists_complete_of_ok hb.sound request hok
    have hclean : b.danglingError request.trailer.refs = none := by
      cases hcheck : b.danglingError request.trailer.refs with
      | none => rfl
      | some e =>
          have hobstacle : b.obstacle request = some e := by
            rw [obstacle, hcheck]
          rw [show o.result = _ from congrArg Outcome.result
            (run_write_of_obstacle w hobstacle)] at hok
          cases hok
    refine ⟨contents, bytes, entries, d, hcomplete, ?_⟩
    rintro offset target (⟨c, hc, hwritten⟩ | hwritten)
    · exact hcomplete.inUse hb.sound
        (hcomplete.encodes.every_resolves hclean hc) hwritten
    · exact hcomplete.inUse hb.sound (hcomplete.every_resolves hclean) hwritten

/-- A catalog that refers to itself and to a number without an object. -/
def sampleReserved : Body :=
  Operation.after (Operation.after .empty .reserve)
    (.add (.value (.dictionary ((Dict.ofType (.key "Catalog")).insert
      (.key "Pages") (.array [.reference ⟨2, 0⟩, .reference ⟨1, 0⟩])))))

theorem write_dangling_reserved :
    let request : Request := {
      trailer := { root := ⟨2, 0⟩ }
      compressor _ := .error "unused" }
    sampleReserved.Reachable
      ∧ ((sampleReserved.write request).run {}).result
        = .error (.danglingReference ⟨1, 0⟩ (some ⟨2, 0⟩))
      ∧ sampleReserved.DanglesFirst request.trailer ⟨1, 0⟩ (some ⟨2, 0⟩) := by
  intro request
  have hreachable : sampleReserved.Reachable := .after _ (.after _ .empty)
  have hresult : ((sampleReserved.write request).run {}).result
      = .error (.danglingReference ⟨1, 0⟩ (some ⟨2, 0⟩)) := rfl
  obtain ⟨-, hfirst, -⟩ := write_dangling hreachable request {}
  exact ⟨hreachable, hresult, hfirst _ _ hresult⟩

end Body

end Pdf
