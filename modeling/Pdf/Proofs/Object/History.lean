import Mathlib.Data.List.Induction
import Pdf.Object.Printer
import Pdf.Proofs.Object.Sealing

/-! # Histories — what a dictionary holds after any calls

    A dictionary is a list of entries that is searched from its head.  What it
    holds is said here of the calls that were made, without that list: under a
    name stands the value that was inserted last, unless the name was removed
    since, with all changes that its strings have gone through (`Stands`), and
    a name has its place from the call that first inserted it since it was
    removed last (`Entered`).

    Both are followed through one more call at the end of a history, for every
    kind of call at once: what a call does to a dictionary is said by what it
    gives to a name, whether it removes the name, and how it changes values
    (`get?_after`, `keys_after`). -/

namespace Pdf.Dict

open Bytes (byte ascii)

/-! ## Calls -/

/-- A call that changes a dictionary. -/
inductive Operation where
  /-- Inserts, and answers what was replaced. -/
  | insert (key : Name) (value : Object)
  /-- Inserts, and answers nothing. -/
  | pair (key : Name) (value : Object)
  /-- Removes, and answers what was removed. -/
  | remove (key : Name)
  /-- Changes the bytes of every string, as a cipher does for one object. -/
  | encrypt (f : Bytes → Bytes)

namespace Operation

/-- The answer of an operation, and the dictionary after it. -/
def run : Operation → Dict → Option Object × Dict
  | insert key value, d => d.getThenInsert? key value
  | pair key value, d => (none, d.insert key value)
  | remove key, d => d.getThenErase? key
  | encrypt f, d => (none, d.mapStrings f)

/-- The dictionary after an operation. -/
def after (d : Dict) (o : Operation) : Dict := (o.run d).2

/-- The name under which an operation inserts, if it does. -/
def names : Operation → List Name
  | insert key _ => [key]
  | pair key _ => [key]
  | _ => []

/-- The value that an operation inserts under a name, if it does. -/
def given? (key : Name) : Operation → Option Object
  | insert k value => if key = k then some value else none
  | pair k value => if key = k then some value else none
  | _ => none

/-- Whether an operation removes a name. -/
def removes (key : Name) : Operation → Bool
  | remove k => key == k
  | _ => false

/-- What an operation makes of a value that stays. -/
def changed (value : Object) : Operation → Object
  | encrypt f => value.mapStrings f
  | _ => value

/-- A call gives a value to the name under which it inserts, and to no other. -/
theorem mem_names_iff {o : Operation} {key : Name} :
    key ∈ o.names ↔ (o.given? key).isSome = true := by
  cases o with
  | insert k value | pair k value =>
      rw [names, given?, List.mem_singleton]
      by_cases h : key = k
      · rw [if_pos h]
        exact iff_of_true h rfl
      · rw [if_neg h]
        exact iff_of_false h Bool.false_ne_true
  | remove | encrypt => exact iff_of_false List.not_mem_nil Bool.false_ne_true

theorem pairwise_names {R : Name → Name → Prop} (o : Operation) :
    o.names.Pairwise R := by
  cases o with
  | insert | pair => exact List.pairwise_singleton R _
  | remove | encrypt => exact List.Pairwise.nil

/-- What inserts a name does not remove it. -/
theorem removes_eq_false {o : Operation} {key : Name}
    (h : (o.given? key).isSome = true) : o.removes key = false := by
  cases o with
  | remove => exact nomatch h
  | _ => rfl

end Operation

/-- The dictionary after some operations. -/
def afterAll (d : Dict) (operations : List Operation) : Dict :=
  operations.foldl Operation.after d

/-- Under a name there is what was given to it, and otherwise what was there,
    changed, unless it was removed. -/
theorem get?_after {d : Dict} (hd : d.keys.Nodup) (o : Operation)
    (key : Name) :
    (o.after d).get? key = (o.given? key).or
      (if o.removes key = true then none else (d.get? key).map o.changed) := by
  have hsame : ∀ value : Option Object, value = value.map fun v => v :=
    fun _ => Option.map_id'.symm
  cases o with
  | insert k value | pair k value =>
      show (d.insert k value).get? key
        = Option.or (if key = k then some value else none) _
      rw [Dictionary.get?_insert]
      by_cases h : key = k
      · rw [if_pos h, if_pos h]
        rfl
      · rw [if_neg h, if_neg h]
        exact hsame _
  | remove k =>
      show (d.erase k).get? key = if (key == k) = true then none else _
      by_cases h : key = k
      · rw [if_pos (beq_iff_eq.mpr h), h, Dictionary.get?_erase_self hd]
      · rw [if_neg (mt beq_iff_eq.mp h), Dictionary.get?_erase d h]
        exact hsame _
  | encrypt f => exact get?_mapStrings f d key

/-- The names that are not removed stay in their order, and a new one comes
    last. -/
theorem keys_after {d : Dict} (hd : d.keys.Nodup) (o : Operation) :
    (o.after d).keys = d.keys.filter (fun key => !o.removes key)
      ++ o.names.filter (· ∉ d.keys) := by
  have hall : d.keys.filter (fun _ => true) = d.keys :=
    List.filter_eq_self.mpr fun _ _ => rfl
  cases o with
  | insert k value | pair k value =>
      show (d.insert k value).keys = d.keys.filter (fun _ => true) ++ _
      rw [hall, Dictionary.keys_insert, Operation.names]
      by_cases h : k ∈ d.keys
      · rw [if_pos h, List.filter_cons_of_neg (by simpa using h)]
        exact (List.append_nil _).symm
      · rw [if_neg h, List.filter_cons_of_pos (by simpa using h)]
        rfl
  | remove k =>
      exact (Dictionary.keys_erase hd).trans (List.append_nil _).symm
  | encrypt f =>
      show (d.mapStrings f).keys = d.keys.filter (fun _ => true) ++ []
      rw [hall, List.append_nil, keys_mapStrings]

/-! ## Histories -/

/-- A value with the changes that some operations make to it, one after the
    other. -/
def changedBy (operations : List Operation) (value : Object) : Object :=
  operations.foldl Operation.changed value

/-- The last operation that inserts a name, which was not removed since, gives
    it a value, and the operations since change it. -/
def Stands (key : Name) (value : Object) (history : List Operation) : Prop :=
  ∃ before o later given, history = before ++ o :: later
    ∧ o.given? key = some given
    ∧ (∀ p ∈ later, p.given? key = none ∧ p.removes key = false)
    ∧ value = changedBy later given

/-- Each insertion of a name is followed by a removal. -/
def AllRemoved (key : Name) (history : List Operation) : Prop :=
  ∀ before o later, history = before ++ o :: later →
    (o.given? key).isSome = true → ∃ p ∈ later, p.removes key = true

/-- The operation at a place is the first that inserts a name since it was
    removed, and the name was not removed since. -/
def Entered (key : Name) (place : Nat) (history : List Operation) : Prop :=
  ∃ before o later, history = before ++ o :: later ∧ place = before.length
    ∧ (o.given? key).isSome = true ∧ AllRemoved key before
    ∧ ∀ p ∈ later, p.removes key = false

/-- The last call changes what the ones before it made. -/
theorem changedBy_concat (operations : List Operation) (o : Operation)
    (value : Object) :
    changedBy (operations ++ [o]) value
      = o.changed (changedBy operations value) :=
  List.foldl_append

section

variable {key : Name} {history : List Operation} {o : Operation}

theorem nil_ne_append_cons {before later : List Operation} :
    [] ≠ before ++ o :: later :=
  (List.append_ne_nil_of_right_ne_nil before (List.cons_ne_nil o later)).symm

/-- An operation of a longer history is the new one, or has it behind it. -/
theorem concat_eq_append_cons_iff {before later : List Operation}
    {p : Operation} :
    history ++ [o] = before ++ p :: later
      ↔ (later = [] ∧ history = before ∧ o = p)
        ∨ ∃ rest, later = rest ++ [o] ∧ history = before ++ p :: rest := by
  constructor
  · intro h
    rcases List.eq_nil_or_concat later with rfl | ⟨rest, q, rfl⟩
    · obtain ⟨hhistory, ho⟩ := List.append_inj' h rfl
      exact Or.inl ⟨rfl, hhistory, List.singleton_inj.mp ho⟩
    · rw [List.concat_eq_append, ← List.cons_append,
        ← List.append_assoc] at h
      obtain ⟨hhistory, ho⟩ := List.append_inj' h rfl
      rw [List.concat_eq_append, ← ho]
      exact Or.inr ⟨rest, rfl, hhistory⟩
  · rintro (⟨rfl, rfl, rfl⟩ | ⟨rest, rfl, rfl⟩)
    · rfl
    · exact List.append_assoc before (p :: rest) [o]

/-- What stands after one more call was given by it, or stood before and was
    changed by it. -/
theorem stands_concat_iff {value : Object} :
    Stands key value (history ++ [o])
      ↔ o.given? key = some value
        ∨ (o.given? key = none ∧ o.removes key = false
          ∧ ∃ old, Stands key old history ∧ value = o.changed old) := by
  constructor
  · rintro ⟨before, p, later, given, hsplit, hgiven, hquiet, rfl⟩
    rcases concat_eq_append_cons_iff.mp hsplit with
      ⟨rfl, -, rfl⟩ | ⟨rest, rfl, hrest⟩
    · exact Or.inl hgiven
    · obtain ⟨hquiet, hnew⟩ := List.forall_mem_append.mp hquiet
      obtain ⟨hnone, hkept⟩ := List.forall_mem_singleton.mp hnew
      exact Or.inr ⟨hnone, hkept, changedBy rest given,
        ⟨before, p, rest, given, hrest, hgiven, hquiet, rfl⟩,
        changedBy_concat rest o given⟩
  · rintro (hgiven | ⟨hnone, hkept, old, hold, rfl⟩)
    · exact ⟨history, o, [], value, rfl, hgiven, (fun _ h => nomatch h), rfl⟩
    · obtain ⟨before, p, later, given, rfl, hgiven, hquiet, rfl⟩ := hold
      have hquiet' := List.forall_mem_append.mpr
        ⟨hquiet, List.forall_mem_singleton.mpr ⟨hnone, hkept⟩⟩
      exact ⟨before, p, later ++ [o], given, List.append_assoc .., hgiven,
        hquiet', (changedBy_concat later o given).symm⟩

/-- A name that is not removed keeps its place, or gets the last one. -/
theorem entered_concat_iff {place : Nat} :
    Entered key place (history ++ [o])
      ↔ o.removes key = false
        ∧ (Entered key place history
          ∨ (place = history.length ∧ (o.given? key).isSome = true
            ∧ AllRemoved key history)) := by
  constructor
  · rintro ⟨before, p, later, hsplit, rfl, hgiven, hbefore, hkept⟩
    rcases concat_eq_append_cons_iff.mp hsplit with
      ⟨rfl, rfl, rfl⟩ | ⟨rest, rfl, hrest⟩
    · exact ⟨Operation.removes_eq_false hgiven, Or.inr ⟨rfl, hgiven, hbefore⟩⟩
    · obtain ⟨hkept, hnew⟩ := List.forall_mem_append.mp hkept
      exact ⟨hnew o List.mem_cons_self,
        Or.inl ⟨before, p, rest, hrest, rfl, hgiven, hbefore, hkept⟩⟩
  · rintro ⟨hnew, hold | ⟨rfl, hgiven, hall⟩⟩
    · obtain ⟨before, p, later, rfl, rfl, hgiven, hbefore, hkept⟩ := hold
      have hkept' : ∀ p ∈ later ++ [o], p.removes key = false :=
        List.forall_mem_append.mpr ⟨hkept, List.forall_mem_singleton.mpr hnew⟩
      exact ⟨before, p, later ++ [o], List.append_assoc .., rfl, hgiven,
        hbefore, hkept'⟩
    · exact ⟨history, o, [], rfl, rfl, hgiven, hall, fun _ h => nomatch h⟩

/-- A place is one of the history. -/
theorem Entered.lt_length {place : Nat} (h : Entered key place history) :
    place < history.length := by
  obtain ⟨before, p, later, rfl, rfl, -⟩ := h
  rw [List.length_append, List.length_cons]
  omega

/-- A removal covers all insertions in front of it. -/
theorem allRemoved_concat_of_removes (h : o.removes key = true) :
    AllRemoved key (history ++ [o]) := by
  intro before p later hsplit hgiven
  rcases concat_eq_append_cons_iff.mp hsplit with
    ⟨-, -, rfl⟩ | ⟨rest, rfl, -⟩
  · rw [Operation.removes_eq_false hgiven] at h
    cases h
  · exact ⟨o, List.mem_append_right rest List.mem_cons_self, h⟩

/-- A call that does not insert a name leaves it removed. -/
theorem AllRemoved.concat (h : AllRemoved key history)
    (ho : o.given? key = none) : AllRemoved key (history ++ [o]) := by
  intro before p later hsplit hgiven
  rcases concat_eq_append_cons_iff.mp hsplit with
    ⟨-, -, rfl⟩ | ⟨rest, rfl, hrest⟩
  · rw [ho] at hgiven
    cases hgiven
  · obtain ⟨q, hq, hremoves⟩ := h before p rest hrest hgiven
    exact ⟨q, List.mem_append_left _ hq, hremoves⟩

/-- A name has no place if and only if it was removed after each insertion. -/
theorem allRemoved_iff :
    AllRemoved key history ↔ ¬ ∃ place, Entered key place history := by
  constructor
  · rintro hall ⟨place, before, p, later, hsplit, -, hgiven, -, hkept⟩
    obtain ⟨q, hq, hremoves⟩ := hall before p later hsplit hgiven
    rw [hkept q hq] at hremoves
    cases hremoves
  · induction history using List.reverseRecOn with
    | nil =>
        intro _ before p later hsplit
        exact absurd hsplit nil_ne_append_cons
    | append_singleton history o ih =>
        intro hnone
        cases hremoves : o.removes key with
        | true => exact allRemoved_concat_of_removes hremoves
        | false =>
            have hall : AllRemoved key history := by
              refine ih fun ⟨place, hplace⟩ => hnone ⟨place, ?_⟩
              exact entered_concat_iff.mpr ⟨hremoves, Or.inl hplace⟩
            cases hgiven : o.given? key with
            | none => exact hall.concat hgiven
            | some given =>
                -- the new operation would be the one that inserts the name
                refine absurd ⟨history.length, ?_⟩ hnone
                exact entered_concat_iff.mpr
                  ⟨hremoves, Or.inr ⟨rfl, by rw [hgiven]; rfl, hall⟩⟩

end

/-! ## What a dictionary shows of its history -/

/-- A dictionary holds what stands after a history, under the names that have a
    place in it, in the order of these places. -/
structure Recounts (history : List Operation) (d : Dict) : Prop where
  value : ∀ key value, d.get? key = some value ↔ Stands key value history
  present : ∀ key, key ∈ d.keys ↔ ∃ place, Entered key place history
  order : d.keys.Pairwise fun a b =>
    ∀ i j, Entered a i history → Entered b j history → i < j

section

variable {history : List Operation} {d : Dict}

/-- No name has a place in front of itself. -/
theorem Recounts.distinct (h : Recounts history d) : d.keys.Nodup := by
  refine h.order.imp_of_mem fun {a b} ha _ hab => ?_
  rintro rfl
  obtain ⟨place, hplace⟩ := (h.present a).mp ha
  exact Nat.lt_irrefl place (hab place place hplace hplace)

/-- What the dictionary does not hold was removed after each insertion. -/
theorem Recounts.allRemoved_iff (h : Recounts history d) (key : Name) :
    AllRemoved key history ↔ key ∉ d.keys := by
  rw [h.present]
  exact Dict.allRemoved_iff

theorem recounts_empty : Recounts [] .empty := by
  refine ⟨?_, ?_, List.Pairwise.nil⟩
  · intro key value
    refine iff_of_false (fun h => nomatch h) ?_
    rintro ⟨before, o, later, given, hsplit, -⟩
    exact nil_ne_append_cons hsplit
  · intro key
    refine iff_of_false List.not_mem_nil ?_
    rintro ⟨place, before, o, later, hsplit, -⟩
    exact nil_ne_append_cons hsplit

/-- A name that is there keeps its place as long as it is not removed. -/
theorem Recounts.entered_of_concat (h : Recounts history d) {o : Operation}
    {key : Name} {place : Nat} (hkey : key ∈ d.keys)
    (hplace : Entered key place (history ++ [o])) :
    Entered key place history := by
  obtain ⟨-, hold | ⟨-, -, hall⟩⟩ := entered_concat_iff.mp hplace
  · exact hold
  · exact absurd hkey ((h.allRemoved_iff key).mp hall)

/-- The values after one more call are those that stand. -/
theorem Recounts.value_concat (h : Recounts history d) (o : Operation)
    (key : Name) (value : Object) :
    (o.after d).get? key = some value
      ↔ Stands key value (history ++ [o]) := by
  rw [get?_after h.distinct, stands_concat_iff]
  cases hgiven : o.given? key with
  | some given => simp
  | none =>
      cases hremoves : o.removes key with
      | true => simp
      | false =>
          show (d.get? key).map o.changed = some value ↔ _
          rw [Option.map_eq_some_iff]
          simp [h.value, eq_comm]

/-- The names after one more call are those that have a place. -/
theorem Recounts.present_concat (h : Recounts history d) (o : Operation)
    (key : Name) :
    key ∈ (o.after d).keys ↔ ∃ place, Entered key place (history ++ [o]) := by
  rw [keys_after h.distinct]
  constructor
  · intro hmem
    rcases List.mem_append.mp hmem with hold | hnew
    · obtain ⟨hkey, hkept⟩ := List.mem_filter.mp hold
      obtain ⟨place, hplace⟩ := (h.present key).mp hkey
      exact ⟨place, entered_concat_iff.mpr
        ⟨by simpa using hkept, Or.inl hplace⟩⟩
    · obtain ⟨hname, hkey⟩ := List.mem_filter.mp hnew
      have hgiven := Operation.mem_names_iff.mp hname
      have hall := (h.allRemoved_iff key).mpr (of_decide_eq_true hkey)
      exact ⟨history.length, entered_concat_iff.mpr
        ⟨Operation.removes_eq_false hgiven, Or.inr ⟨rfl, hgiven, hall⟩⟩⟩
  · rintro ⟨place, hplace⟩
    obtain ⟨hkept, hold | ⟨-, hgiven, hall⟩⟩ := entered_concat_iff.mp hplace
    · refine List.mem_append_left _ (List.mem_filter.mpr ⟨?_, ?_⟩)
      · exact (h.present key).mpr ⟨place, hold⟩
      · rw [hkept]
        rfl
    · refine List.mem_append_right _ (List.mem_filter.mpr ⟨?_, ?_⟩)
      · exact Operation.mem_names_iff.mpr hgiven
      · exact decide_eq_true ((h.allRemoved_iff key).mp hall)

/-- The names after one more call stand in the order of their places. -/
theorem Recounts.order_concat (h : Recounts history d) (o : Operation) :
    (o.after d).keys.Pairwise fun a b => ∀ i j,
      Entered a i (history ++ [o]) → Entered b j (history ++ [o]) → i < j := by
  rw [keys_after h.distinct]
  refine List.pairwise_append.mpr
    ⟨?_, (Operation.pairwise_names o).filter _, ?_⟩
  · refine (h.order.filter _).imp_of_mem fun {a b} ha hb hab => ?_
    intro i j hi hj
    exact hab i j (h.entered_of_concat (List.mem_of_mem_filter ha) hi)
      (h.entered_of_concat (List.mem_of_mem_filter hb) hj)
  · -- what is new comes behind the whole history
    intro a ha b hb i j hi hj
    have hlt := (h.entered_of_concat (List.mem_of_mem_filter ha) hi).lt_length
    have hnew : b ∉ d.keys := of_decide_eq_true (List.mem_filter.mp hb).2
    obtain ⟨-, hold | ⟨rfl, -, -⟩⟩ := entered_concat_iff.mp hj
    · exact absurd ((h.present b).mpr ⟨j, hold⟩) hnew
    · exact hlt

/-- One more call is recounted by the dictionary after it. -/
theorem Recounts.concat (h : Recounts history d) (o : Operation) :
    Recounts (history ++ [o]) (o.after d) :=
  ⟨h.value_concat o, h.present_concat o, h.order_concat o⟩

/-- Any calls are recounted by the dictionary after them. -/
theorem recounts_afterAll (operations : List Operation)
    (h : Recounts history d) :
    Recounts (history ++ operations) (d.afterAll operations) := by
  induction operations generalizing history d with
  | nil =>
      rw [List.append_nil]
      exact h
  | cons o operations ih =>
      have hrest := ih (h.concat o)
      rw [List.append_assoc] at hrest
      exact hrest

end

/-! ## Entries in order -/

/-- The line of a name and of the value under it, inside `depth`
    dictionaries. -/
def line (depth : Nat) (d : Dict) (key : Name) : Bytes :=
  indentation depth ++ (key.print
    ++ byte ' ' :: ((d.get? key).elim [] (Object.print depth) ++ [byte '\n']))

theorem printEntries_eq (depth : Nat) (entries : List (Name × Object)) :
    Object.printEntries depth entries
      = entries.flatMap (Object.printEntry depth) := by
  induction entries with
  | nil => rfl
  | cons e entries ih => rw [Object.printEntries, ih, List.flatMap_cons]

/-- Each entry is the one that is found under its name. -/
theorem entries_eq {d : Dict} (hd : d.keys.Nodup) :
    d.entries.map (fun e => (e.1, some e.2))
      = d.keys.map fun key => (key, d.get? key) := by
  rw [Dictionary.keys, List.map_map]
  refine List.map_congr_left fun e he => ?_
  exact congrArg (Prod.mk e.1) (Dictionary.get?_of_mem hd he).symm

/-- Between its brackets, a dictionary is written name by name. -/
theorem printDict_eq {d : Dict} (hd : d.keys.Nodup) (depth : Nat) :
    Object.printDict depth d = if d.keys = [] then ascii "<<>>"
      else ascii "<<\n" ++ (d.keys.flatMap (d.line (depth + 1))
        ++ (indentation depth ++ ascii ">>")) := by
  have hlines : d.keys.flatMap (d.line (depth + 1))
      = Object.printEntries (depth + 1) d.entries := by
    rw [printEntries_eq, Dictionary.keys, List.flatMap_map]
    refine List.flatMap_congr fun ⟨key, value⟩ he => ?_
    rw [line, Dictionary.get?_of_mem hd he, Object.printEntry]
    rfl
  rw [hlines]
  obtain ⟨_ | ⟨e, entries⟩⟩ := d
  · rfl
  · exact congrArg (_ ++ ·) (List.append_assoc ..).symm

/-! ## Any calls -/

/-- A dictionary is the map that a history has built, in the order of
    insertion. -/
structure IsMapOf (history : List Operation) (d : Dict) : Prop
    extends Recounts history d where
  /-- No name occurs twice. -/
  unrepeated : d.keys.Nodup
  /-- Entries are listed in the order of the names, each with its value. -/
  listed : d.entries.map (fun e => (e.1, some e.2))
    = d.keys.map fun key => (key, d.get? key)
  /-- They are written in this order, too, however deep the dictionary is. -/
  written : ∀ depth, Object.printDict depth d = if d.keys = []
    then ascii "<<>>"
    else ascii "<<\n" ++ (d.keys.flatMap (d.line (depth + 1))
      ++ (indentation depth ++ ascii ">>"))
  /-- Inserting answers the value that stood there, and nothing else. -/
  replaced : ∀ key value old,
    ((Operation.insert key value).run d).1 = some old ↔ Stands key old history
  /-- Removing answers the value that stood there, and nothing else. -/
  removed : ∀ key old,
    ((Operation.remove key).run d).1 = some old ↔ Stands key old history
  /-- A value that is replaced stays at its place. -/
  unmoved : ∀ key value, key ∈ d.keys →
    ((Operation.insert key value).after d).keys = d.keys
  /-- A name that is inserted again after it was removed comes last. -/
  renewed : ∀ key value, (d.afterAll [.remove key, .insert key value]).keys
    = d.keys.filter (! · == key) ++ [key]

/-- A dictionary that recounts a history is the map of it. -/
theorem Recounts.isMapOf {history : List Operation} {d : Dict}
    (h : Recounts history d) : IsMapOf history d := by
  refine { h with
    unrepeated := h.distinct
    listed := entries_eq h.distinct
    written := printDict_eq h.distinct
    replaced := fun key _ => h.value key
    removed := h.value
    unmoved := ?_
    renewed := ?_ }
  · intro key value hkey
    exact (Dictionary.keys_insert d key value).trans (if_pos hkey)
  · intro key value
    show ((d.erase key).insert key value).keys = _
    have hkeys : (d.erase key).keys = d.keys.filter (! · == key) :=
      Dictionary.keys_erase h.distinct
    rw [Dictionary.keys_insert, hkeys, if_neg (by simp)]

/-- **DICTIONARIES ARE MAPS IN THE ORDER OF INSERTION**: after any calls, on the
    empty dictionary or on one that starts with its type, under each name stands
    the value that was inserted last and not removed since, and the names stand
    in the order in which they were first inserted since their removal. -/
theorem isMapOf_afterAll (operations : List Operation) :
    IsMapOf operations (afterAll .empty operations)
      ∧ ∀ type, IsMapOf (.insert (.key "Type") (.name type) :: operations)
        ((ofType type).afterAll operations) := by
  refine ⟨(recounts_afterAll operations recounts_empty).isMapOf, ?_⟩
  intro type
  exact (recounts_afterAll (.insert (.key "Type") (.name type) :: operations)
    recounts_empty).isMapOf

/-- A name that is inserted again comes last, under its new value. -/
example :
    let d := afterAll .empty [.insert (.key "A") .null,
      .pair (.key "B") (.string .literal [1]), .remove (.key "A"),
      .encrypt (List.map (· + 1)), .insert (.key "A") (.bool true)]
    d.keys = [.key "B", .key "A"]
      ∧ d.get? (.key "B") = some (.string .literal [2]) := by
  decide +kernel

end Pdf.Dict
