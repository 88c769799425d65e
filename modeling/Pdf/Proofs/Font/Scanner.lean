import Pdf.Proofs.Font.Compaction

/-! # The scanner — segments written in one pass

    A `/W` array can be written from left to right, with no look-ahead.  The
    scanner keeps the last entry back, since the form of its segment shows only
    with the next one.  It is in one of three states: behind the first code of
    a segment (`first`), inside a list (`bracket`), or inside a range
    (`serial`).

    The segments of the same entries are put together from the highest code
    down.  The two agree because of one invariant: what the scanner still
    writes is a function of its state and of the segments of the entries that
    it has not written, its last one among them (`remainder`).  One step of the
    scanner takes the remainder of the segments with the last entry in front to
    the remainder of those without it (`step_remainder`), and a whole scan
    follows by induction (`scanFrom_eq`).  So the array of some codes is what
    the scanner writes for them (`horizontalArray_eq_scan`). -/

namespace Pdf

open Bytes (byte)

namespace Scanner

/-! ## One pass over the entries -/

/-- Where the scanner stands in the array. -/
inductive State where
  /-- Behind the first code of a segment, whose form is not known yet. -/
  | first
  /-- Inside a list, in front of the width of the last entry. -/
  | bracket
  /-- Inside a range, in front of its last code. -/
  | serial

/-- The state behind the next entry, and what is written on the way there. -/
def step (state : State) (last next : Nat × Int32) : State × Bytes :=
  let isNext := next.1 = last.1 + 1
  match state with
  | .first =>
      if isNext ∧ next.2 = last.2 then (.serial, [])
      else if isNext then
        (.bracket, byte '[' :: Bytes.signedDecimal last.2.toInt)
      else
        (.first, byte '[' :: Bytes.signedDecimal last.2.toInt
          ++ byte ']' :: Bytes.decimal next.1)
  | .bracket =>
      if isNext ∧ next.2 = last.2 then
        (.serial, byte ']' :: Bytes.decimal last.1)
      else if isNext then (.bracket, Segment.spaced last.2)
      else
        (.first, Segment.spaced last.2 ++ byte ']' :: Bytes.decimal next.1)
  | .serial =>
      if isNext ∧ next.2 = last.2 then (.serial, [])
      else
        (.first, byte ' ' :: Bytes.decimal last.1 ++ Segment.spaced last.2
          ++ byte ' ' :: Bytes.decimal next.1)

/-- What is written when there is no next entry. -/
def close (last : Nat × Int32) : State → Bytes
  | .first =>
      byte '[' :: Bytes.signedDecimal last.2.toInt ++ [byte ']', byte ']']
  | .bracket => Segment.spaced last.2 ++ [byte ']', byte ']']
  | .serial =>
      byte ' ' :: Bytes.decimal last.1 ++ Segment.spaced last.2 ++ [byte ']']

/-- What is written from a state on. -/
def scanFrom (state : State) (last : Nat × Int32) :
    List (Nat × Int32) → Bytes
  | [] => close last state
  | next :: entries =>
      (step state last next).2
        ++ scanFrom (step state last next).1 next entries

/-- The array of some entries in ascending order, unless there are none. -/
def scan : List (Nat × Int32) → Option Bytes
  | [] => none
  | e :: entries =>
      some (byte '[' :: Bytes.decimal e.1 ++ scanFrom .first e entries)

end Scanner

namespace Segment

/-! ## The parts of written segments -/

/-- The first code of a segment, with its width. -/
def head : Segment → Nat × Int32
  | range first _ width => (first, width)
  | list first width _ => (first, width)

/-- What stands behind the first code of a segment. -/
def body : Segment → Bytes
  | range _ last width => byte ' ' :: Bytes.decimal last ++ spaced width
  | list _ width widths =>
      byte '[' :: Bytes.signedDecimal width.toInt ++ widths.flatMap spaced
        ++ [byte ']']

/-- Segments up to the end of the array. -/
def closed (segments : List Segment) : Bytes := printAll segments ++ [byte ']']

/-- Segments without their first code, up to the end of the array. -/
def behindCode : List Segment → Bytes
  | [] => []
  | s :: segments => s.body ++ (separator s segments ++ closed segments)

/-- A segment begins with the code of its first entry. -/
theorem print_eq (s : Segment) :
    s.print = Bytes.decimal s.head.1 ++ s.body := by
  cases s with
  | range first last width => simp [print, head, body]
  | list first width widths => simp [print, head, body]

/-- The first code stands in front of all that is written up to the end. -/
theorem closed_cons (s : Segment) (segments : List Segment) :
    closed (s :: segments)
      = Bytes.decimal s.head.1 ++ behindCode (s :: segments) := by
  rw [closed, printAll_cons, print_eq, behindCode, closed]
  simp only [List.append_assoc]

/-- Where a range begins makes no difference to what stands behind it. -/
theorem behindCode_range (first first' last : Nat) (width : Int32)
    (segments : List Segment) :
    behindCode (range first last width :: segments)
      = behindCode (range first' last width :: segments) := by
  cases segments <;> rfl

/-- Segments begin with the entry that was put in front of them. -/
theorem exists_prepend_eq (e : Nat × Int32) (segments : List Segment) :
    ∃ s rest, prepend e segments = s :: rest ∧ s.head = e := by
  obtain ⟨code, w⟩ := e
  cases segments with
  | nil => exact ⟨_, _, rfl, rfl⟩
  | cons s rest =>
      cases s with
      | range first last width =>
          rw [prepend]
          split
          · next hjoin => exact ⟨_, _, rfl, congrArg _ hjoin.2.symm⟩
          · exact ⟨_, _, rfl, rfl⟩
      | list first width widths =>
          cases widths with
          | nil =>
              rw [prepend]
              split
              · next hjoin => exact ⟨_, _, rfl, congrArg _ hjoin.2.symm⟩
              · split <;> exact ⟨_, _, rfl, rfl⟩
          | cons second widths =>
              rw [prepend]
              split
              · next hjoin => exact ⟨_, _, rfl, congrArg _ hjoin.2.symm⟩
              · split <;> exact ⟨_, _, rfl, rfl⟩

end Segment

namespace Scanner

open Segment

/-! ## What is still to be written -/

/-- Segments whose first code is taken into a range that is already open.  A
    list gives it away. -/
def joined : List Segment → List Segment
  | list first width [] :: segments => range first first width :: segments
  | list first width (second :: widths) :: segments =>
      range first first width :: list (first + 1) second widths :: segments
  | segments => segments

/-- A range is only carried on. -/
theorem joined_range (first last : Nat) (width : Int32)
    (segments : List Segment) :
    joined (range first last width :: segments)
      = range first last width :: segments := rfl

/-- Segments whose first code is to stand in a list that is already open.  A
    range closes it. -/
def insideList : List Segment → Bytes
  | list _ width widths :: segments =>
      spaced width ++ (widths.flatMap spaced ++ byte ']' :: closed segments)
  | segments => byte ']' :: closed segments

/-- What is still written in a state, if the last entry is the first one of
    some segments. -/
def remainder (segments : List Segment) : State → Bytes
  | .first => behindCode segments
  | .bracket => insideList segments
  | .serial => behindCode (joined segments)

/-- At the end the last entry is a list of its own. -/
theorem close_eq (last : Nat × Int32) (state : State) :
    close last state = remainder (prepend last []) state := by
  cases state <;>
    simp [close, remainder, prepend, behindCode, joined, insideList, body,
      separator, closed, printAll]

/-- Behind a gap the last entry is a list of its own. -/
theorem prepend_of_gap {code : Nat} {e : Nat × Int32} (w : Int32) {s : Segment}
    (segments : List Segment) (hs : s.head = e) (hgap : code + 1 ≠ e.1) :
    prepend (code, w) (s :: segments) = list code w [] :: s :: segments := by
  subst hs
  have hjoin (v : Int32) : ¬ (code + 1 = s.head.1 ∧ w = v) :=
    fun hj => hgap hj.1
  cases s with
  | range first last width => exact if_neg (hjoin width)
  | list first width widths =>
      cases widths with
      | nil => exact (if_neg (hjoin width)).trans (if_neg hgap)
      | cons second widths =>
          exact (if_neg (hjoin width)).trans (if_neg hgap)

/-- A next entry of the same width is taken into a range. -/
theorem prepend_of_same {code : Nat} {w : Int32} {s : Segment}
    (segments : List Segment) (hs : s.head = (code + 1, w)) :
    ∃ last rest,
      joined (s :: segments) = range (code + 1) last w :: rest
        ∧ prepend (code, w) (s :: segments) = range code last w :: rest := by
  cases s with
  | range first last width =>
      obtain ⟨rfl, rfl⟩ := Prod.mk.inj hs
      exact ⟨last, segments, rfl, if_pos ⟨rfl, rfl⟩⟩
  | list first width widths =>
      obtain ⟨rfl, rfl⟩ := Prod.mk.inj hs
      cases widths with
      | nil => exact ⟨_, segments, rfl, if_pos ⟨rfl, rfl⟩⟩
      | cons second widths => exact ⟨_, _, rfl, if_pos ⟨rfl, rfl⟩⟩

/-- A range that reaches to the next entry does not take in another width. -/
theorem prepend_range_of_ne {code last : Nat} {w width : Int32}
    (segments : List Segment) (hw : w ≠ width) :
    prepend (code, w) (range (code + 1) last width :: segments)
      = list code w [] :: range (code + 1) last width :: segments :=
  if_neg fun hjoin => hw hjoin.2

/-- A list that begins with the next entry takes in another width. -/
theorem prepend_list_of_ne {code : Nat} {w width : Int32}
    (widths : List Int32) (segments : List Segment) (hw : w ≠ width) :
    prepend (code, w) (list (code + 1) width widths :: segments)
      = list code w (width :: widths) :: segments := by
  have hjoin : ¬ (code + 1 = code + 1 ∧ w = width) := fun hj => hw hj.2
  cases widths with
  | nil => exact (if_neg hjoin).trans (if_pos rfl)
  | cons second widths => exact (if_neg hjoin).trans (if_pos rfl)

/-- In front of a next entry of the same width, a range is open or begins. -/
theorem step_remainder_of_same (state : State) (code : Nat) (w : Int32)
    {s : Segment} (segments : List Segment) (hs : s.head = (code + 1, w)) :
    (step state (code, w) (code + 1, w)).2
        ++ remainder (s :: segments) (step state (code, w) (code + 1, w)).1
      = remainder (prepend (code, w) (s :: segments)) state := by
  obtain ⟨last, rest, hjoined, hprepend⟩ := prepend_of_same segments hs
  have hserial : behindCode (joined (s :: segments))
      = behindCode (range code last w :: rest) := by
    rw [hjoined, behindCode_range]
  have hrange := closed_cons (range code last w) rest
  rw [hprepend]
  cases state with
  | first => simp [step, remainder, hserial]
  | bracket => simp [step, remainder, hserial, insideList, hrange, head]
  | serial => simp [step, remainder, hserial, joined_range]

/-- In front of a next entry of another width, a list is open or begins, unless
    that entry begins a range. -/
theorem step_remainder_of_other (state : State) (code : Nat) {w v : Int32}
    (hw : w ≠ v) {s : Segment} (segments : List Segment)
    (hs : s.head = (code + 1, v)) :
    (step state (code, w) (code + 1, v)).2
        ++ remainder (s :: segments) (step state (code, w) (code + 1, v)).1
      = remainder (prepend (code, w) (s :: segments)) state := by
  have hclosed := closed_cons s segments
  cases s with
  | range first last width =>
      obtain ⟨rfl, rfl⟩ := Prod.mk.inj hs
      rw [prepend_range_of_ne segments hw]
      cases state <;>
        simp [step, hw.symm, remainder, hclosed, insideList, joined, behindCode,
          body, separator, head]
  | list first width widths =>
      obtain ⟨rfl, rfl⟩ := Prod.mk.inj hs
      rw [prepend_list_of_ne widths segments hw]
      cases state <;>
        simp [step, hw.symm, remainder, hclosed, insideList, joined, behindCode,
          body, separator, head]

/-- In front of a gap, what is open ends with the last entry. -/
theorem step_remainder_of_gap (state : State) {code : Nat} (w : Int32)
    {next : Nat × Int32} (hgap : code + 1 ≠ next.1) {s : Segment}
    (segments : List Segment) (hs : s.head = next) :
    (step state (code, w) next).2
        ++ remainder (s :: segments) (step state (code, w) next).1
      = remainder (prepend (code, w) (s :: segments)) state := by
  have hclosed := closed_cons s segments
  rw [hs] at hclosed
  rw [prepend_of_gap w segments hs hgap]
  cases state <;>
    simp [step, hgap.symm, remainder, hclosed, insideList, joined, behindCode,
      body, separator]

/-- **ONE STEP**: what the scanner writes for the next entry is what segments
    that begin with it get in front of them for the last one. -/
theorem step_remainder (state : State) (last : Nat × Int32) {next : Nat × Int32}
    {s : Segment} (segments : List Segment) (hs : s.head = next) :
    (step state last next).2
        ++ remainder (s :: segments) (step state last next).1
      = remainder (prepend last (s :: segments)) state := by
  obtain ⟨code, w⟩ := last
  obtain ⟨nextCode, v⟩ := next
  by_cases hnext : code + 1 = nextCode
  · subst hnext
    by_cases hsame : w = v
    · subst hsame
      exact step_remainder_of_same state code w segments hs
    · exact step_remainder_of_other state code hsame segments hs
  · exact step_remainder_of_gap state w hnext segments hs

/-- **ONE PASS**: from each state the scanner writes what is missing of the
    segments of the entries. -/
theorem scanFrom_eq (state : State) (last : Nat × Int32)
    (entries : List (Nat × Int32)) :
    scanFrom state last entries
      = remainder (ofEntries (last :: entries)) state := by
  induction entries generalizing state last with
  | nil => exact close_eq last state
  | cons next entries ih =>
      obtain ⟨s, rest, hprepend, hs⟩ :=
        exists_prepend_eq next (ofEntries entries)
      have hnext : ofEntries (next :: entries) = s :: rest := hprepend
      have hlast : ofEntries (last :: next :: entries)
          = prepend last (s :: rest) :=
        congrArg (prepend last) hnext
      rw [scanFrom, ih, hnext, hlast, step_remainder state last rest hs]

/-- **THE SCANNER WRITES THE SEGMENTS** of any entries, in brackets, and
    nothing if there are no entries. -/
theorem scan_eq (entries : List (Nat × Int32)) :
    scan entries
      = match ofEntries entries with
        | [] => none
        | segments => some (byte '[' :: printAll segments ++ [byte ']']) := by
  cases entries with
  | nil => rfl
  | cons e entries =>
      obtain ⟨s, rest, hprepend, rfl⟩ := exists_prepend_eq e (ofEntries entries)
      have hsegments : ofEntries (s.head :: entries) = s :: rest := hprepend
      have hclosed := closed_cons s rest
      rw [scan, scanFrom_eq, hsegments, remainder, List.cons_append, ← hclosed]
      rfl

end Scanner

namespace Advances

/-- **THE `/W` ARRAY IS WRITTEN IN ONE PASS**: it is what the scanner makes of
    the codes that have a width. -/
theorem horizontalArray_eq_scan (a : Advances) (codes : Std.ExtTreeSet UInt16) :
    a.horizontalArray codes
      = Scanner.scan ((a.used codes).map fun e => (e.1.toNat, e.2)) := by
  rw [Scanner.scan_eq]
  rfl

end Advances

end Pdf
