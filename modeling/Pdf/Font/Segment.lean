import Pdf.Bytes
import Pdf.Font.Advances
import Std.Data.ExtTreeSet

/-! # Segments — the `/W` and `/W2` arrays of a font

    A font lists the widths of the characters that it uses in segments.  A range
    `first last w` covers two or more consecutive codes of one width; a list
    `first [w₁ w₂ …]` covers consecutive codes no two neighbours of which share
    a width.  `prepend` puts one more code in front of the segments of the
    higher codes, and `segments` builds all of them in this way.  `expand` says
    what a reader makes of a segment.

    The same array can be written in one pass from the lowest code up, with
    three states and no look-ahead (`Advances.horizontalArray_eq_scan`).

    For vertical writing every code stands alone, with its advance and with the
    position of its origin. -/

namespace Pdf

open Bytes (ascii byte)

/-- Some consecutive codes with their widths. -/
inductive Segment where
  /-- All codes from the first to the last have one width. -/
  | range (first last : Nat) (width : Int32)
  /-- The codes from the first one on have these widths. -/
  | list (first : Nat) (width : Int32) (widths : List Int32)
  deriving DecidableEq

namespace Segment

/-- The codes and widths that a segment stands for. -/
def expand : Segment → List (Nat × Int32)
  | range first last width =>
      (List.range' first (last + 1 - first)).map (·, width)
  | list first width widths =>
      ((width :: widths).zipIdx first).map fun (w, code) => (code, w)

/-- Puts a code in front of the segments of higher codes. -/
def prepend (entry : Nat × Int32) : List Segment → List Segment
  | range first last width :: rest =>
      if entry.1 + 1 = first ∧ entry.2 = width then
        range entry.1 last width :: rest
      else list entry.1 entry.2 [] :: range first last width :: rest
  | list first width [] :: rest =>
      if entry.1 + 1 = first ∧ entry.2 = width then
        range entry.1 first width :: rest
      else if entry.1 + 1 = first then list entry.1 entry.2 [width] :: rest
      else list entry.1 entry.2 [] :: list first width [] :: rest
  | list first width (second :: widths) :: rest =>
      if entry.1 + 1 = first ∧ entry.2 = width then
        range entry.1 first width :: list (first + 1) second widths :: rest
      else if entry.1 + 1 = first then
        list entry.1 entry.2 (width :: second :: widths) :: rest
      else
        list entry.1 entry.2 [] :: list first width (second :: widths) :: rest
  | [] => [list entry.1 entry.2 []]

/-- The segments of some codes in ascending order. -/
def ofEntries (entries : List (Nat × Int32)) : List Segment :=
  entries.foldr prepend []

/-- An integer behind a blank. -/
def spaced (width : Int32) : Bytes :=
  byte ' ' :: Bytes.signedDecimal width.toInt

/-- A segment in written form. -/
def print : Segment → Bytes
  | range first last width =>
      Bytes.decimal first ++ byte ' ' :: Bytes.decimal last ++ spaced width
  | list first width widths =>
      Bytes.decimal first ++ byte '[' :: Bytes.signedDecimal width.toInt ++
      widths.flatMap spaced ++ [byte ']']

/-- Segments in written form.  A blank separates a range from what follows; the
    bracket of a list needs none. -/
def printAll : List Segment → Bytes
  | [] => []
  | [s] => s.print
  | range first last width :: rest =>
      (range first last width).print ++ byte ' ' :: printAll rest
  | list first width widths :: rest =>
      (list first width widths).print ++ printAll rest

end Segment

namespace Advances

/-- The codes among some that have a width, with their widths, in ascending
    order. -/
def used (a : Advances) (codes : Std.ExtTreeSet UInt16) :
    List (UInt16 × Int32) :=
  (codes.toList.map fun code => (code, a.get code)).filter (·.2 ≠ 0)

/-- The segments of the codes among some that have a width. -/
def segments (a : Advances) (codes : Std.ExtTreeSet UInt16) : List Segment :=
  Segment.ofEntries
    ((a.used codes).map fun (code, width) => (code.toNat, width))

/-- The `/W` array of some codes, unless none of them has a width. -/
def horizontalArray (a : Advances) (codes : Std.ExtTreeSet UInt16) :
    Option Bytes :=
  match a.segments codes with
  | [] => none
  | segments => some (byte '[' :: Segment.printAll segments ++ [byte ']'])

/-! ## Vertical writing -/

/-- The height of the origin for vertical writing. -/
def originHeight : Nat := 880

/-- The `/W2` entry of a code: the code twice, its advance downwards, and the
    position of its origin, which is half its width to the right. -/
def verticalEntry (horizontal : Advances) : UInt16 × Int32 → Except Error Bytes
  | (code, advance) => do
      let down ← fit (-advance.toInt)
      let width :=
        if horizontal.get code = 0 then standard else horizontal.get code
      return Bytes.decimal code.toNat ++ byte ' ' :: Bytes.decimal code.toNat ++
        Segment.spaced down ++
        byte ' ' :: Bytes.signedDecimal (width.toInt.tdiv 2) ++
        byte ' ' :: Bytes.decimal originHeight ++ [byte ' ']

/-- The `/W2` array of some codes, unless none of them has a vertical
    advance. -/
def verticalArray (vertical horizontal : Advances)
    (codes : Std.ExtTreeSet UInt16) : Except Error (Option Bytes) :=
  match vertical.used codes with
  | [] => .ok none
  | entries => do
      let written ← entries.mapM (verticalEntry horizontal)
      return some (byte '[' :: written.flatten ++ [byte ']'])

end Advances

end Pdf
