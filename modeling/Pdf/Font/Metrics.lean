import Pdf.Font.Advances

/-! # Font metrics — the record of a font

    A record is a text of lines `key=value` or `key:value`, with comments.  It
    becomes a map from keys to values, and from that the metrics of a font:
    numbers, three texts, a bounding box and two lists of advances.  A field
    that is missing or malformed is reported by its name; of several such
    fields, the one that is read first. -/

namespace Pdf

/-- The values of a metric record by key. -/
abbrev Record : Type := Std.ExtTreeMap String String

namespace Record

/-- Whether a line, without the blanks at its front, holds an entry. -/
def isEntry : List Char → Bool
  | [] => false
  | c :: _ => c ≠ '#' && c ≠ '!'

/-- Whether a character separates a key from its value. -/
def separates (c : Char) : Bool := c == '=' || c == ':'

/-- The key and the value of a line: what stands before and behind the first
    separator. -/
def entry? (line : List Char) : Option (String × String) :=
  match line.dropWhile (! separates ·) with
  | [] => none
  | _ :: value =>
      some (String.ofList (Text.trim (line.takeWhile (! separates ·))),
        String.ofList (Text.trim value))

/-- The entries of a text, in order. -/
def entries (text : String) : List (String × String) :=
  (((Text.lines text.toList).map Text.trimFront).filter isEntry).filterMap
    entry?

/-- The record that a text spells; of several values under one key the last one
    counts. -/
def parse (text : String) : Record := .ofList (entries text)

end Record

/-- A rectangle around all characters of a font. -/
structure BoundingBox where
  left : Int32
  bottom : Int32
  right : Int32
  top : Int32
  deriving DecidableEq

namespace BoundingBox

/-- The four numbers of the rectangle, lower left corner first. -/
def toList (b : BoundingBox) : List Int32 := [b.left, b.bottom, b.right, b.top]

/-- Whether a character separates the numbers of a rectangle. -/
def separates (c : Char) : Bool := c == '[' || c == ']' || Text.isBlank c

/-- The rectangle that a text spells; parts behind the fourth one do not
    count. -/
def parse (text : List Char) : Option BoundingBox :=
  match Text.fields separates text with
  | left :: bottom :: right :: top :: _ => do
      return ⟨← Text.int32? left, ← Text.int32? bottom, ← Text.int32? right,
        ← Text.int32? top⟩
  | _ => none

end BoundingBox

/-- The metrics of a font, in thousandths of its size. -/
structure FontMetrics where
  ascent : Int32
  capHeight : Int32
  descent : Int32
  flags : Int32
  bbox : BoundingBox
  /-- The slant, in degrees. -/
  italicAngle : Int32
  stemV : Int32
  panose : String
  registry : String
  ordering : String
  supplement : Int32
  /-- The horizontal advances. -/
  widths : Advances
  /-- The vertical advances; a font without vertical writing has none. -/
  verticalWidths : Advances

namespace FontMetrics

/-! ## Reading -/

/-- The value of a field without the blanks at its ends. -/
def text (font : String) (record : Record) (field : String) :
    Except Error (List Char) :=
  match record[field]? with
  | some value => .ok (Text.trim value.toList)
  | none => .error (.malformedField font field)

/-- The value of a field in some form. -/
def formed {α : Type} (font : String) (field : String) :
    Option α → Except Error α
  | some value => .ok value
  | none => .error (.malformedField font field)

/-- The value of a field that is a number. -/
def number (font : String) (record : Record) (field : String) :
    Except Error Int32 := do
  formed font field (Text.int32? (← text font record field))

/-- The value of a field that is a text. -/
def string (font : String) (record : Record) (field : String) :
    Except Error String := do
  return String.ofList (← text font record field)

/-- The vertical advances, which may be missing. -/
def vertical (font : String) (record : Record) : Except Error Advances :=
  match record["W2"]? with
  | some value => formed font "W2" (Advances.parse value.toList)
  | none => .ok .empty

/-- The metrics that a record holds. -/
def parse (font : String) (record : Record) : Except Error FontMetrics := do
  let bbox ←
    formed font "FontBBox" (BoundingBox.parse (← text font record "FontBBox"))
  let widths ← formed font "W" (Advances.parse (← text font record "W"))
  let verticalWidths ← vertical font record
  let ascent ← number font record "Ascent"
  let capHeight ← number font record "CapHeight"
  let descent ← number font record "Descent"
  let flags ← number font record "Flags"
  let italicAngle ← number font record "ItalicAngle"
  let stemV ← number font record "StemV"
  let panose ← string font record "Panose"
  let registry ← string font record "Registry"
  let ordering ← string font record "Ordering"
  let supplement ← number font record "Supplement"
  return ⟨ascent, capHeight, descent, flags, bbox, italicAngle, stemV, panose,
    registry, ordering, supplement, widths, verticalWidths⟩

/-! ## Queries -/

/-- A metric that can be asked for at a size. -/
inductive Query where
  | ascent
  | capHeight
  | descent
  | italicAngle
  | left
  | bottom
  | right
  | top
  /-- The width of the bounding box. -/
  | maxAdvance
  deriving DecidableEq

/-- The value of a metric in thousandths of a size. -/
def scaled (units : Int32) (size : Float32) : Float32 :=
  units.toFloat32 * size / 1000.0

/-- A metric for a size.  The slant does not depend on it. -/
def measure (m : FontMetrics) (query : Query) (size : Float32) :
    Except Error Float32 :=
  match query with
  | .ascent => .ok (scaled m.ascent size)
  | .capHeight => .ok (scaled m.capHeight size)
  | .descent => .ok (scaled m.descent size)
  | .italicAngle => .ok m.italicAngle.toFloat32
  | .left => .ok (scaled m.bbox.left size)
  | .bottom => .ok (scaled m.bbox.bottom size)
  | .right => .ok (scaled m.bbox.right size)
  | .top => .ok (scaled m.bbox.top size)
  | .maxAdvance =>
      match Advances.fit (m.bbox.right.toInt - m.bbox.left.toInt) with
      | .ok units => .ok (scaled units size)
      | .error e => .error e

end FontMetrics

end Pdf
