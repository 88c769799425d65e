import Pdf.Action.Error
import Pdf.Text.Blank
import Pdf.Text.Integer
import Std.Data.ExtTreeMap

/-! # Advances — how far each character moves the text on

    Advances are written as words, alternately a code and its width.  A code may
    occur more than once; its last width counts.  A code without a width has the
    width 0. -/

namespace Pdf

/-- Advances by code. -/
structure Advances where
  widths : Std.ExtTreeMap UInt16 Int32 := .empty

namespace Advances

/-- The width that stands in where a character has none. -/
def standard : Int32 := 1000

/-- A metric that has to fit into 32 bits. -/
def fit (i : Int) : Except Error Int32 :=
  if Int32.minValue.toInt ≤ i ∧ i ≤ Int32.maxValue.toInt then .ok i.toInt32
  else .error .overflow

/-- No advances. -/
def empty : Advances := {}

/-- The advances of some codes; the last width of a code counts. -/
def ofList (pairs : List (UInt16 × Int32)) : Advances := ⟨.ofList pairs⟩

/-- The codes with their widths, in ascending order of codes. -/
def toList (a : Advances) : List (UInt16 × Int32) := a.widths.toList

/-- The width of a code, 0 if it has none. -/
def get (a : Advances) (code : UInt16) : Int32 := a.widths.getD code 0

/-- The number of codes. -/
def size (a : Advances) : Nat := a.widths.size

/-- Whether there is no code. -/
def isEmpty (a : Advances) : Bool := a.widths.isEmpty

/-- The codes and widths that words spell, two words for each. -/
def pairs? : List (List Char) → Option (List (UInt16 × Int32))
  | [] => some []
  | [_] => none
  | code :: width :: rest => do
      let code ← Text.code? code
      let width ← Text.int32? width
      let rest ← pairs? rest
      return (code, width) :: rest

/-- The advances that a text spells. -/
def parse (text : List Char) : Option Advances :=
  (pairs? (Text.words text)).map ofList

end Advances

end Pdf
