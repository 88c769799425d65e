/-! # Integers — decimal numbers read from a text

    A number is one or more ASCII digits, with an optional sign in front: `+`
    everywhere, `-` only where negative numbers exist.  Nothing else may stand
    in the text, and a value that does not fit into the type is no number. -/

namespace Pdf.Text

/-- The value of a text of one or more ASCII digits. -/
def digits? (cs : List Char) : Option Nat :=
  if cs ≠ [] ∧ cs.all Char.isDigit then some (Nat.ofDigitChars 10 cs 0)
  else none

/-- The value of a text of digits with an optional plus sign. -/
def natural? : List Char → Option Nat
  | '+' :: cs => digits? cs
  | cs => digits? cs

/-- The value of a text of digits with an optional sign. -/
def integer? : List Char → Option Int
  | '-' :: cs => (digits? cs).map fun n => -(n : Int)
  | cs => (natural? cs).map Int.ofNat

/-- The 16-bit code that a text spells. -/
def code? (cs : List Char) : Option UInt16 :=
  (natural? cs).bind fun n => if n < UInt16.size then some n.toUInt16 else none

/-- The 32-bit integer that a text spells. -/
def int32? (cs : List Char) : Option Int32 :=
  (integer? cs).bind fun i =>
    if Int32.minValue.toInt ≤ i ∧ i ≤ Int32.maxValue.toInt then some i.toInt32
    else none

end Pdf.Text
