import Pdf.Bytes

/-! # Real numbers — single-precision values and their decimal text

    Every finite single-precision number is a whole multiple of 2^-149, so its
    text is chosen in exact arithmetic.  A number that is an integer, or at most
    two representable steps away from one, is written as that integer.  Any
    other number is rounded to five places, a tie going to the even neighbour.
    Both cases are a multiple of 10^-5 (`scaled`), and `scaledText` writes such
    a multiple without zeros at the end and without a sign on zero.

    A number that is not finite has no text of its own; zero stands in its
    place. -/

namespace Pdf

/-- A single-precision number, given by its bits. -/
structure Single where
  bits : UInt32
  deriving DecidableEq

namespace Single

/-- The bit of the sign. -/
def signBit : Nat := 1 <<< 31

/-- The bit above those of the fraction, which a number in full precision does
    not store. -/
def hiddenBit : Nat := 1 <<< 23

/-- The number one, in units of 2^-149. -/
def one : Nat := 1 <<< 149

/-- The number one, in units of 10^-5. -/
def decimalOne : Nat := 100000

/-- The bits below the sign. -/
def unsignedBits (x : Single) : Nat := x.bits.toNat % signBit

/-- Whether the sign bit is set. -/
def isNegative (x : Single) : Bool := signBit ≤ x.bits.toNat

/-- Whether the number is neither infinite nor undefined. -/
def isFinite (x : Single) : Bool := x.unsignedBits < 255 * hiddenBit

/-- Whether the bits stand for no number at all. -/
def isUndefined (x : Single) : Bool := 255 * hiddenBit < x.unsignedBits

/-- The magnitude that unsigned bits stand for, in units of 2^-149. -/
def magnitudeOfBits (bits : Nat) : Nat :=
  if bits < hiddenBit then bits
  else (hiddenBit + bits % hiddenBit) <<< (bits / hiddenBit - 1)

/-- The magnitude of a finite number, in units of 2^-149. -/
def magnitude (x : Single) : Nat := magnitudeOfBits x.unsignedBits

/-- The integer nearest to the magnitude; a half goes up. -/
def nearestInteger (x : Single) : Nat := (x.magnitude + one / 2) / one

/-- Whether the nearest integer is a number at most two representable steps
    away. -/
def isNearInteger (x : Single) : Bool :=
  [0, 1, 2, 3, 4].any fun step =>
    magnitudeOfBits (x.unsignedBits + step - 2) == x.nearestInteger * one

/-- The integer nearest to a quotient; a half goes to the even neighbour. -/
def roundQuotient (num den : Nat) : Nat :=
  if 2 * (num % den) < den then num / den
  else if den < 2 * (num % den) then num / den + 1
  else num / den + num / den % 2

/-- The magnitude of the text, in units of 10^-5. -/
def scaledMagnitude (x : Single) : Nat :=
  if x.isNearInteger then x.nearestInteger * decimalOne
  else roundQuotient (x.magnitude * decimalOne) one

/-- The number that the text denotes, in units of 10^-5. -/
def scaled (x : Single) : Int :=
  if x.isFinite then
    if x.isNegative then -(x.scaledMagnitude : Int) else x.scaledMagnitude
  else 0

/-- The places after the point for a fraction in units of 10^-5, up to the last
    digit that is not zero. -/
def places (fraction : Nat) : Bytes :=
  ((Bytes.paddedDecimal 5 fraction).reverse.dropWhile
    (· == Bytes.byte '0')).reverse

/-- A multiple of 10^-5 as a decimal number. -/
def scaledText (i : Int) : Bytes :=
  (if i < 0 then [Bytes.byte '-'] else []) ++
  Bytes.decimal (i.natAbs / decimalOne) ++
  (if i.natAbs % decimalOne = 0 then []
   else Bytes.byte '.' :: places (i.natAbs % decimalOne))

/-- The text of a number in a file. -/
def text (x : Single) : Bytes := scaledText x.scaled

/-- What messages call a number that is not finite. -/
def nonFiniteName (x : Single) : String :=
  if x.isUndefined then "NaN" else if x.isNegative then "-inf" else "inf"

end Single

end Pdf
