/-! # Blanks — white space, and texts cut at separators

    A blank is a character with the Unicode property White_Space.  Texts are
    trimmed of blanks, and cut into fields wherever a separator stands; `words`
    are the fields between blanks, and `lines` those between line feeds. -/

namespace Pdf.Text

/-- Whether a character has the Unicode property White_Space. -/
def isBlank (c : Char) : Bool :=
  (0x09 ≤ c.toNat && c.toNat ≤ 0x0D) ||
  c.toNat == 0x20 || c.toNat == 0x85 || c.toNat == 0xA0 ||
  c.toNat == 0x1680 || (0x2000 ≤ c.toNat && c.toNat ≤ 0x200A) ||
  c.toNat == 0x2028 || c.toNat == 0x2029 || c.toNat == 0x202F ||
  c.toNat == 0x205F || c.toNat == 0x3000

/-- The text without the blanks at its front. -/
def trimFront (cs : List Char) : List Char := cs.dropWhile isBlank

/-- The text without the blanks at its two ends. -/
def trim (cs : List Char) : List Char :=
  (trimFront (trimFront cs).reverse).reverse

/-- The non-empty pieces of a text between separators. -/
def fields (separates : Char → Bool) (cs : List Char) : List (List Char) :=
  (cs.splitOnP separates).filter (! ·.isEmpty)

/-- The words of a text: what stands between its blanks. -/
def words (cs : List Char) : List (List Char) := fields isBlank cs

/-- The lines of a text: what stands between its line feeds. -/
def lines (cs : List Char) : List (List Char) := cs.splitOnP (· == '\n')

end Pdf.Text
