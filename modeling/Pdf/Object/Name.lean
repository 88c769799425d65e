import Pdf.Bytes

/-! # Names and references — what objects are called

    A `Name` labels an entry of a dictionary or stands for a symbol such as
    `/Font`; it is any byte string, and the slash is not part of it.  A `Ref` is
    the identity of a numbered object: its number and its generation.
    References are ordered by number first. -/

namespace Pdf

/-- A name, without the leading slash. -/
structure Name where
  bytes : Bytes
  deriving DecidableEq

namespace Name

/-- The name that a text spells in UTF-8. -/
def ofString (text : String) : Name := ⟨Bytes.utf8 text⟩

/-- A name of the format itself, spelled in ASCII. -/
def key (text : String) : Name := ⟨Bytes.ascii text⟩

/-- Names are ordered byte by byte. -/
instance : Ord Name := ⟨compareOn Name.bytes⟩

end Name

/-- The identity of a numbered object.  Number 0 is the head of the free
    list. -/
structure Ref where
  number : UInt32
  generation : UInt16 := 0
  deriving DecidableEq

namespace Ref

/-- References are ordered by number, then by generation. -/
instance : Ord Ref :=
  ⟨compareLex (compareOn Ref.number) (compareOn Ref.generation)⟩

instance : Std.TransOrd Ref :=
  inferInstanceAs (Std.TransCmp
    (compareLex (compareOn Ref.number) (compareOn Ref.generation)))

instance : Std.LawfulEqOrd Ref where
  eq_of_compare {a b} h := by
    have hab : compareLex (compareOn Ref.number) (compareOn Ref.generation) a b
        = .eq := h
    rw [compareLex_eq_eq] at hab
    have hn : a.number = b.number := Std.LawfulEqOrd.eq_of_compare hab.1
    have hg : a.generation = b.generation := Std.LawfulEqOrd.eq_of_compare hab.2
    cases a; cases b; simp_all

/-- A reference as it is written, such as `3 0 R`. -/
def text (r : Ref) : Bytes :=
  Bytes.decimal r.number.toNat ++ Bytes.byte ' ' ::
  Bytes.decimal r.generation.toNat ++ Bytes.ascii " R"

/-- A reference as messages show it. -/
def describe (r : Ref) : String :=
  toString r.number.toNat ++ " " ++ toString r.generation.toNat ++ " R"

end Ref

end Pdf
