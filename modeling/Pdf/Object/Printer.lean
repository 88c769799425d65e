import Pdf.Object.Basic

/-! # The written form of objects

    Tokens follow the object grammar.  A name escapes every byte that is not a
    regular character, a literal string escapes its delimiters and the usual
    control characters, and a hexadecimal string writes two digits for each
    byte.  The entries of a dictionary stand on lines of their own, indented by
    two blanks for each dictionary around them; arrays stay on one line and do
    not indent.

    An object gets its number from the lines `n g obj` and `endobj` around it; a
    stream also has its data, between the keywords `stream` and `endstream`. -/

namespace Pdf

open Bytes (byte ascii)

/-! ## Names and strings -/

namespace Name

/-- The printable characters with a meaning of their own, which a name has to
    escape. -/
def delimiters : Bytes := ascii "#()<>[]\x7b\x7d/%"

/-- Whether a byte stands for itself in a written name. -/
def isRegular (b : UInt8) : Bool :=
  byte '!' ≤ b && b ≤ byte '~' && ! delimiters.contains b

/-- A byte of a name as it is written. -/
def escape (b : UInt8) : Bytes :=
  if isRegular b then [b] else byte '#' :: Bytes.hexPair b

/-- A name as it is written. -/
def print (n : Name) : Bytes := byte '/' :: n.bytes.flatMap escape

end Name

namespace StringForm

/-- A byte of a literal string as it is written. -/
def escape (b : UInt8) : Bytes :=
  if b = byte '\\' ∨ b = byte '(' ∨ b = byte ')' then [byte '\\', b]
  else if b = 0x0A then ascii "\\n"
  else if b = 0x0D then ascii "\\r"
  else if b = 0x09 then ascii "\\t"
  else if b = 0x08 then ascii "\\b"
  else if b = 0x0C then ascii "\\f"
  else [b]

/-- A string as it is written. -/
def print (bytes : Bytes) : StringForm → Bytes
  | literal => byte '(' :: bytes.flatMap escape ++ [byte ')']
  | hex => byte '<' :: bytes.flatMap Bytes.hexPair ++ [byte '>']

end StringForm

/-! ## Objects -/

/-- The blanks in front of a line. -/
def indentation (depth : Nat) : Bytes := List.replicate (2 * depth) (byte ' ')

namespace Object

mutual

/-- An object as it is written inside `depth` dictionaries. -/
def print (depth : Nat) : Object → Bytes
  | null => ascii "null"
  | bool true => ascii "true"
  | bool false => ascii "false"
  | integer value => Bytes.signedDecimal value
  | real value => value.text
  | name value => value.print
  | string form bytes => form.print bytes
  | verbatim bytes => bytes
  | array [] => ascii "[]"
  | array (item :: items) =>
      byte '[' ::
        (item.print depth ++ (printFollowing depth items ++ [byte ']']))
  | dictionary entries => printDict depth entries
  | reference target => target.text

/-- The items of an array behind the first one. -/
def printFollowing (depth : Nat) : List Object → Bytes
  | [] => []
  | item :: items =>
      byte ' ' :: (item.print depth ++ printFollowing depth items)

/-- A dictionary as it is written inside `depth` other ones. -/
def printDict (depth : Nat) : Dictionary Object → Bytes
  | ⟨[]⟩ => ascii "<<>>"
  | ⟨entry :: entries⟩ =>
      ascii "<<\n" ++ (printEntry (depth + 1) entry ++
        (printEntries (depth + 1) entries ++ (indentation depth ++ ascii ">>")))

/-- The lines of some entries. -/
def printEntries (depth : Nat) : List (Name × Object) → Bytes
  | [] => []
  | entry :: entries => printEntry depth entry ++ printEntries depth entries

/-- The line of an entry. -/
def printEntry (depth : Nat) : Name × Object → Bytes
  | (key, value) =>
      indentation depth
        ++ (key.print ++ byte ' ' :: (value.print depth ++ [byte '\n']))

end

/-- An object in written form. -/
def written (o : Object) : Bytes := o.print 0

end Object

namespace Dict

/-- A dictionary in written form. -/
def written (d : Dict) : Bytes := Object.printDict 0 d

end Dict

/-! ## Numbered objects -/

namespace Ref

/-- The line that opens a numbered object. -/
def opening (r : Ref) : Bytes :=
  Bytes.decimal r.number.toNat ++ byte ' ' ::
  Bytes.decimal r.generation.toNat ++ ascii " obj\n"

end Ref

namespace Object

/-- An object in written form, under its number. -/
def numbered (r : Ref) (o : Object) : Bytes :=
  r.opening ++ o.written ++ ascii "\nendobj\n\n"

end Object

/-- A stream in written form, under its number. -/
def numberedStream (r : Ref) (d : Dict) (data : Bytes) : Bytes :=
  r.opening ++ d.written ++ ascii "\nstream\n" ++ data
    ++ ascii "\nendstream\nendobj\n\n"

end Pdf
