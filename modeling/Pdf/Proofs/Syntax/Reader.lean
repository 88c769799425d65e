import Pdf.Proofs.Syntax.Text

/-! # The object grammar, read

    Objects are read by recursive descent.  The first character behind white
    space tells the kind: a slash, a parenthesis or a bracket, or else a word
    that is a keyword or a number.  A number is the start of a reference if a
    generation and the keyword `R` come next, which takes a look ahead.

    Each turn takes at least one byte, so as many turns as there are bytes are
    enough.

    An object in front of other bytes is read alone if these cannot be taken
    for more of it (`Follows`).  The lemmas of the second half say which bytes
    that is: the closing bracket of an array, the line behind an entry, and
    every further item of an array. -/

namespace Pdf.Syntax

open Bytes (byte ascii)

/-! ## Reading -/

/-- The generation of a reference whose number was just read, and what stands
    behind the keyword `R`. -/
def generation? (bytes : Bytes) : Option (UInt16 × Bytes) :=
  match natural? bytes with
  | none => none
  | some (generation, rest) =>
      match keyword? "R" rest with
      | none => none
      | some rest =>
          if generation < 2 ^ 16 then some (generation.toUInt16, rest) else none

/-- The object that a number begins: a reference if a generation follows, and
    an integer if not. -/
def number? (text rest : Bytes) : Option (Object × Bytes) :=
  match Text.digits? (Bytes.chars text), generation? rest with
  | some number, some (generation, rest) =>
      if number < 2 ^ 32 then
        some (.reference ⟨number.toUInt32, generation⟩, rest)
      else none
  | _, _ => (Text.integer? (Bytes.chars text)).map fun i => (.integer i, rest)

/-- The object that a word is or begins. -/
def atom? (bytes : Bytes) : Option (Object × Bytes) :=
  let (text, rest) := word bytes
  if text = ascii "null" then some (.null, rest)
  else if text = ascii "true" then some (.bool true, rest)
  else if text = ascii "false" then some (.bool false, rest)
  else number? text rest

mutual

/-- The next object, and what stands behind it. -/
def object? : (turns : Nat) → Bytes → Option (Object × Bytes)
  | 0, _ => none
  | turns + 1, bytes =>
      match skipSpace bytes with
      | [] => none
      | b :: rest =>
          if b = byte '/' then (name? rest).map fun p => (.name p.1, p.2)
          else if b = byte '(' then
            (literal? {} rest).map fun p => (.string .literal p.1, p.2)
          else if b = byte '[' then
            (items? turns rest).map fun p => (.array p.1, p.2)
          else if b = byte '<' then
            if rest.head? = some (byte '<') then
              (entries? turns rest.tail).map fun p => (.dictionary ⟨p.1⟩, p.2)
            else (hexString? rest).map fun p => (.string .hex p.1, p.2)
          else atom? (b :: rest)

/-- The items of an array up to its bracket, and what stands behind it. -/
def items? : (turns : Nat) → Bytes → Option (List Object × Bytes)
  | 0, _ => none
  | turns + 1, bytes =>
      if (skipSpace bytes).head? = some (byte ']') then
        some ([], (skipSpace bytes).tail)
      else
        match object? turns bytes with
        | none => none
        | some (item, rest) =>
            (items? turns rest).map fun p => (item :: p.1, p.2)

/-- The entries of a dictionary up to its brackets, and what stands behind
    them. -/
def entries? : (turns : Nat) → Bytes → Option (List (Name × Object) × Bytes)
  | 0, _ => none
  | turns + 1, bytes =>
      match skipSpace bytes with
      | [] => none
      | b :: rest =>
          if b = byte '/' then
            match name? rest with
            | none => none
            | some (key, rest) =>
                match object? turns rest with
                | none => none
                | some (value, rest) =>
                    (entries? turns rest).map
                      fun p => ((key, value) :: p.1, p.2)
          else if b = byte '>' ∧ rest.head? = some (byte '>') then
            some ([], rest.tail)
          else none

end

/-- The object in front of some bytes, and what stands behind it. -/
def read? (bytes : Bytes) : Option (Object × Bytes) :=
  object? bytes.length bytes

/-! ## What may stand behind an object -/

/-- Bytes that cannot be taken for more of an object in front of them. -/
structure Follows (rest : Bytes) : Prop where
  ends : EndsWord rest
  noGeneration : generation? rest = none
  noKeyword : keyword? "R" rest = none

/-- Without a number there is no generation. -/
theorem generation?_of_natural? {bytes : Bytes} (h : natural? bytes = none) :
    generation? bytes = none := by
  rw [generation?, h]

/-- Blanks in front of a generation are skipped. -/
theorem generation?_of_isSpace {b : UInt8} (rest : Bytes)
    (h : isSpace b = true) : generation? (b :: rest) = generation? rest := by
  rw [generation?, natural?_of_isSpace rest h]
  rfl

/-- No number and no keyword starts at a delimiter, behind blanks or not. -/
theorem natural?_of_isDelimiter {b : UInt8} (rest : Bytes)
    (h : isDelimiter b = true) : natural? (b :: rest) = none := by
  rw [natural?, word_of_isDelimiter rest h]
  rfl

theorem keyword?_of_isDelimiter {b : UInt8} (rest : Bytes)
    (h : isDelimiter b = true) : keyword? "R" (b :: rest) = none := by
  rw [keyword?, word_of_isDelimiter rest h]
  exact if_neg (show ([] : Bytes) ≠ ascii "R" by decide)

/-- Nothing may stand behind an object. -/
theorem follows_nil : Follows [] := by
  refine ⟨endsWord_nil, rfl, ?_⟩
  exact if_neg (by decide)

/-- A blank may stand there, if no reference ends behind it. -/
theorem follows_of_isSpace {b : UInt8} {rest : Bytes} (h : isSpace b = true)
    (hgeneration : generation? rest = none)
    (hkeyword : keyword? "R" rest = none) : Follows (b :: rest) := by
  refine ⟨endsWord_cons rest (isRegular_of_isSpace h), ?_, ?_⟩
  · rw [generation?_of_isSpace rest h]
    exact hgeneration
  · rw [keyword?_of_isSpace "R" rest h]
    exact hkeyword

/-- A delimiter may always stand there. -/
theorem follows_of_isDelimiter {b : UInt8} (rest : Bytes)
    (h : isDelimiter b = true) : Follows (b :: rest) :=
  ⟨endsWord_cons rest (isRegular_of_isDelimiter h),
    generation?_of_natural? (natural?_of_isDelimiter rest h),
    keyword?_of_isDelimiter rest h⟩

/-- Blanks up to a delimiter may stand behind every object. -/
theorem follows_of_blanks {blanks : Bytes} {b : UInt8} (rest : Bytes)
    (hblanks : blanks.all isSpace = true) (h : isDelimiter b = true) :
    Follows (blanks ++ b :: rest) := by
  induction blanks with
  | nil => exact follows_of_isDelimiter rest h
  | cons c blanks ih =>
      rw [List.all_cons, Bool.and_eq_true] at hblanks
      have hrest := ih hblanks.2
      exact follows_of_isSpace hblanks.1 hrest.noGeneration hrest.noKeyword

/-- So may a word that is neither a number nor the keyword `R`. -/
theorem follows_of_word {b : UInt8} {t rest : Bytes} (hb : isSpace b = true)
    (hword : (word rest).1 = t) (hnumber : Text.digits? (Bytes.chars t) = none)
    (hkeyword : t ≠ ascii "R") : Follows (b :: rest) := by
  refine follows_of_isSpace hb ?_ ?_
  · refine generation?_of_natural? ?_
    rw [natural?, hword, hnumber]
    rfl
  · rw [keyword?, hword]
    exact if_neg hkeyword

end Pdf.Syntax
