import Pdf.Object.Printer
import Pdf.Proofs.Bytes.Spelling

/-! # Words — what a reader sees of the bytes of a file

    A reader of the format divides bytes into white space, delimiters and
    regular characters.  A word is a longest run of regular characters, and
    white space in front of it means nothing.  Keywords and numbers are words.

    A word takes all that it can get, so what was printed is read back if
    nothing regular stands behind it (`EndsWord`). -/

namespace Pdf.Syntax

open Bytes (byte ascii)

/-- White space of the format. -/
def isSpace (b : UInt8) : Bool :=
  b == 0x00 || b == 0x09 || b == 0x0A || b == 0x0C || b == 0x0D || b == 0x20

/-- The characters that end a word and begin something of their own. -/
def isDelimiter (b : UInt8) : Bool := (ascii "()<>[]\x7b\x7d/%").contains b

/-- All other characters. -/
def isRegular (b : UInt8) : Bool := !isSpace b && !isDelimiter b

/-- The bytes behind white space. -/
def skipSpace (bytes : Bytes) : Bytes := bytes.dropWhile isSpace

/-- The regular characters in front, and what stands behind them. -/
def run (bytes : Bytes) : Bytes × Bytes :=
  (bytes.takeWhile isRegular, bytes.dropWhile isRegular)

/-- The next word, and what stands behind it. -/
def word (bytes : Bytes) : Bytes × Bytes := run (skipSpace bytes)

/-- What stands behind a keyword, if it is the next word. -/
def keyword? (keyword : String) (bytes : Bytes) : Option Bytes :=
  if (word bytes).1 = ascii keyword then some (word bytes).2 else none

/-- The next word as a natural number, and what stands behind it. -/
def natural? (bytes : Bytes) : Option (Nat × Bytes) :=
  (Text.digits? (Bytes.chars (word bytes).1)).map fun n => (n, (word bytes).2)

/-- A word with nothing around it. -/
def isWord (t : Bytes) : Bool := !t.isEmpty && t.all isRegular

/-- No regular character stands in front. -/
def EndsWord (rest : Bytes) : Prop := ∀ b ∈ rest.head?, isRegular b = false

/-! ## Single bytes -/

/-- No regular byte is a blank. -/
theorem isSpace_of_isRegular {b : UInt8} (h : isRegular b = true) :
    isSpace b = false := by
  rw [isRegular, Bool.and_eq_true] at h
  simpa using h.1

theorem isRegular_of_isSpace {b : UInt8} (h : isSpace b = true) :
    isRegular b = false := by
  rw [isRegular, h]
  rfl

theorem isRegular_of_isDelimiter {b : UInt8} (h : isDelimiter b = true) :
    isRegular b = false := by
  rw [isRegular, h]
  exact Bool.and_false _

/-- No delimiter is a blank. -/
theorem isSpace_of_isDelimiter (b : UInt8) :
    isDelimiter b = true → isSpace b = false := by
  revert b
  exact forall_byte (by decide +kernel)

/-- What a name does not escape is regular. -/
theorem isRegular_of_name (b : UInt8) :
    Name.isRegular b = true → isRegular b = true := by
  revert b
  exact forall_byte (by decide +kernel)

/-- The two hexadecimal digits of a byte are regular. -/
theorem isRegular_hexDigit (b : UInt8) :
    isRegular (Bytes.hexDigit (b / 16)) = true
      ∧ isRegular (Bytes.hexDigit (b % 16)) = true := by
  revert b
  exact forall_byte (by decide +kernel)

theorem isRegular_byte_of_isDigit {c : Char} :
    c.isDigit = true → isRegular (byte c) = true :=
  forall_digit (P := fun c => isRegular (byte c) = true) (by decide)

/-- The digits of a number are regular. -/
theorem isRegular_of_mem_decimal {n : Nat} {b : UInt8}
    (h : b ∈ Bytes.decimal n) : isRegular b = true := by
  obtain ⟨c, hc, rfl⟩ := List.mem_map.mp h
  exact isRegular_byte_of_isDigit (Bytes.isDigit_of_mem_toDigits hc)

/-! ## Where words end -/

/-- The end of the bytes ends a word. -/
theorem endsWord_nil : EndsWord [] := by
  intro b hb
  exact nomatch hb

/-- A byte that is not regular ends a word. -/
theorem endsWord_cons {b : UInt8} (rest : Bytes) (h : isRegular b = false) :
    EndsWord (b :: rest) := by
  intro b' hb'
  have he : b = b' := Option.some.inj hb'
  rw [← he]
  exact h

theorem endsWord_blank (rest : Bytes) : EndsWord (byte ' ' :: rest) :=
  endsWord_cons rest (by decide)

theorem endsWord_line (rest : Bytes) : EndsWord (byte '\n' :: rest) :=
  endsWord_cons rest (by decide)

/-- A run of regular characters ends where nothing regular follows. -/
theorem run_append {t rest : Bytes} (ht : ∀ b ∈ t, isRegular b = true)
    (hrest : EndsWord rest) : run (t ++ rest) = (t, rest) := by
  -- nothing of what follows belongs to the run
  have hends : rest.takeWhile isRegular = []
      ∧ rest.dropWhile isRegular = rest := by
    cases rest with
    | nil => exact ⟨rfl, rfl⟩
    | cons b rest =>
        have hb : ¬ isRegular b = true := by
          rw [hrest b rfl]
          exact Bool.false_ne_true
        exact ⟨List.takeWhile_cons_of_neg hb, List.dropWhile_cons_of_neg hb⟩
  show ((t ++ rest).takeWhile isRegular, (t ++ rest).dropWhile isRegular)
    = (t, rest)
  rw [List.takeWhile_append_of_pos ht, List.dropWhile_append_of_pos ht,
    hends.1, hends.2, List.append_nil]

/-- A blank is skipped. -/
theorem skipSpace_of_isSpace {b : UInt8} (rest : Bytes)
    (h : isSpace b = true) : skipSpace (b :: rest) = skipSpace rest :=
  List.dropWhile_cons_of_pos h

/-- A byte that is not blank is not skipped. -/
theorem skipSpace_of_not {b : UInt8} (rest : Bytes)
    (h : isSpace b = false) : skipSpace (b :: rest) = b :: rest :=
  List.dropWhile_cons_of_neg (by rw [h]; exact Bool.false_ne_true)

/-- Any number of blanks is skipped. -/
theorem skipSpace_append {blanks : Bytes} (rest : Bytes)
    (h : blanks.all isSpace = true) :
    skipSpace (blanks ++ rest) = skipSpace rest :=
  List.dropWhile_append_of_pos (List.all_eq_true.mp h)

/-! ## Words -/

/-- A word has a byte, and none that is not regular. -/
theorem isWord_iff {t : Bytes} :
    isWord t = true ↔ t ≠ [] ∧ ∀ b ∈ t, isRegular b = true := by
  rw [isWord, Bool.and_eq_true, List.all_eq_true]
  refine and_congr_left fun _ => ?_
  cases t with
  | nil => decide
  | cons b t => exact iff_of_true rfl (List.cons_ne_nil b t)

/-- Blanks in front of a word are skipped. -/
theorem word_of_isSpace {b : UInt8} (rest : Bytes) (h : isSpace b = true) :
    word (b :: rest) = word rest :=
  congrArg run (skipSpace_of_isSpace rest h)

/-- No word starts at a delimiter. -/
theorem word_of_isDelimiter {b : UInt8} (rest : Bytes)
    (h : isDelimiter b = true) : word (b :: rest) = ([], b :: rest) := by
  have hs : skipSpace (b :: rest) = b :: rest :=
    skipSpace_of_not rest (isSpace_of_isDelimiter b h)
  rw [word, hs]
  exact run_append (t := []) (by intro c hc; exact nomatch hc)
    (endsWord_cons rest (isRegular_of_isDelimiter h))

/-- A word is read as far as it goes. -/
theorem word_append {t rest : Bytes} (h : isWord t = true)
    (hrest : EndsWord rest) : word (t ++ rest) = (t, rest) := by
  obtain ⟨hne, ht⟩ := isWord_iff.mp h
  cases t with
  | nil => exact absurd rfl hne
  | cons b t =>
      have hs : skipSpace (b :: t ++ rest) = b :: t ++ rest :=
        skipSpace_of_not _ (isSpace_of_isRegular (ht b List.mem_cons_self))
      rw [word, hs]
      exact run_append ht hrest

/-- A keyword is read where its word ends. -/
theorem keyword?_append {keyword : String} {rest : Bytes}
    (h : isWord (ascii keyword) = true) (hrest : EndsWord rest) :
    keyword? keyword (ascii keyword ++ rest) = some rest := by
  rw [keyword?, word_append h hrest]
  exact if_pos rfl

theorem keyword?_of_isSpace (keyword : String) {b : UInt8} (rest : Bytes)
    (h : isSpace b = true) :
    keyword? keyword (b :: rest) = keyword? keyword rest := by
  rw [keyword?, word_of_isSpace rest h]
  rfl

/-! ## Numbers -/

theorem natural?_of_isSpace {b : UInt8} (rest : Bytes)
    (h : isSpace b = true) : natural? (b :: rest) = natural? rest := by
  rw [natural?, word_of_isSpace rest h]
  rfl

/-- A number in decimal is a word. -/
theorem isWord_decimal (n : Nat) : isWord (Bytes.decimal n) = true :=
  isWord_iff.mpr ⟨Bytes.decimal_ne_nil n, fun _ => isRegular_of_mem_decimal⟩

/-- A number is read as one word. -/
theorem word_decimal (n : Nat) {rest : Bytes} (hrest : EndsWord rest) :
    word (Bytes.decimal n ++ rest) = (Bytes.decimal n, rest) :=
  word_append (isWord_decimal n) hrest

/-- A number in decimal is read back. -/
theorem natural?_decimal (n : Nat) {rest : Bytes} (hrest : EndsWord rest) :
    natural? (Bytes.decimal n ++ rest) = some (n, rest) := by
  rw [natural?, word_decimal n hrest, Bytes.digits?_chars_decimal]
  rfl

/-- A number behind a blank is read. -/
theorem natural?_space_decimal {b : UInt8} (n : Nat) {rest : Bytes}
    (hb : isSpace b = true) (hrest : EndsWord rest) :
    natural? (b :: (Bytes.decimal n ++ rest)) = some (n, rest) := by
  rw [natural?_of_isSpace _ hb]
  exact natural?_decimal n hrest

end Pdf.Syntax
