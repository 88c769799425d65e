import Pdf.Digest.Base64
import Pdf.Object.Printer
import Pdf.Proofs.Bytes.Spelling
import Pdf.Proofs.Filter.Undo

/-! # ASCII — which leaves are written in other bytes

    Keywords, digits and names are ASCII whatever they spell, because a name
    escapes every other byte.  A literal string escapes only what would end it
    and a few control characters, and verbatim bytes are not looked into; so
    the text of an object is ASCII if and only if these two kinds of leaves
    are (`isAscii_print`).

    All lemmas here are equations between tests, so that they can be read from
    left to right: the text of a compound is ASCII exactly if the listed parts
    are. -/

namespace Pdf

namespace Bytes

/-- Whether all bytes are those of ASCII characters. -/
def isAscii (bytes : Bytes) : Bool := bytes.all (· < 0x80)

theorem isAscii_append (front back : Bytes) :
    isAscii (front ++ back) = (isAscii front && isAscii back) :=
  List.all_append

/-- What is written item by item is ASCII if each item is. -/
theorem isAscii_flatMap {α : Type} (items : List α) (f : α → Bytes) :
    isAscii (items.flatMap f) = items.all fun a => isAscii (f a) :=
  List.all_flatMap

/-- Bytes that all occur among ASCII bytes are ASCII. -/
theorem isAscii_of_subset {bytes bytes' : Bytes} (h : bytes' ⊆ bytes)
    (hbytes : isAscii bytes = true) : isAscii bytes' = true :=
  List.all_eq_true.mpr fun b hb => List.all_eq_true.mp hbytes b (h hb)

/-! ## Digits -/

/-- Digits are ASCII. -/
theorem isAscii_decimal (n : Nat) : isAscii (decimal n) = true := by
  refine List.all_eq_true.mpr ?_
  intro b hb
  obtain ⟨c, hc, rfl⟩ := List.mem_map.mp hb
  refine decide_eq_true ?_
  exact forall_digit (P := (byte · < 0x80)) (by decide)
    (isDigit_of_mem_toDigits hc)

theorem isAscii_replicate {b : UInt8} (n : Nat) (h : b < 0x80) :
    isAscii (List.replicate n b) = true := by
  refine List.all_eq_true.mpr ?_
  intro b' hb'
  rw [List.eq_of_mem_replicate hb']
  exact decide_eq_true h

theorem isAscii_paddedDecimal (width n : Nat) :
    isAscii (paddedDecimal width n) = true := by
  rw [paddedDecimal, isAscii_append, isAscii_decimal, Bool.and_true]
  exact isAscii_replicate _ (by decide)

theorem isAscii_signedDecimal (i : Int) :
    isAscii (signedDecimal i) = true := by
  rw [signedDecimal]
  split
  · exact isAscii_decimal _
  · exact isAscii_decimal _

/-- The two digits of a byte are ASCII, whatever the byte is. -/
theorem isAscii_hexPair (b : UInt8) : isAscii (hexPair b) = true := by
  revert b
  exact forall_byte (by decide +kernel)

end Bytes

open Bytes (byte ascii isAscii isAscii_append isAscii_flatMap isAscii_decimal)

/-- The hexadecimal form of any data is ASCII. -/
theorem isAscii_hexLines (data : Bytes) : isAscii (hexLines data) = true := by
  rw [hexLines, isAscii_flatMap]
  refine List.all_eq_true.mpr ?_
  rintro ⟨b, i⟩ -
  show isAscii (if i % 35 = 34 then _ else _) = true
  split
  · rw [isAscii_append, Bytes.isAscii_hexPair]
    rfl
  · exact Bytes.isAscii_hexPair b

/-! ## Identifiers -/

theorem Base64.isAscii_char (value : Nat) :
    isAscii [char value] = true := by
  by_cases h : value < 64
  · have hall : ∀ v : Fin 64, isAscii [char v] = true := by decide +kernel
    exact hall ⟨value, h⟩
  · -- what is no value of six bits is spelled like the last one
    rw [char, if_neg (by omega), if_neg (by omega), if_neg (by omega),
      if_neg (by omega)]
    decide

/-- What is encoded in base 64 is ASCII. -/
theorem Base64.isAscii_encode (data : Bytes) :
    isAscii (encode data) = true := by
  have hcons : ∀ value rest, isAscii (char value :: rest) = isAscii rest := by
    intro value rest
    exact (isAscii_append [char value] rest).trans (by rw [isAscii_char]; rfl)
  induction data using encode.induct with
  | case1 a b c rest ih =>
      rw [encode, hcons, hcons, hcons, hcons]
      exact ih
  | case2 a b =>
      rw [encode, hcons, hcons, hcons]
      decide
  | case3 a =>
      rw [encode, hcons, hcons]
      decide
  | case4 => rfl

/-- A digest makes an identifier of ASCII bytes. -/
theorem isAscii_identifier (d : Digest) : isAscii d.identifier = true :=
  Base64.isAscii_encode _

/-! ## Leaves -/

/-- A name is written in ASCII, since its other characters are escaped. -/
theorem Name.isAscii_print (n : Name) : isAscii n.print = true := by
  have hescape : ∀ b, isAscii (escape b) = true :=
    forall_byte (by decide +kernel)
  show isAscii (n.bytes.flatMap escape) = true
  rw [isAscii_flatMap]
  exact List.all_eq_true.mpr fun b _ => hescape b

/-- A literal string keeps its bytes, but for ASCII escapes. -/
theorem StringForm.isAscii_print_literal (bytes : Bytes) :
    isAscii (literal.print bytes) = isAscii bytes := by
  have hescape : ∀ b, isAscii (escape b) = decide (b < 0x80) :=
    forall_byte (by decide +kernel)
  show isAscii (bytes.flatMap escape ++ [byte ')']) = _
  rw [isAscii_append, isAscii_flatMap, funext hescape]
  exact Bool.and_true _

/-- A hexadecimal string is ASCII, whatever it holds. -/
theorem StringForm.isAscii_print_hex (bytes : Bytes) :
    isAscii (hex.print bytes) = true := by
  show isAscii (bytes.flatMap Bytes.hexPair ++ [byte '>']) = true
  rw [isAscii_append, isAscii_flatMap, funext Bytes.isAscii_hexPair]
  exact (Bool.and_true _).trans (List.all_eq_true.mpr fun _ _ => rfl)

/-- A real is written in ASCII. -/
theorem Single.isAscii_text (x : Single) : isAscii x.text = true := by
  have hplaces : ∀ n, isAscii (places n) = true := by
    intro n
    refine Bytes.isAscii_of_subset ?_ (Bytes.isAscii_paddedDecimal 5 n)
    intro b hb
    exact List.mem_reverse.mp
      ((List.dropWhile_subset _) (List.mem_reverse.mp hb))
  rw [text, scaledText, isAscii_append, isAscii_append, isAscii_decimal,
    Bool.and_true]
  refine Bool.and_eq_true_iff.mpr ⟨?_, ?_⟩
  · split
    · rfl
    · rfl
  · split
    · rfl
    · exact hplaces _

/-- Two numbers in front of a keyword. -/
theorem isAscii_numbers (m n : Nat) (keyword : Bytes) :
    isAscii (Bytes.decimal m ++ byte ' ' :: Bytes.decimal n ++ keyword)
      = isAscii keyword := by
  have hn : isAscii (byte ' ' :: Bytes.decimal n) = true := isAscii_decimal n
  rw [isAscii_append, isAscii_append, isAscii_decimal, hn]
  rfl

theorem Ref.isAscii_text (r : Ref) : isAscii r.text = true :=
  (isAscii_numbers _ _ _).trans (by decide)

theorem Ref.isAscii_opening (r : Ref) : isAscii r.opening = true :=
  (isAscii_numbers _ _ _).trans (by decide)

/-! ## Objects -/

namespace Object

/-- Whether a leaf is written in ASCII. -/
def isAsciiLeaf : Object → Bool
  | string .literal bytes => bytes.isAscii
  | verbatim bytes => isAscii bytes
  | _ => true

/-- What coding puts into a dictionary is ASCII. -/
theorem passesCoding_isAsciiLeaf : PassesCoding isAsciiLeaf :=
  ⟨fun _ => rfl, fun _ => rfl⟩

theorem isAscii_indentation (depth : Nat) :
    isAscii (indentation depth) = true :=
  Bytes.isAscii_replicate _ (by decide)

/-- The test of a single leaf. -/
theorem every_leaf {q : Object → Bool} {o : Object} (h : o.leaves = [o]) :
    o.every q = q o := by
  rw [every, h]
  exact Bool.and_true _

/-- An object without parts is ASCII if it is an ASCII leaf. -/
theorem isAscii_print_leaf {o : Object} (depth : Nat)
    (h : o.isContainer = false) :
    isAscii (o.print depth) = o.every isAsciiLeaf := by
  cases o with
  | array | dictionary => exact nomatch h
  | null => rfl
  | bool value =>
      cases value with
      | false => rfl
      | true => rfl
  | integer value => exact Bytes.isAscii_signedDecimal value
  | real value => exact value.isAscii_text
  | name value => exact value.isAscii_print
  | string form bytes =>
      rw [every_leaf rfl]
      cases form with
      | literal => exact StringForm.isAscii_print_literal bytes
      | hex => exact StringForm.isAscii_print_hex bytes
  | verbatim bytes =>
      rw [every_leaf rfl]
      rfl
  | reference target => exact target.isAscii_text

/-- Items are ASCII if their leaves are. -/
theorem isAscii_printFollowing {items : List Object} {depth : Nat}
    (h : ∀ o ∈ items, isAscii (o.print depth) = o.every isAsciiLeaf) :
    isAscii (printFollowing depth items)
      = every isAsciiLeaf (.array items) := by
  induction items with
  | nil => rfl
  | cons item items ih =>
      show isAscii (item.print depth ++ printFollowing depth items) = _
      rw [isAscii_append, every_array_cons, h item List.mem_cons_self,
        ih fun o ho => h o (List.mem_cons_of_mem _ ho)]

/-- An entry is ASCII if the leaves of its value are. -/
theorem isAscii_printEntry {depth : Nat} {e : Name × Object}
    (h : isAscii (e.2.print depth) = e.2.every isAsciiLeaf) :
    isAscii (printEntry depth e) = e.2.every isAsciiLeaf := by
  obtain ⟨key, value⟩ := e
  show isAscii (indentation depth ++ (key.print ++ ([byte ' ']
    ++ (value.print depth ++ [byte '\n'])))) = _
  rw [isAscii_append, isAscii_append, isAscii_append, isAscii_append,
    isAscii_indentation, key.isAscii_print]
  exact (Bool.and_true _).trans h

/-- Entries are ASCII if the leaves of their values are. -/
theorem isAscii_printEntries {entries : List (Name × Object)} {depth : Nat}
    (h : ∀ e ∈ entries, isAscii (e.2.print depth) = e.2.every isAsciiLeaf) :
    isAscii (printEntries depth entries)
      = every isAsciiLeaf (.dictionary ⟨entries⟩) := by
  induction entries with
  | nil => rfl
  | cons e entries ih =>
      rw [printEntries, isAscii_append,
        isAscii_printEntry (h e List.mem_cons_self),
        ih fun e' he' => h e' (List.mem_cons_of_mem _ he')]
      exact (every_dictionary_cons e.1 e.2 entries).symm

/-- **ONLY STRINGS AND VERBATIM BYTES LEAVE ASCII**: the text of an object is
    ASCII if and only if its literal strings and its verbatim bytes are. -/
theorem isAscii_print (o : Object) (depth : Nat) :
    isAscii (o.print depth) = o.every isAsciiLeaf := by
  induction o using byParts generalizing depth with
  | leaf o ho => exact isAscii_print_leaf depth ho
  | array items ih =>
      cases items with
      | nil => rfl
      | cons item items =>
          show isAscii (item.print depth
            ++ (printFollowing depth items ++ [byte ']'])) = _
          rw [isAscii_append, isAscii_append, every_array_cons,
            ih item List.mem_cons_self depth, isAscii_printFollowing
              fun o ho => ih o (List.mem_cons_of_mem _ ho) depth]
          exact congrArg _ (Bool.and_true _)
  | dictionary entries ih =>
      cases entries with
      | nil => rfl
      | cons e entries =>
          show isAscii (ascii "<<\n" ++ (printEntry (depth + 1) e
            ++ (printEntries (depth + 1) entries
              ++ (indentation depth ++ ascii ">>")))) = _
          rw [isAscii_append, isAscii_append, isAscii_append, isAscii_append,
            isAscii_indentation,
            isAscii_printEntry (ih e List.mem_cons_self (depth + 1)),
            isAscii_printEntries
              fun e' he' => ih e' (List.mem_cons_of_mem _ he') (depth + 1)]
          exact (congrArg _ (Bool.and_true _)).trans
            (every_dictionary_cons e.1 e.2 entries).symm

end Object

/-- A dictionary is ASCII exactly if its leaves are. -/
theorem Dict.isAscii_written (d : Dict) :
    isAscii d.written = d.every Object.isAsciiLeaf :=
  Object.isAscii_print (.dictionary d) 0

/-- A stream is ASCII if its dictionary and its data are. -/
theorem isAscii_numberedStream (r : Ref) (d : Dict) (data : Bytes) :
    isAscii (numberedStream r d data)
      = (d.every Object.isAsciiLeaf && isAscii data) := by
  rw [numberedStream, isAscii_append, isAscii_append, isAscii_append,
    isAscii_append, r.isAscii_opening, d.isAscii_written]
  show (d.every Object.isAsciiLeaf && true && isAscii data && true) = _
  rw [Bool.and_true, Bool.and_true]

end Pdf
