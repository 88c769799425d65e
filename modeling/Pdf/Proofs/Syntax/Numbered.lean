import Pdf.Body.Content
import Pdf.Proofs.Syntax.RoundTrip

/-! # Numbered objects, read back

    A numbered object is an object between `n g obj` and `endobj`.  If the
    keyword `stream` stands behind it, it is the dictionary of a stream, and
    the data begins on the next line; it may hold anything, so only the length
    in the dictionary tells where it ends. -/

namespace Pdf.Syntax

open Bytes (byte ascii)

/-! ## Reading -/

/-- The reference in front of the keyword `obj`. -/
def opening? (bytes : Bytes) : Option (Ref × Bytes) := do
  let (number, rest) ← natural? bytes
  let (generation, rest) ← natural? rest
  let rest ← keyword? "obj" rest
  if number < 2 ^ 32 ∧ generation < 2 ^ 16 then
    some (⟨number.toUInt32, generation.toUInt16⟩, rest)
  else none

/-- So many bytes on the next line, and what stands behind them. -/
def lines? (length : Int) : Bytes → Option (Bytes × Bytes)
  | [] => none
  | b :: rest =>
      if b = byte '\n' ∧ 0 ≤ length ∧ length.toNat ≤ rest.length then
        some (rest.take length.toNat, rest.drop length.toNat)
      else none

/-- The stream whose dictionary was just read. -/
def stream? (d : Dict) (bytes : Bytes) : Option StreamData := do
  let rest ← keyword? "stream" bytes
  let length ← (d.get? (.key "Length")).bind Object.integer?
  let (data, rest) ← lines? length rest
  let rest ← keyword? "endstream" rest
  let _ ← keyword? "endobj" rest
  some ⟨d, data⟩

/-- The numbered object in front of some bytes. -/
def numbered? (bytes : Bytes) : Option (Ref × Content) := do
  let (r, rest) ← opening? bytes
  let (object, rest) ← read? rest
  if (keyword? "endobj" rest).isSome then some (r, .value object)
  else
    let d ← object.dictionary?
    let s ← stream? d rest
    some (r, .stream s)

/-! ## Reading back -/

/-- Whether a content tells all that a reader has to know about it. -/
def Recognisable : Content → Prop
  | .value o => o.isPlain = true
  | .stream s => s.dict.isPlain = true
    ∧ s.dict.get? (.key "Length") = some (.integer s.data.length)

/-- A numbered object begins with its number. -/
theorem opening_prefix_numbered (c : Content) (r : Ref) :
    r.opening <+: c.numbered r := by
  cases c with
  | value o => exact ⟨_, (List.append_assoc _ _ _).symm⟩
  | stream s =>
      show r.opening <+: r.opening ++ s.dict.written ++ ascii "\nstream\n"
        ++ s.data ++ ascii "\nendstream\nendobj\n\n"
      simp only [List.append_assoc]
      exact ⟨_, rfl⟩

theorem keyword?_opening {keyword : String} (r : Ref) (rest : Bytes)
    (h : Text.digits? (Bytes.chars (ascii keyword)) = none) :
    keyword? keyword (r.opening ++ rest) = none := by
  rw [Ref.opening, List.append_assoc, List.append_assoc, List.cons_append,
    keyword?, word_decimal _ (endsWord_blank _)]
  exact if_neg (decimal_ne _ h)

/-- The number of an object is read in front of anything. -/
theorem opening?_append (r : Ref) (rest : Bytes) :
    opening? (r.opening ++ rest) = some (r, byte '\n' :: rest) := by
  have hobj : keyword? "obj" (byte ' ' :: (ascii "obj" ++ byte '\n' :: rest))
      = some (byte '\n' :: rest) := by
    rw [keyword?_of_isSpace "obj" _ (by decide)]
    exact keyword?_append (by decide) (endsWord_line rest)
  have hopening : r.opening ++ rest = Bytes.decimal r.number.toNat
      ++ (byte ' ' :: (Bytes.decimal r.generation.toNat
        ++ (byte ' ' :: (ascii "obj" ++ byte '\n' :: rest)))) := by
    rw [Ref.opening, List.append_assoc, List.append_assoc]
    rfl
  have href : (⟨r.number.toNat.toUInt32, r.generation.toNat.toUInt16⟩ : Ref)
      = r := by
    rw [show r.number.toNat.toUInt32 = r.number from UInt32.ofNat_toNat,
      show r.generation.toNat.toUInt16 = r.generation from UInt16.ofNat_toNat]
  have hgeneration : natural? (byte ' ' :: (Bytes.decimal r.generation.toNat
      ++ (byte ' ' :: (ascii "obj" ++ byte '\n' :: rest))))
      = some (r.generation.toNat,
        byte ' ' :: (ascii "obj" ++ byte '\n' :: rest)) :=
    natural?_space_decimal _ (by decide) (endsWord_blank _)
  rw [hopening, opening?]
  simp only [natural?_decimal _ (endsWord_blank _), hgeneration, hobj,
    Option.bind_eq_bind, Option.bind_some]
  rw [if_pos ⟨r.number.toNat_lt, r.generation.toNat_lt⟩, href]

/-- Data is read by its length, whatever it holds. -/
theorem lines?_append (data rest : Bytes) :
    lines? data.length (byte '\n' :: (data ++ rest)) = some (data, rest) := by
  rw [lines?, if_pos]
  · rw [Int.toNat_natCast, List.take_left, List.drop_left]
  · refine ⟨rfl, Int.natCast_nonneg _, ?_⟩
    rw [Int.toNat_natCast, List.length_append]
    exact Nat.le_add_right _ _

/-- A keyword alone on a line. -/
theorem word_line {t : Bytes} (rest : Bytes) (h : isWord t = true) :
    word (byte '\n' :: (t ++ byte '\n' :: rest)) = (t, byte '\n' :: rest) := by
  rw [word_of_isSpace _ (by decide)]
  exact word_append h (endsWord_line rest)

/-- A keyword on a line of its own is read. -/
theorem keyword?_line {keyword : String} (rest : Bytes)
    (h : isWord (ascii keyword) = true) :
    keyword? keyword (byte '\n' :: (ascii keyword ++ byte '\n' :: rest))
      = some (byte '\n' :: rest) := by
  rw [keyword?, word_line rest h]
  exact if_pos rfl

/-- A line with one word may stand behind an object. -/
theorem follows_line {t : Bytes} (rest : Bytes) (h : isWord t = true)
    (hnumber : Text.digits? (Bytes.chars t) = none) (hkeyword : t ≠ ascii "R") :
    Follows (byte '\n' :: (t ++ byte '\n' :: rest)) := by
  refine @follows_of_word (byte '\n') t _ (by decide) ?_ hnumber hkeyword
  rw [word_append h (endsWord_line rest)]

/-- An object on a line of its own. -/
theorem read?_line {o : Object} {rest : Bytes} (h : o.isPlain = true)
    (hrest : Follows rest) :
    read? (byte '\n' :: (o.written ++ rest)) = some (o, rest) :=
  @read?_append_written o [byte '\n'] rest (by decide) h hrest

/-- A stream is read by the length in its dictionary. -/
theorem stream?_append {s : StreamData} (rest : Bytes)
    (h : s.dict.get? (.key "Length") = some (.integer s.data.length)) :
    stream? s.dict (ascii "\nstream\n" ++ (s.data
      ++ (ascii "\nendstream\nendobj\n\n" ++ rest))) = some s := by
  have hstream : keyword? "stream" (ascii "\nstream\n" ++ (s.data
      ++ (ascii "\nendstream\nendobj\n\n" ++ rest)))
      = some (byte '\n' :: (s.data
        ++ (ascii "\nendstream\nendobj\n\n" ++ rest))) :=
    keyword?_line _ (by decide)
  have hendstream : keyword? "endstream"
      (ascii "\nendstream\nendobj\n\n" ++ rest)
      = some (ascii "\nendobj\n\n" ++ rest) :=
    keyword?_line _ (by decide)
  have hendobj : keyword? "endobj" (ascii "\nendobj\n\n" ++ rest)
      = some (ascii "\n\n" ++ rest) :=
    keyword?_line _ (by decide)
  simp only [stream?, hstream, h, Option.bind_some, Object.integer?,
    lines?_append, hendstream, hendobj, Option.bind_eq_bind]

/-- **NUMBERED OBJECTS ARE READ BACK**, with the data of streams. -/
theorem numbered?_append {c : Content} (r : Ref) (rest : Bytes)
    (h : Recognisable c) : numbered? (c.numbered r ++ rest) = some (r, c) := by
  cases c with
  | value o =>
      have happ : (Content.value o).numbered r ++ rest = r.opening
          ++ (o.written ++ (byte '\n' :: (ascii "endobj"
            ++ byte '\n' :: byte '\n' :: rest))) := by
        show o.numbered r ++ rest = _
        rw [Object.numbered, List.append_assoc, List.append_assoc]
        rfl
      have hread := read?_line h (follows_line
        (t := ascii "endobj") (byte '\n' :: rest) (by decide) (by decide)
        (by decide))
      have hendobj := @keyword?_line "endobj" (byte '\n' :: rest) (by decide)
      rw [happ, numbered?]
      simp only [opening?_append, hread, hendobj, Option.bind_eq_bind,
        Option.bind_some, Option.isSome_some, if_true]
  | stream s =>
      obtain ⟨hplain, hlength⟩ := h
      -- the data may hold the keyword that ends it, so it is kept as it is
      let tail := s.data ++ (ascii "\nendstream\nendobj\n\n" ++ rest)
      have happ : (Content.stream s).numbered r ++ rest = r.opening
          ++ ((Object.dictionary s.dict).written
            ++ (byte '\n' :: (ascii "stream" ++ byte '\n' :: tail))) := by
        show numberedStream r s.dict s.data ++ rest = _
        simp only [numberedStream, List.append_assoc]
        rfl
      have hread := read?_line hplain (follows_line
        (t := ascii "stream") tail (by decide) (by decide) (by decide))
      -- what tells a stream from an object is the keyword behind it
      have hendobj : keyword? "endobj" (byte '\n' :: (ascii "stream"
          ++ byte '\n' :: tail)) = none := by
        rw [keyword?, word_line tail (by decide)]
        exact if_neg (show ascii "stream" ≠ ascii "endobj" by decide)
      have hstream : stream? s.dict (byte '\n' :: (ascii "stream"
          ++ byte '\n' :: tail)) = some s := stream?_append rest hlength
      rw [happ, numbered?]
      simp only [opening?_append, hread, hendobj, hstream,
        Object.dictionary?, Option.bind_eq_bind, Option.bind_some,
        Option.isSome_none]
      rfl

end Pdf.Syntax
