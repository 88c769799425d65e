import Pdf.Proofs.Object.Plain
import Pdf.Proofs.Syntax.Reader

/-! # Written objects, read back

    The written form of an object can be read back unless it holds a real
    number, which was rounded, or verbatim bytes, which may be anything.  All
    other objects are read back exactly, whatever bytes their names and strings
    hold and however deep they nest.

    The induction is on the object, and its claim is about the object in front
    of bytes that may follow it (`object?_print`).  The turns of the reader are
    bounded by the length of what it reads. -/

namespace Pdf.Syntax

open Bytes (byte ascii)

/-! ## Numbers in front of other bytes -/

theorem chars_minus (bytes : Bytes) :
    Bytes.chars (byte '-' :: bytes) = '-' :: Bytes.chars bytes := by
  rw [Bytes.chars, List.map_cons]
  rfl

/-- A sign is no digit. -/
theorem digits?_chars_minus (bytes : Bytes) :
    Text.digits? (Bytes.chars (byte '-' :: bytes)) = none := by
  refine if_neg ?_
  rintro ⟨-, hall⟩
  rw [chars_minus, List.all_cons, Bool.and_eq_true] at hall
  exact absurd hall.1 (by decide)

/-- A number in decimal is no keyword. -/
theorem decimal_ne (n : Nat) {keyword : Bytes}
    (h : Text.digits? (Bytes.chars keyword) = none) :
    Bytes.decimal n ≠ keyword := by
  intro he
  rw [← he, Bytes.digits?_chars_decimal] at h
  exact nomatch h

/-- A number is not the keyword of a reference. -/
theorem keyword?_decimal (n : Nat) {rest : Bytes} (hrest : EndsWord rest) :
    keyword? "R" (Bytes.decimal n ++ rest) = none := by
  rw [keyword?, word_decimal n hrest]
  exact if_neg (decimal_ne n (by decide))

/-- A number behind a blank may follow an object if no `R` follows it. -/
theorem follows_blank_decimal (n : Nat) {rest : Bytes}
    (hrest : EndsWord rest) (hkeyword : keyword? "R" rest = none) :
    Follows (byte ' ' :: (Bytes.decimal n ++ rest)) := by
  refine follows_of_isSpace (by decide) ?_ (keyword?_decimal n hrest)
  rw [generation?, natural?_decimal n hrest]
  simp only [hkeyword]

/-- A number that was written is read back. -/
theorem integer?_chars_decimal (n : Nat) :
    Text.integer? (Bytes.chars (Bytes.decimal n)) = some (n : Int) := by
  rw [Text.integer?.eq_def]
  split
  · next cs hcs =>
      -- the first character is a digit, so there is no sign to split off
      have hminus : '-' ∈ Bytes.chars (Bytes.decimal n) :=
        hcs ▸ List.mem_cons_self
      exact absurd (Bytes.isDigit_of_mem_chars_decimal hminus) (by decide)
  · rw [Bytes.natural?_chars_decimal]
    rfl

/-- So is an integer, with a sign or without. -/
theorem integer?_chars_signedDecimal (i : Int) :
    Text.integer? (Bytes.chars (Bytes.signedDecimal i)) = some i := by
  rw [Bytes.signedDecimal]
  by_cases hi : i < 0
  · rw [if_pos hi, chars_minus, Text.integer?,
      Bytes.digits?_chars_decimal]
    show some (-(i.natAbs : Int)) = some i
    congr 1
    omega
  · rw [if_neg hi, integer?_chars_decimal]
    congr 1
    omega

theorem signedDecimal_ne_nil (i : Int) : Bytes.signedDecimal i ≠ [] := by
  rw [Bytes.signedDecimal]
  by_cases hi : i < 0
  · rw [if_pos hi]
    exact List.cons_ne_nil _ _
  · rw [if_neg hi]
    exact Bytes.decimal_ne_nil _

theorem isRegular_of_mem_signedDecimal {i : Int} {b : UInt8}
    (h : b ∈ Bytes.signedDecimal i) : isRegular b = true := by
  rw [Bytes.signedDecimal] at h
  by_cases hi : i < 0
  · rw [if_pos hi] at h
    rcases List.mem_cons.mp h with rfl | hd
    · decide
    · exact isRegular_of_mem_decimal hd
  · rw [if_neg hi] at h
    exact isRegular_of_mem_decimal h

theorem isWord_signedDecimal (i : Int) :
    isWord (Bytes.signedDecimal i) = true :=
  isWord_iff.mpr
    ⟨signedDecimal_ne_nil i, fun _ => isRegular_of_mem_signedDecimal⟩

/-! ## The reader, by the first character -/

/-- Blanks in front of an object are skipped. -/
theorem object?_append (turns : Nat) {blanks : Bytes} (rest : Bytes)
    (h : blanks.all isSpace = true) :
    object? turns (blanks ++ rest) = object? turns rest := by
  cases turns with
  | zero => rfl
  | succ turns => rw [object?, object?, skipSpace_append rest h]

theorem object?_of_isSpace (turns : Nat) {b : UInt8} (rest : Bytes)
    (h : isSpace b = true) : object? turns (b :: rest) = object? turns rest :=
  @object?_append turns [b] rest ((Bool.and_true _).trans h)

theorem items?_of_isSpace (turns : Nat) {b : UInt8} (rest : Bytes)
    (h : isSpace b = true) : items? turns (b :: rest) = items? turns rest := by
  cases turns with
  | zero => rfl
  | succ turns =>
      rw [items?, items?, skipSpace_of_isSpace rest h,
        object?_of_isSpace turns rest h]

/-- Blanks in front of entries are skipped. -/
theorem entries?_append (turns : Nat) {blanks : Bytes} (rest : Bytes)
    (h : blanks.all isSpace = true) :
    entries? turns (blanks ++ rest) = entries? turns rest := by
  cases turns with
  | zero => rfl
  | succ turns => rw [entries?, entries?, skipSpace_append rest h]

/-- A regular character begins a word. -/
theorem object?_of_isRegular (turns : Nat) {b : UInt8} (rest : Bytes)
    (h : isRegular b = true) :
    object? (turns + 1) (b :: rest) = atom? (b :: rest) := by
  have hne : ∀ c, isRegular c = false → b ≠ c := by
    intro c hc he
    rw [he, hc] at h
    exact Bool.false_ne_true h
  rw [object?, skipSpace_of_not rest (isSpace_of_isRegular h)]
  show (if b = byte '/' then _ else _) = _
  rw [if_neg (hne _ (by decide)), if_neg (hne _ (by decide)),
    if_neg (hne _ (by decide)), if_neg (hne _ (by decide))]

/-- So a word is read as the keyword or the number that it is. -/
theorem object?_word (turns : Nat) {t rest : Bytes} (h : isWord t = true)
    (hrest : EndsWord rest) :
    object? (turns + 1) (t ++ rest)
      = if t = ascii "null" then some (.null, rest)
        else if t = ascii "true" then some (.bool true, rest)
        else if t = ascii "false" then some (.bool false, rest)
        else number? t rest := by
  have hword := word_append h hrest
  obtain ⟨hne, ht⟩ := isWord_iff.mp h
  cases t with
  | nil => exact absurd rfl hne
  | cons b t =>
      rw [List.cons_append, object?_of_isRegular turns _
        (ht b List.mem_cons_self), atom?, ← List.cons_append, hword]

/-! ## Leaves -/

/-- An integer is read, unless it begins a reference. -/
theorem object?_integer (turns : Nat) (i : Int) {rest : Bytes}
    (hrest : Follows rest) :
    object? (turns + 1) (Bytes.signedDecimal i ++ rest)
      = some (.integer i, rest) := by
  have hint := integer?_chars_signedDecimal i
  have hne : ∀ t, Text.integer? (Bytes.chars t) = none →
      Bytes.signedDecimal i ≠ t := by
    intro t ht he
    rw [← he, hint] at ht
    exact nomatch ht
  rw [object?_word turns (isWord_signedDecimal i) hrest.ends,
    if_neg (hne _ (by decide)), if_neg (hne _ (by decide)),
    if_neg (hne _ (by decide)), number?, hrest.noGeneration, hint]
  split
  · next hno => exact nomatch hno
  · rfl

/-- The second number and the keyword end a reference. -/
theorem generation?_text (g : UInt16) {rest : Bytes}
    (hrest : EndsWord rest) :
    generation? (byte ' ' :: (Bytes.decimal g.toNat ++ (ascii " R" ++ rest)))
      = some (g, rest) := by
  have hends : EndsWord (ascii " R" ++ rest) :=
    endsWord_blank _
  have hkeyword : keyword? "R" (ascii " R" ++ rest) = some rest := by
    show keyword? "R" (byte ' ' :: (ascii "R" ++ rest)) = some rest
    rw [keyword?_of_isSpace "R" _ (by decide)]
    exact keyword?_append (by decide) hrest
  rw [generation?_of_isSpace _ (by decide), generation?,
    natural?_decimal g.toNat hends]
  simp only [hkeyword]
  rw [if_pos g.toNat_lt]
  congr 2
  exact UInt16.ofNat_toNat

theorem text_append (r : Ref) (rest : Bytes) :
    r.text ++ rest = Bytes.decimal r.number.toNat ++ (byte ' ' ::
      (Bytes.decimal r.generation.toNat ++ (ascii " R" ++ rest))) := by
  rw [Ref.text, List.append_assoc, List.append_assoc]
  rfl

/-- A reference is read, and not its first number. -/
theorem object?_reference (turns : Nat) (r : Ref) {rest : Bytes}
    (hrest : EndsWord rest) :
    object? (turns + 1) (r.text ++ rest) = some (.reference r, rest) := by
  rw [text_append, object?_word turns (isWord_decimal _)
    (endsWord_blank _),
    if_neg (decimal_ne _ (by decide)), if_neg (decimal_ne _ (by decide)),
    if_neg (decimal_ne _ (by decide)), number?,
    Bytes.digits?_chars_decimal, generation?_text _ hrest]
  show (if r.number.toNat < 2 ^ 32 then _ else none) = _
  rw [if_pos r.number.toNat_lt]
  congr 3
  exact congrArg (fun n => (⟨n, r.generation⟩ : Ref)) UInt32.ofNat_toNat

/-- A name is read up to the end of its word. -/
theorem object?_name (turns : Nat) (n : Name) {rest : Bytes}
    (hrest : EndsWord rest) :
    object? (turns + 1) (n.print ++ rest) = some (.name n, rest) := by
  show object? (turns + 1)
    (byte '/' :: (n.bytes.flatMap Name.escape ++ rest)) = _
  rw [object?, skipSpace_of_not _ (by decide)]
  show (name? (n.bytes.flatMap Name.escape ++ rest)).map _ = _
  rw [name?_escape_append n.bytes hrest]
  rfl

/-- The first digit of a hexadecimal string is no second bracket. -/
theorem head_hexPairs_ne (data rest : Bytes) :
    (data.flatMap Bytes.hexPair ++ byte '>' :: rest).head?
      ≠ some (byte '<') := by
  cases data with
  | nil =>
      show some (byte '>') ≠ some (byte '<')
      decide
  | cons b data =>
      intro h
      have hb : Bytes.hexDigit (b / 16) = byte '<' := Option.some.inj h
      have hreg := (isRegular_hexDigit b).1
      rw [hb] at hreg
      exact absurd hreg (by decide)

/-- A string is read in both forms, in front of anything. -/
theorem object?_string (turns : Nat) (form : StringForm)
    (data rest : Bytes) :
    object? (turns + 1) (form.print data ++ rest)
      = some (.string form data, rest) := by
  cases form with
  | literal =>
      have happ : StringForm.literal.print data ++ rest = byte '(' ::
          (data.flatMap StringForm.escape ++ byte ')' :: rest) := by
        simp [StringForm.print]
      rw [happ, object?, skipSpace_of_not _ (by decide)]
      show (literal? {}
        (data.flatMap StringForm.escape ++ byte ')' :: rest)).map _ = _
      rw [literal?_flatMap_escape]
      rfl
  | hex =>
      have happ : StringForm.hex.print data ++ rest = byte '<' ::
          (data.flatMap Bytes.hexPair ++ byte '>' :: rest) := by
        simp [StringForm.print]
      rw [happ, object?, skipSpace_of_not _ (by decide)]
      show (if (data.flatMap Bytes.hexPair ++ byte '>' :: rest).head?
        = some (byte '<') then _ else _) = _
      rw [if_neg (head_hexPairs_ne data rest), hexString?_hexPairs_append]
      rfl

/-! ## Plain objects -/

/-- What a written object can be, as far as the bytes in front of it matter. -/
inductive Starts : Bytes → Prop where
  | delimiter {b : UInt8} (t : Bytes) :
      isDelimiter b = true → b ≠ byte ']' → Starts (b :: t)
  | word {t : Bytes} :
      isWord t = true → Text.digits? (Bytes.chars t) = none →
      t ≠ ascii "R" → Starts t
  | natural (n : Nat) : Starts (Bytes.decimal n)
  | reference (r : Ref) : Starts r.text

/-- An integer cannot be taken for more of what stands in front of it. -/
theorem starts_signedDecimal (i : Int) : Starts (Bytes.signedDecimal i) := by
  have hword := isWord_signedDecimal i
  by_cases hi : i < 0
  · -- the sign keeps it from being taken for a generation
    have hminus : Bytes.signedDecimal i = byte '-' :: Bytes.decimal i.natAbs :=
      if_pos hi
    rw [hminus] at hword ⊢
    refine .word hword (digits?_chars_minus _) ?_
    intro he
    exact absurd (List.cons.inj he).1 (by decide)
  · rw [Bytes.signedDecimal, if_neg hi]
    exact .natural _

/-- Neither can any other plain object. -/
theorem starts_print {o : Object} (depth : Nat) (h : o.isPlain = true) :
    Starts (o.print depth) := by
  cases o with
  | null => exact .word (t := ascii "null") (by decide) rfl (by decide)
  | bool value =>
      cases value with
      | true => exact .word (t := ascii "true") (by decide) rfl (by decide)
      | false => exact .word (t := ascii "false") (by decide) rfl (by decide)
  | integer value => exact starts_signedDecimal value
  | real value => exact nomatch h
  | name value => exact .delimiter _ (by decide) (by decide)
  | string form bytes =>
      cases form with
      | literal => exact .delimiter _ (by decide) (by decide)
      | hex => exact .delimiter _ (by decide) (by decide)
  | verbatim bytes => exact nomatch h
  | array items =>
      cases items with
      | nil => exact .delimiter _ (by decide) (by decide)
      | cons item items => exact .delimiter _ (by decide) (by decide)
  | dictionary entries =>
      obtain ⟨entries⟩ := entries
      cases entries with
      | nil => exact .delimiter _ (by decide) (by decide)
      | cons entry entries => exact .delimiter _ (by decide) (by decide)
  | reference target => exact .reference target

/-- It starts with neither a blank nor a closing bracket. -/
theorem Starts.head {bytes : Bytes} (h : Starts bytes) :
    ∃ b t, bytes = b :: t ∧ isSpace b = false ∧ b ≠ byte ']' := by
  have hword : ∀ t t' : Bytes, isWord t = true →
      ∃ b t'', t ++ t' = b :: t'' ∧ isSpace b = false ∧ b ≠ byte ']' := by
    intro t t' hword
    obtain ⟨hne, ht⟩ := isWord_iff.mp hword
    obtain ⟨b, t'', rfl⟩ := List.exists_cons_of_ne_nil hne
    have hb := ht b List.mem_cons_self
    refine ⟨b, t'' ++ t', rfl, isSpace_of_isRegular hb, ?_⟩
    intro he
    rw [he] at hb
    exact absurd hb (by decide)
  cases h with
  | delimiter t hb hne => exact ⟨_, t, rfl, isSpace_of_isDelimiter _ hb, hne⟩
  | word ht hnumber hkeyword =>
      have hhead := hword _ [] ht
      rwa [List.append_nil] at hhead
  | natural n =>
      have hhead := hword _ [] (isWord_decimal n)
      rwa [List.append_nil] at hhead
  | reference r =>
      rw [← List.append_nil r.text, text_append]
      exact hword _ _ (isWord_decimal _)

/-- Behind a blank it may stand behind another object: it is neither the
    keyword `R`, nor a number with that keyword behind it. -/
theorem Starts.follows {bytes rest : Bytes} (h : Starts bytes)
    (hrest : Follows rest) : Follows (byte ' ' :: (bytes ++ rest)) := by
  cases h with
  | delimiter t hb hne =>
      exact @follows_of_blanks [byte ' '] _ (t ++ rest) (by decide) hb
  | word ht hnumber hkeyword =>
      exact follows_of_word (by decide)
        (congrArg Prod.fst (word_append ht hrest.ends)) hnumber hkeyword
  | natural n => exact follows_blank_decimal n hrest.ends hrest.noKeyword
  | reference r =>
      -- behind its number comes another number, and not the keyword
      rw [text_append]
      refine follows_blank_decimal _ (endsWord_blank _) ?_
      rw [keyword?_of_isSpace "R" _ (by decide)]
      exact keyword?_decimal _ (endsWord_blank _)

theorem length_print_pos {o : Object} (depth : Nat) (h : o.isPlain = true) :
    0 < (o.print depth).length := by
  obtain ⟨b, t, hb, -, -⟩ := (starts_print depth h).head
  rw [hb]
  exact Nat.succ_pos _

/-- What follows an item of an array may stand behind it. -/
theorem follows_printFollowing {items : List Object} (depth : Nat)
    (rest : Bytes) (h : (Object.array items).isPlain = true) :
    Follows (Object.printFollowing depth items ++ byte ']' :: rest) := by
  induction items with
  | nil => exact follows_of_isDelimiter rest (by decide)
  | cons item items ih =>
      rw [Object.isPlain_array_cons, Bool.and_eq_true] at h
      obtain ⟨hitem, hitems⟩ := h
      rw [Object.printFollowing, List.cons_append, List.append_assoc]
      exact (starts_print depth hitem).follows (ih hitems)

/-! ## Containers -/

/-- An item in front of the others of its array is read with them. -/
theorem items?_cons {turns depth : Nat} {item : Object}
    {items : List Object} {tail rest : Bytes} (h : item.isPlain = true)
    (hitem : object? turns (item.print depth ++ tail) = some (item, tail))
    (hitems : items? turns tail = some (items, rest)) :
    items? (turns + 1) (item.print depth ++ tail)
      = some (item :: items, rest) := by
  -- an item is not taken for the end of its array
  obtain ⟨b, t, hb, hspace, hne⟩ := (starts_print depth h).head
  have hhead : (skipSpace (item.print depth ++ tail)).head?
      ≠ some (byte ']') := by
    rw [hb, List.cons_append, skipSpace_of_not _ hspace]
    exact fun he => hne (Option.some.inj he)
  rw [items?, if_neg hhead, hitem]
  show (items? turns tail).map _ = _
  rw [hitems]
  rfl

theorem items?_nil (turns : Nat) (rest : Bytes) :
    items? (turns + 1) (byte ']' :: rest) = some ([], rest) := by
  rw [items?, skipSpace_of_not _ (by decide)]
  exact if_pos rfl

/-- The brackets of an array around its first item and the others. -/
theorem object?_array {turns : Nat} {items : List Object}
    {bytes rest : Bytes} (h : items? turns bytes = some (items, rest)) :
    object? (turns + 1) (byte '[' :: bytes) = some (.array items, rest) := by
  rw [object?, skipSpace_of_not _ (by decide)]
  show (items? turns bytes).map _ = _
  rw [h]
  rfl

theorem all_isSpace_indentation (depth : Nat) :
    (indentation depth).all isSpace = true := by
  refine List.all_eq_true.mpr ?_
  intro b hb
  rw [List.eq_of_mem_replicate hb]
  decide

/-- The line of an entry in front of other lines is read with them. -/
theorem entries?_cons {turns depth : Nat} {key : Name} {value : Object}
    {entries : List (Name × Object)} {tail rest : Bytes}
    (hvalue : object? turns (value.print depth ++ byte '\n' :: tail)
      = some (value, byte '\n' :: tail))
    (hentries : entries? turns tail = some (entries, rest)) :
    entries? (turns + 1) (Object.printEntry depth (key, value) ++ tail)
      = some ((key, value) :: entries, rest) := by
  have hline : Object.printEntry depth (key, value) ++ tail
      = indentation depth ++ (byte '/' :: (key.bytes.flatMap Name.escape
        ++ byte ' ' :: (value.print depth ++ byte '\n' :: tail))) := by
    simp [Object.printEntry, Name.print]
  have hkey : name? (key.bytes.flatMap Name.escape
      ++ byte ' ' :: (value.print depth ++ byte '\n' :: tail))
      = some (key, byte ' ' :: (value.print depth ++ byte '\n' :: tail)) :=
    name?_escape_append key.bytes (endsWord_blank _)
  have hblank : object? turns
      (byte ' ' :: (value.print depth ++ byte '\n' :: tail))
      = some (value, byte '\n' :: tail) := by
    rw [object?_of_isSpace turns _ (by decide)]
    exact hvalue
  have htail : entries? turns (byte '\n' :: tail) = some (entries, rest) := by
    rw [← hentries]
    exact @entries?_append turns [byte '\n'] tail (by decide)
  rw [hline, entries?_append _ _ (all_isSpace_indentation _),
    entries?, skipSpace_of_not _ (by decide)]
  simp only [if_true, hkey, hblank, htail, Option.map_some]

/-- The closing brackets end the entries, behind any indentation. -/
theorem entries?_nil (turns depth : Nat) (rest : Bytes) :
    entries? (turns + 1) (indentation depth ++ (ascii ">>" ++ rest))
      = some ([], rest) := by
  rw [entries?_append _ _ (all_isSpace_indentation _)]
  show entries? (turns + 1) (byte '>' :: byte '>' :: rest) = _
  rw [entries?, skipSpace_of_not _ (by decide)]
  show (if byte '>' = byte '/' then _ else _) = _
  rw [if_neg (by decide)]
  exact if_pos ⟨rfl, rfl⟩

/-- The brackets of a dictionary around its lines. -/
theorem object?_dictionary {turns : Nat} {entries : List (Name × Object)}
    {bytes rest : Bytes} (h : entries? turns bytes = some (entries, rest)) :
    object? (turns + 1) (byte '<' :: byte '<' :: bytes)
      = some (.dictionary ⟨entries⟩, rest) := by
  rw [object?, skipSpace_of_not _ (by decide)]
  show (entries? turns bytes).map _ = _
  rw [h]
  rfl

/-- The brackets and the lines of a dictionary that has entries. -/
theorem printDict_append (depth : Nat) (entry : Name × Object)
    (entries : List (Name × Object)) (rest : Bytes) :
    Object.printDict depth ⟨entry :: entries⟩ ++ rest
      = byte '<' :: byte '<' :: ([byte '\n']
        ++ (Object.printEntries (depth + 1) (entry :: entries)
          ++ (indentation depth ++ (ascii ">>" ++ rest)))) := by
  simp [Object.printDict, Object.printEntries, ascii, List.append_assoc]

/-- The lines of a dictionary and its brackets may stand behind a value. -/
theorem follows_printEntries (entries : List (Name × Object))
    (depth inner : Nat) (rest : Bytes) :
    Follows (byte '\n' :: (Object.printEntries inner entries
      ++ (indentation depth ++ (ascii ">>" ++ rest)))) := by
  have hblanks : ∀ d, (byte '\n' :: indentation d).all isSpace = true := by
    intro d
    rw [List.all_cons, all_isSpace_indentation]
    rfl
  cases entries with
  | nil => exact follows_of_blanks _ (hblanks depth) (by decide)
  | cons entry entries =>
      obtain ⟨key, value⟩ := entry
      rw [Object.printEntries, Object.printEntry, Name.print]
      simp only [List.append_assoc, List.cons_append]
      exact follows_of_blanks _ (hblanks inner) (by decide)

/-! ## Every plain object -/

-- The induction is on the object with its items and entries.  The turns go
-- down with it, because each turn has a byte of its own in the printed form.
mutual

/-- **READING WHAT WAS WRITTEN**: a plain object is read back in front of
    everything that may follow it. -/
theorem object?_print : ∀ (o : Object) (depth turns : Nat) (rest : Bytes),
    o.isPlain = true → Follows rest →
    (o.print depth).length ≤ turns + 1 →
    object? (turns + 1) (o.print depth ++ rest) = some (o, rest)
  | .null, depth, turns, rest, _, hrest, _ =>
      object?_word turns (t := ascii "null") (by decide) hrest.ends
  | .bool true, depth, turns, rest, _, hrest, _ =>
      object?_word turns (t := ascii "true") (by decide) hrest.ends
  | .bool false, depth, turns, rest, _, hrest, _ =>
      object?_word turns (t := ascii "false") (by decide) hrest.ends
  | .integer value, depth, turns, rest, _, hrest, _ =>
      object?_integer turns value hrest
  | .real _, _, _, _, h, _, _ => nomatch h
  | .name value, depth, turns, rest, _, hrest, _ =>
      object?_name turns value hrest.ends
  | .string form bytes, depth, turns, rest, _, _, _ =>
      object?_string turns form bytes rest
  | .verbatim _, _, _, _, h, _, _ => nomatch h
  | .array [], depth, turns, rest, _, _, hlen => by
      have hturns : 2 ≤ turns + 1 := hlen
      obtain ⟨t, rfl⟩ : ∃ t, turns = t + 1 := ⟨turns - 1, by omega⟩
      exact object?_array (items?_nil t rest)
  | .array (item :: items), depth, turns, rest, h, _, hlen => by
      rw [Object.isPlain_array_cons, Bool.and_eq_true] at h
      obtain ⟨hitem, hitems⟩ := h
      have hpos := length_print_pos depth hitem
      rw [Object.print, List.length_cons, List.length_append,
        List.length_append, List.length_singleton] at hlen
      -- one turn is for the bracket, and one for the list of items
      obtain ⟨t, rfl⟩ : ∃ t, turns = t + 2 := ⟨turns - 2, by omega⟩
      have hfollows := follows_printFollowing depth rest hitems
      have hfirst := object?_print item depth t _ hitem hfollows
        (by omega)
      have hothers := items?_printFollowing items depth t rest hitems
        (by omega)
      have happ : Object.print depth (.array (item :: items)) ++ rest
          = byte '[' :: (item.print depth
            ++ (Object.printFollowing depth items ++ byte ']' :: rest)) := by
        simp [Object.print]
      rw [happ]
      exact object?_array (items?_cons hitem hfirst hothers)
  | .dictionary ⟨[]⟩, depth, turns, rest, _, _, hlen => by
      have hturns : 4 ≤ turns + 1 := hlen
      obtain ⟨t, rfl⟩ : ∃ t, turns = t + 1 := ⟨turns - 1, by omega⟩
      exact object?_dictionary (entries?_nil t 0 rest)
  | .dictionary ⟨entry :: entries⟩, depth, turns, rest, h, _, hlen => by
      have happ := printDict_append depth entry entries
      have hlines : (Object.printEntries (depth + 1)
          (entry :: entries)).length + 5 ≤ turns + 1 := by
        refine Nat.le_trans ?_ hlen
        show _ ≤ (Object.printDict depth ⟨entry :: entries⟩).length
        rw [← List.append_nil (Object.printDict depth _), happ]
        simp [ascii]
      obtain ⟨t, rfl⟩ : ∃ t, turns = t + 1 := ⟨turns - 1, by omega⟩
      have hread := entries?_printEntries (entry :: entries) depth
        (depth + 1) t rest h (by omega)
      show object? (t + 1 + 1)
        (Object.printDict depth ⟨entry :: entries⟩ ++ rest) = _
      rw [happ]
      refine object?_dictionary ?_
      rw [entries?_append _ _ (by decide)]
      exact hread
  | .reference target, depth, turns, rest, _, hrest, _ =>
      object?_reference turns target hrest.ends

/-- So are the further items of an array. -/
theorem items?_printFollowing : ∀ (items : List Object)
    (depth turns : Nat) (rest : Bytes),
    (Object.array items).isPlain = true →
    (Object.printFollowing depth items).length ≤ turns →
    items? (turns + 1)
      (Object.printFollowing depth items ++ byte ']' :: rest)
      = some (items, rest)
  | [], _, turns, rest, _, _ => items?_nil turns rest
  | item :: items, depth, turns, rest, h, hlen => by
      rw [Object.isPlain_array_cons, Bool.and_eq_true] at h
      obtain ⟨hitem, hitems⟩ := h
      have hpos := length_print_pos depth hitem
      rw [Object.printFollowing, List.length_cons,
        List.length_append] at hlen
      obtain ⟨t, rfl⟩ : ∃ t, turns = t + 1 := ⟨turns - 1, by omega⟩
      have hfollows := follows_printFollowing depth rest hitems
      have hfirst := object?_print item depth t _ hitem hfollows
        (by omega)
      have hothers := items?_printFollowing items depth t rest hitems
        (by omega)
      rw [Object.printFollowing, List.cons_append,
        items?_of_isSpace _ _ (by decide), List.append_assoc]
      exact items?_cons hitem hfirst hothers

/-- So are the lines of a dictionary. -/
theorem entries?_printEntries : ∀ (entries : List (Name × Object))
    (depth inner turns : Nat) (rest : Bytes),
    (Object.dictionary ⟨entries⟩).isPlain = true →
    (Object.printEntries inner entries).length ≤ turns →
    entries? (turns + 1) (Object.printEntries inner entries
      ++ (indentation depth ++ (ascii ">>" ++ rest)))
      = some (entries, rest)
  | [], depth, _, turns, rest, _, _ => entries?_nil turns depth rest
  | (key, value) :: entries, depth, inner, turns, rest, h, hlen => by
      rw [Object.isPlain_dictionary_cons, Bool.and_eq_true] at h
      obtain ⟨hvalue, hentries⟩ := h
      rw [Object.printEntries, Object.printEntry, List.length_append,
        List.length_append, List.length_append, List.length_cons,
        List.length_append, List.length_singleton] at hlen
      obtain ⟨t, rfl⟩ : ∃ t, turns = t + 1 := ⟨turns - 1, by omega⟩
      have hfollows := follows_printEntries entries depth inner rest
      have hfirst := object?_print value inner t _ hvalue hfollows
        (by omega)
      have hothers := entries?_printEntries entries depth inner t rest
        hentries (by omega)
      rw [Object.printEntries, List.append_assoc]
      exact entries?_cons hfirst hothers

end

/-- A plain object behind blanks is read with turns to spare. -/
theorem read?_append_written {o : Object} {blanks rest : Bytes}
    (hblanks : blanks.all isSpace = true) (h : o.isPlain = true)
    (hrest : Follows rest) :
    read? (blanks ++ (o.written ++ rest)) = some (o, rest) := by
  have hpos := length_print_pos 0 h
  have hlen : (blanks ++ (o.written ++ rest)).length
      = blanks.length + ((o.print 0).length + rest.length) := by
    rw [List.length_append, List.length_append]
    rfl
  obtain ⟨t, ht⟩ : ∃ t, (blanks ++ (o.written ++ rest)).length = t + 1 :=
    ⟨(blanks ++ (o.written ++ rest)).length - 1, by omega⟩
  rw [read?, ht, object?_append _ _ hblanks]
  exact object?_print o 0 t rest h hrest (by omega)

/-- **WRITTEN OBJECTS ARE UNAMBIGUOUS**: reading the written form of a plain
    object takes all of it and gives the object back, so no other plain object
    is written in the same way. -/
theorem read?_written (o : Object) (h : o.isPlain = true) :
    read? o.written = some (o, [])
      ∧ ∀ other : Object, other.isPlain = true →
        other.written = o.written → other = o := by
  have hread : ∀ p : Object, p.isPlain = true →
      read? p.written = some (p, []) := by
    intro p hp
    have hnil := @read?_append_written p [] [] rfl hp follows_nil
    rwa [List.nil_append, List.append_nil] at hnil
  refine ⟨hread o h, ?_⟩
  intro other hother he
  have hsame := hread other hother
  rw [he, hread o h] at hsame
  exact (congrArg Prod.fst (Option.some.inj hsame)).symm

/-- A nested object with the forms that look alike: integers in front of a
    reference, an empty name as a key and as a value, a parenthesis and a
    delimiter in strings and names. -/
def lookalikes : Object :=
  .array [.integer 1, .integer 0, .reference ⟨2, 0⟩, .integer (-7),
    .dictionary (Dictionary.ofList [(⟨[]⟩, .name ⟨[]⟩),
      (.key "A#B", .array [.null, .bool true, .array []]),
      (.key "C", .dictionary (Dictionary.ofList [(.key "D",
        .string .hex [0x00, 0xFF])]))]),
    .string .literal (ascii "(\\)\n")]

/-- Objects that look like others are told apart. -/
theorem read?_written_lookalikes :
    lookalikes.isPlain = true
      ∧ read? lookalikes.written = some (lookalikes, [])
      ∧ ∀ other : Object, other.isPlain = true →
        other.written = lookalikes.written → other = lookalikes :=
  ⟨rfl, read?_written lookalikes rfl⟩

end Pdf.Syntax
