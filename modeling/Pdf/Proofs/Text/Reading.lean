import Pdf.Proofs.Bytes.Spelling
import Pdf.Proofs.Text.Blank

/-! # Reading — which texts are numbers, and what parts texts have

    A number is its decimal digits, with any number of zeros in front and at
    most one sign: this is all that readers of numbers accept, and the number
    is what they give.  Codes have no minus sign, and what does not fit into
    the bits of a type is none of its numbers.

    The parts of a text are runs of characters that do not separate it, each
    followed by a separator or by the end.  Every text has exactly one list of
    parts; blanks at its ends do not change it. -/

namespace Pdf.Text

/-! ## Numbers -/

/-- Whether a text is a number in decimal, with zeros in front or without. -/
def SpellsDigits (cs : List Char) (n : Nat) : Prop :=
  ∃ zeros, cs = List.replicate zeros '0' ++ Nat.toDigits 10 n

/-- Whether a text is a number in decimal, with a plus sign or without. -/
inductive SpellsNatural : List Char → Nat → Prop where
  | plain {cs : List Char} {n : Nat} : SpellsDigits cs n → SpellsNatural cs n
  | plus {cs : List Char} {n : Nat} : SpellsDigits cs n →
      SpellsNatural ('+' :: cs) n

/-- Whether a text is a number in decimal, with a sign or without. -/
inductive SpellsInteger : List Char → Int → Prop where
  | natural {cs : List Char} {n : Nat} : SpellsNatural cs n →
      SpellsInteger cs n
  | minus {cs : List Char} {n : Nat} : SpellsDigits cs n →
      SpellsInteger ('-' :: cs) (-n)

/-- Digits that spell a number are digits. -/
theorem SpellsDigits.all_isDigit {cs : List Char} {n : Nat}
    (h : SpellsDigits cs n) : ∀ c ∈ cs, c.isDigit = true := by
  obtain ⟨zeros, rfl⟩ := h
  intro c hc
  rcases List.mem_append.mp hc with hzero | hdigit
  · rw [List.eq_of_mem_replicate hzero]
    rfl
  · exact Bytes.isDigit_of_mem_toDigits hdigit

/-- A digit stands for itself. -/
theorem toDigits_digit {c : Char} (hc : c.isDigit = true) :
    c.toNat - '0'.toNat < 10 ∧ Nat.toDigits 10 (c.toNat - '0'.toNat) = [c] := by
  obtain ⟨hlow, hhigh⟩ := Char.isDigit_iff_toNat.mp hc
  have hzero : '0'.toNat = 48 := rfl
  have hnine : '9'.toNat = 57 := rfl
  have hlt : c.toNat - '0'.toNat < 10 := by omega
  refine ⟨hlt, ?_⟩
  rw [Nat.toDigits_of_lt_base hlt]
  refine congrArg (fun d => [d]) (Char.toNat_inj.mp ?_)
  rw [Nat.toNat_digitChar_of_lt_ten hlt]
  omega

/-- Digits behind a number that is not zero make it longer. -/
theorem toDigits_append {cs : List Char} (hcs : ∀ c ∈ cs, c.isDigit = true)
    {n : Nat} (hn : 0 < n) :
    Nat.toDigits 10 n ++ cs = Nat.toDigits 10 (Nat.ofDigitChars 10 cs n) := by
  induction cs generalizing n with
  | nil => exact List.append_nil _
  | cons c cs ih =>
      obtain ⟨hlt, hdigit⟩ := toDigits_digit (hcs c List.mem_cons_self)
      have hrest := @ih (fun d hd => hcs d (List.mem_cons_of_mem c hd))
        (10 * n + (c.toNat - '0'.toNat)) (by omega)
      rw [← Nat.toDigits_append_toDigits (by decide) hn hlt, hdigit,
        List.append_assoc] at hrest
      exact hrest

/-- Digits spell the number that they are the digits of. -/
theorem spellsDigits_ofDigitChars {cs : List Char} (hne : cs ≠ [])
    (hcs : ∀ c ∈ cs, c.isDigit = true) :
    SpellsDigits cs (Nat.ofDigitChars 10 cs 0) := by
  induction cs with
  | nil => exact absurd rfl hne
  | cons c cs ih =>
      have hrest : ∀ d ∈ cs, d.isDigit = true :=
        fun d hd => hcs d (List.mem_cons_of_mem c hd)
      rw [Nat.ofDigitChars_cons, Nat.mul_zero, Nat.zero_add]
      by_cases hc : c = '0'
      · rw [hc, Nat.sub_self]
        by_cases hnil : cs = []
        · rw [hnil]
          exact ⟨0, rfl⟩
        · obtain ⟨zeros, hzeros⟩ := ih hnil hrest
          refine ⟨zeros + 1, ?_⟩
          rw [List.replicate_succ, List.cons_append, ← hzeros]
      · -- the first digit is not zero, so no digit is lost
        obtain ⟨-, hdigit⟩ := toDigits_digit (hcs c List.mem_cons_self)
        have hpos : 0 < c.toNat - '0'.toNat := by
          refine Nat.pos_of_ne_zero ?_
          intro hzero
          rw [hzero] at hdigit
          exact hc (List.cons.inj hdigit).1.symm
        refine ⟨0, ?_⟩
        rw [← toDigits_append hrest hpos, hdigit]
        rfl

/-- What is read as digits is what spells the number in digits. -/
theorem digits?_eq_some_iff {cs : List Char} {n : Nat} :
    digits? cs = some n ↔ SpellsDigits cs n := by
  constructor
  · intro h
    rw [digits?] at h
    by_cases hcs : cs ≠ [] ∧ cs.all Char.isDigit = true
    · rw [if_pos hcs] at h
      rw [← Option.some.inj h]
      exact spellsDigits_ofDigitChars hcs.1 (List.all_eq_true.mp hcs.2)
    · rw [if_neg hcs] at h
      cases h
  · intro h
    have hall : cs.all Char.isDigit = true :=
      List.all_eq_true.mpr h.all_isDigit
    obtain ⟨zeros, rfl⟩ := h
    have hne : List.replicate zeros '0' ++ Nat.toDigits 10 n ≠ [] :=
      List.append_ne_nil_of_right_ne_nil _ Nat.toDigits_ne_nil
    rw [digits?, if_pos ⟨hne, hall⟩, Nat.ofDigitChars_append,
      Nat.ofDigitChars_replicate_zero, Nat.mul_zero,
      Nat.ofDigitChars_ten_toDigits]

/-- A sign is no digit. -/
theorem SpellsDigits.head_ne {c : Char} {cs : List Char} {n : Nat}
    (h : SpellsDigits (c :: cs) n) {sign : Char}
    (hsign : sign.isDigit = false) : c ≠ sign := by
  rintro rfl
  have hdigit := h.all_isDigit c List.mem_cons_self
  rw [hsign] at hdigit
  exact nomatch hdigit

/-- What is read as a number is what spells it, with a plus or without. -/
theorem natural?_eq_some_iff {cs : List Char} {n : Nat} :
    natural? cs = some n ↔ SpellsNatural cs n := by
  rw [natural?.eq_def]
  split
  · next cs =>
      constructor
      · exact fun h => .plus (digits?_eq_some_iff.mp h)
      · rintro (hplain | hplus)
        · exact absurd rfl (hplain.head_ne rfl)
        · exact digits?_eq_some_iff.mpr hplus
  · next hcs =>
      constructor
      · exact fun h => .plain (digits?_eq_some_iff.mp h)
      · rintro (hplain | hplus)
        · exact digits?_eq_some_iff.mpr hplain
        · exact absurd rfl (hcs _)

/-- What is read as an integer is what spells it. -/
theorem integer?_eq_some_iff {cs : List Char} {i : Int} :
    integer? cs = some i ↔ SpellsInteger cs i := by
  rw [integer?.eq_def]
  split
  · next cs =>
      constructor
      · intro h
        cases hdigits : digits? cs with
        | none =>
            rw [hdigits] at h
            exact nomatch h
        | some n =>
            rw [hdigits] at h
            rw [← Option.some.inj h]
            exact .minus (digits?_eq_some_iff.mp hdigits)
      · rintro (⟨hplain | hplus⟩ | hminus)
        · exact absurd rfl (hplain.head_ne rfl)
        · rw [digits?_eq_some_iff.mpr hminus]
          rfl
  · next hcs =>
      constructor
      · intro h
        obtain ⟨n, hn, rfl⟩ := Option.map_eq_some_iff.mp h
        exact .natural (natural?_eq_some_iff.mp hn)
      · rintro (hnatural | hminus)
        · rw [natural?_eq_some_iff.mpr hnatural, Option.map_some]
          rfl
        · exact absurd rfl (hcs _)

/-- A 32-bit integer is any number within its bounds. -/
theorem int32?_eq_some_iff {cs : List Char} {i : Int32} :
    int32? cs = some i ↔ SpellsInteger cs i.toInt := by
  rw [int32?, Option.bind_eq_some_iff]
  constructor
  · rintro ⟨j, hj, hi⟩
    by_cases hbounds : Int32.minValue.toInt ≤ j ∧ j ≤ Int32.maxValue.toInt
    · rw [if_pos hbounds] at hi
      have htoInt : i.toInt = j := by
        rw [← Option.some.inj hi]
        exact Int32.toInt_ofInt_of_le hbounds.1
          (Int.lt_add_one_of_le hbounds.2)
      rw [htoInt]
      exact integer?_eq_some_iff.mp hj
    · rw [if_neg hbounds] at hi
      exact nomatch hi
  · intro h
    have hlow : Int32.minValue.toInt ≤ i.toInt := i.le_toInt
    have hhigh : i.toInt ≤ Int32.maxValue.toInt :=
      Int.le_of_lt_add_one i.toInt_lt
    refine ⟨i.toInt, integer?_eq_some_iff.mpr h, ?_⟩
    rw [if_pos ⟨hlow, hhigh⟩]
    exact congrArg some i.ofInt_toInt

/-- A code is any number below its bound, and none with a minus sign. -/
theorem code?_eq_some_iff {cs : List Char} {code : UInt16} :
    code? cs = some code ↔ SpellsNatural cs code.toNat := by
  rw [code?, Option.bind_eq_some_iff]
  constructor
  · rintro ⟨n, hn, hcode⟩
    by_cases hlt : n < UInt16.size
    · rw [if_pos hlt] at hcode
      have htoNat : code.toNat = n := by
        rw [← Option.some.inj hcode]
        exact Nat.mod_eq_of_lt hlt
      rw [htoNat]
      exact natural?_eq_some_iff.mp hn
    · rw [if_neg hlt] at hcode
      exact nomatch hcode
  · intro h
    refine ⟨code.toNat, natural?_eq_some_iff.mpr h, ?_⟩
    rw [if_pos code.toNat_lt_size]
    exact congrArg some UInt16.ofNat_toNat

/-! ## Parts -/

/-- Whether a text has some parts between its separators. -/
inductive Parted (separates : Char → Bool) :
    List Char → List (List Char) → Prop where
  | nil : Parted separates [] []
  | separator {c : Char} {cs : List Char} {parts : List (List Char)} :
      separates c = true → Parted separates cs parts →
      Parted separates (c :: cs) parts
  | part {w rest : List Char} {parts : List (List Char)} : w ≠ [] →
      (∀ c ∈ w, separates c = false) →
      (∀ c ∈ rest.head?, separates c = true) → Parted separates rest parts →
      Parted separates (w ++ rest) (w :: parts)

variable {separates : Char → Bool} {cs : List Char} {parts : List (List Char)}

/-- The fields of a text are the parts that it is put together from. -/
theorem Parted.fields_eq (h : Parted separates cs parts) :
    fields separates cs = parts := by
  induction h with
  | nil => rfl
  | separator hc _ ih =>
      rw [fields_of_separates hc]
      exact ih
  | part hne hw hrest _ ih => rw [fields_append hne hw hrest, ih]

/-- A character in front that does not separate is the start of a part. -/
theorem Parted.exists_cons {c : Char} (hc : separates c = false)
    (h : Parted separates cs parts) :
    ∃ parts', Parted separates (c :: cs) parts' := by
  have hsingle : ∀ d ∈ [c], separates d = false :=
    List.forall_mem_singleton.mpr hc
  cases h with
  | nil => exact ⟨[[c]], .part (List.cons_ne_nil c []) hsingle nofun .nil⟩
  | separator hd hrest =>
      refine ⟨_, .part (List.cons_ne_nil c []) hsingle ?_ (.separator hd hrest)⟩
      exact fun e he => Option.some.inj he ▸ hd
  | @part w rest parts _ hw hhead hrest =>
      have hcons : ∀ d ∈ c :: w, separates d = false :=
        List.forall_mem_cons.mpr ⟨hc, hw⟩
      exact ⟨(c :: w) :: parts,
        .part (List.cons_ne_nil c w) hcons hhead hrest⟩

/-- Every text is put together from parts. -/
theorem exists_parted (separates : Char → Bool) (cs : List Char) :
    ∃ parts, Parted separates cs parts := by
  induction cs with
  | nil => exact ⟨[], .nil⟩
  | cons c cs ih =>
      obtain ⟨parts, hparts⟩ := ih
      cases hc : separates c with
      | true => exact ⟨parts, .separator hc hparts⟩
      | false => exact hparts.exists_cons hc

/-- The fields of a text are its parts. -/
theorem fields_eq_iff : fields separates cs = parts ↔
    Parted separates cs parts := by
  constructor
  · rintro rfl
    obtain ⟨parts, hparts⟩ := exists_parted separates cs
    rw [hparts.fields_eq]
    exact hparts
  · exact Parted.fields_eq

/-! ## Blanks at the ends -/

/-- Separators behind a text change no part. -/
theorem Parted.append (h : Parted separates cs parts) {back : List Char}
    (hback : ∀ c ∈ back, separates c = true) :
    Parted separates (cs ++ back) parts := by
  induction h with
  | nil => exact fields_eq_iff.mp (fields_eq_nil hback)
  | separator hc _ ih => exact .separator hc ih
  | @part w rest parts hne hw hhead hrest ih =>
      rw [List.append_assoc]
      refine .part hne hw ?_ ih
      cases rest with
      | nil => exact fun c hc => hback c (List.mem_of_mem_head? hc)
      | cons d rest => exact hhead

/-- Separators in front of a text change no part either. -/
theorem Parted.prepend (h : Parted separates cs parts) {front : List Char}
    (hfront : ∀ c ∈ front, separates c = true) :
    Parted separates (front ++ cs) parts := by
  induction front with
  | nil => exact h
  | cons c front ih =>
      exact .separator (hfront c List.mem_cons_self)
        (ih fun d hd => hfront d (List.mem_cons_of_mem c hd))

/-- What is trimmed in front is blank. -/
theorem exists_append_trimFront (cs : List Char) :
    ∃ front, (∀ c ∈ front, isBlank c = true) ∧ cs = front ++ trimFront cs :=
  ⟨cs.takeWhile isBlank, List.all_eq_true.mp List.all_takeWhile,
    List.takeWhile_append_dropWhile.symm⟩

/-- A text is trimmed of blanks only. -/
theorem exists_append_trim (cs : List Char) :
    ∃ front back, (∀ c ∈ front, isBlank c = true)
      ∧ (∀ c ∈ back, isBlank c = true) ∧ cs = front ++ (trim cs ++ back) := by
  obtain ⟨front, hfront, hcs⟩ := exists_append_trimFront cs
  obtain ⟨back, hback, hreverse⟩ :=
    exists_append_trimFront (trimFront cs).reverse
  refine ⟨front, back.reverse, hfront, ?_, ?_⟩
  · intro c hc
    exact hback c (List.mem_reverse.mp hc)
  · have hmiddle : trimFront cs = trim cs ++ back.reverse := by
      rw [trim, ← List.reverse_append, ← hreverse, List.reverse_reverse]
    rw [← hmiddle]
    exact hcs

/-- Where blanks separate, a text and its trimmed form have the same parts. -/
theorem fields_trim (hblank : ∀ c, isBlank c = true → separates c = true)
    (cs : List Char) : fields separates (trim cs) = fields separates cs := by
  obtain ⟨front, back, hfront, hback, hcs⟩ := exists_append_trim cs
  have htrim : Parted separates (trim cs) (fields separates (trim cs)) :=
    fields_eq_iff.mp rfl
  have hparted := (htrim.append fun c hc => hblank c (hback c hc)).prepend
    fun c hc => hblank c (hfront c hc)
  rw [← hcs] at hparted
  exact hparted.fields_eq.symm

end Pdf.Text
