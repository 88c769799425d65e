import Mathlib.Data.List.DropRight
import Pdf.Object.Printer
import Pdf.Proofs.Bytes.Spelling
import Pdf.Proofs.Object.Rounding

/-! # Numerals — the one text of a real number, and what it denotes

    A numeral is a decimal number in its shortest form: no zeros in front, no
    zeros at the end of the places, no point without places, no sign on zero
    (`IsNumeral`).  What it denotes is read off its text alone (`decimal?`),
    without a look at the number that was printed.

    The places are the five digits of the fraction without the zeros behind
    them.  Those zeros are a power of ten that divides the fraction, and the
    missing places are the same power of ten in the denominator. -/

namespace Pdf

open Bytes (byte ascii decimal paddedDecimal chars)

namespace Numeral

/-! ## Form and meaning -/

def isDigit (b : UInt8) : Bool := byte '0' ≤ b && b ≤ byte '9'

/-- A digit that may stand at an outer end of a numeral. -/
def isSignificant (b : UInt8) : Bool := isDigit b && b != byte '0'

/-- A whole part without zeros in front. -/
def IsWhole (whole : Bytes) : Prop :=
  whole = ascii "0"
    ∨ ∃ d ds, whole = d :: ds ∧ isSignificant d = true
      ∧ ds.all isDigit = true

/-- A point and up to five places without zeros behind. -/
def IsFraction (fraction : Bytes) : Prop :=
  ∃ ds d, fraction = byte '.' :: (ds ++ [d]) ∧ ds.length ≤ 4
    ∧ ds.all isDigit = true ∧ isSignificant d = true

/-- A decimal number in the form that the printer gives it. -/
def IsNumeral (text : Bytes) : Prop :=
  ∃ sign whole fraction, text = sign ++ whole ++ fraction
    ∧ (sign = [] ∨ sign = ascii "-") ∧ IsWhole whole
    ∧ (fraction = [] ∨ IsFraction fraction)

/-- The number that a decimal number without a sign denotes. -/
def unsigned? (text : Bytes) : Option ℚ :=
  (Text.digits? (chars (text.takeWhile (· != byte '.')))).bind fun whole =>
    match text.dropWhile (· != byte '.') with
    | [] => some whole
    | _ :: places =>
        (Text.digits? (chars places)).map fun fraction : Nat =>
          (whole + fraction / 10 ^ places.length : ℚ)

/-- The number that a decimal number denotes. -/
def decimal? : Bytes → Option ℚ
  | [] => none
  | b :: text =>
      if b = byte '-' then (unsigned? text).map fun v => -v
      else unsigned? (b :: text)

/-! ## Digits -/

theorem isDigit_byte {c : Char} :
    c.isDigit = true → isDigit (byte c) = true :=
  forall_digit (P := fun c => isDigit (byte c) = true) (by decide)

/-- A number is written with digits only. -/
theorem isDigit_of_mem_decimal {n : Nat} {b : UInt8} (h : b ∈ decimal n) :
    isDigit b = true := by
  obtain ⟨c, hc, rfl⟩ := List.mem_map.mp h
  exact isDigit_byte (Bytes.isDigit_of_mem_toDigits hc)

theorem isDigit_of_mem_paddedDecimal {width n : Nat} {b : UInt8}
    (h : b ∈ paddedDecimal width n) : isDigit b = true := by
  rcases List.mem_append.mp h with hzero | hdigit
  · rw [List.eq_of_mem_replicate hzero]
    decide
  · exact isDigit_of_mem_decimal hdigit

/-- The digits of a number that is not zero start with another one. -/
theorem exists_significant_decimal {n : Nat} (h : 0 < n) :
    ∃ d ds, decimal n = d :: ds ∧ isSignificant d = true
      ∧ ds.all isDigit = true := by
  induction n using Nat.strongRecOn with
  | ind n ih =>
      by_cases hn : n < 10
      · have hall : ∀ d : Fin 10, 0 < d.val →
            isSignificant (byte (Nat.digitChar d)) = true := by
          decide
        refine ⟨byte n.digitChar, [], ?_, hall ⟨n, hn⟩ h, rfl⟩
        rw [decimal, Nat.toDigits_of_lt_base hn]
        rfl
      · -- the last digit stands behind those of the quotient
        obtain ⟨d, ds, hds, hd, hall⟩ := ih (n / 10) (by omega) (by omega)
        have hsplit : decimal n
            = decimal (n / 10) ++ [byte (n % 10).digitChar] := by
          rw [decimal, Nat.toDigits_of_base_le (by decide) (by omega),
            List.map_append]
          rfl
        refine ⟨d, ds ++ [byte (n % 10).digitChar], ?_, hd, ?_⟩
        · rw [hsplit, hds]
          rfl
        · have hlast : isDigit (byte (n % 10).digitChar) = true := by
            refine isDigit_of_mem_decimal (n := n) ?_
            rw [hsplit]
            exact List.mem_append_right _ List.mem_cons_self
          rw [List.all_append, hall, Bool.true_and, List.all_cons, hlast]
          rfl

/-- A number that is written in decimal is a whole part. -/
theorem isWhole_decimal (n : Nat) : IsWhole (decimal n) := by
  rcases Nat.eq_zero_or_pos n with rfl | hpos
  · exact Or.inl (by decide)
  · exact Or.inr (exists_significant_decimal hpos)

/-! ## Places -/

/-- The places are the five digits up to the zeros behind them. -/
theorem paddedDecimal_eq_places (fraction : Nat) :
    ∃ zeros, paddedDecimal 5 fraction
      = Single.places fraction ++ List.replicate zeros (byte '0') := by
  let tail := (paddedDecimal 5 fraction).rtakeWhile (· == byte '0')
  have htail : tail = List.replicate tail.length (byte '0') := by
    refine List.eq_replicate_of_mem fun b hb => ?_
    have hzero : (b == byte '0') = true :=
      List.mem_rtakeWhile_imp (p := (· == byte '0')) hb
    exact beq_iff_eq.mp hzero
  refine ⟨tail.length, ?_⟩
  rw [← htail]
  exact List.rdropWhile_append_rtakeWhile.symm

/-- The places of a fraction end in a digit that is not zero. -/
theorem exists_places {fraction : Nat} (hpos : 0 < fraction)
    (hlt : fraction < 100000) :
    ∃ ds d, Single.places fraction = ds ++ [d] ∧ ds.length ≤ 4
      ∧ ds.all isDigit = true ∧ isSignificant d = true := by
  obtain ⟨zeros, hpad⟩ := paddedDecimal_eq_places fraction
  have hne : Single.places fraction ≠ [] := by
    intro hnil
    -- five zeros are the digits of zero
    have hread := Bytes.digits?_chars_paddedDecimal 5 fraction
    rw [hpad, hnil, List.nil_append, chars, List.map_replicate] at hread
    have hzero := (Option.ite_none_right_eq_some.mp hread).2
    rw [show Char.ofNat (byte '0').toNat = '0' from rfl,
      Nat.ofDigitChars_replicate_zero, Nat.mul_zero] at hzero
    have := Option.some.inj hzero
    omega
  have hdigit : ∀ b ∈ Single.places fraction, isDigit b = true := by
    intro b hb
    have hmem : b ∈ paddedDecimal 5 fraction := by
      rw [hpad]
      exact List.mem_append_left _ hb
    exact isDigit_of_mem_paddedDecimal hmem
  have hlength : (Single.places fraction).length ≤ 5 := by
    have hfive := Bytes.length_paddedDecimal_of_lt (by decide : 0 < 5) hlt
    rw [hpad, List.length_append] at hfive
    omega
  have hlast : ¬((Single.places fraction).getLast hne == byte '0') = true :=
    List.rdropWhile_last_not (· == byte '0') (paddedDecimal 5 fraction) hne
  have hsplit := List.dropLast_concat_getLast hne
  refine ⟨_, _, hsplit.symm, ?_, ?_, ?_⟩
  · rw [List.length_dropLast]
    omega
  · exact List.all_eq_true.mpr fun b hb => hdigit b
      (List.dropLast_subset _ hb)
  · rw [isSignificant, hdigit _ (List.getLast_mem hne), Bool.true_and, bne,
      Bool.eq_false_of_not_eq_true hlast]
    rfl

/-- Zeros behind some digits are a power of ten. -/
theorem digits?_append_zeros {cs : List Char} {zeros n : Nat} (hne : cs ≠ [])
    (h : Text.digits? (cs ++ List.replicate zeros '0') = some n) :
    ∃ m, Text.digits? cs = some m ∧ n = 10 ^ zeros * m := by
  rw [Text.digits?] at h
  obtain ⟨hdigits, hn⟩ := Option.ite_none_right_eq_some.mp h
  have hall : cs.all Char.isDigit = true := by
    have hboth := hdigits.2
    rw [List.all_append, Bool.and_eq_true] at hboth
    exact hboth.1
  refine ⟨Nat.ofDigitChars 10 cs 0, if_pos ⟨hne, hall⟩, ?_⟩
  rw [← Option.some.inj hn, Nat.ofDigitChars_append,
    Nat.ofDigitChars_replicate_zero]

/-- The places denote the fraction in units of 10^-5. -/
theorem digits?_places {fraction : Nat} (hpos : 0 < fraction)
    (hlt : fraction < 100000) :
    ∃ n, Text.digits? (chars (Single.places fraction)) = some n
      ∧ (n : ℚ) / 10 ^ (Single.places fraction).length = fraction / 100000 := by
  obtain ⟨ds, d, hplaces, -⟩ := exists_places hpos hlt
  obtain ⟨zeros, hpad⟩ := paddedDecimal_eq_places fraction
  have hne : chars (Single.places fraction) ≠ [] := by
    rw [hplaces, chars, List.map_append]
    exact List.append_ne_nil_of_right_ne_nil _ (List.cons_ne_nil _ _)
  have hread := Bytes.digits?_chars_paddedDecimal 5 fraction
  rw [hpad, chars, List.map_append, List.map_replicate] at hread
  obtain ⟨n, hn, hpow⟩ := digits?_append_zeros hne hread
  refine ⟨n, hn, ?_⟩
  have hfive : (Single.places fraction).length + zeros = 5 := by
    have hlength := Bytes.length_paddedDecimal_of_lt (by decide : 0 < 5) hlt
    rwa [hpad, List.length_append, List.length_replicate] at hlength
  have hten : (100000 : ℚ)
      = 10 ^ zeros * 10 ^ (Single.places fraction).length := by
    rw [← pow_add, Nat.add_comm, hfive]
    norm_num
  rw [hten, hpow, Nat.cast_mul, Nat.cast_pow, Nat.cast_ofNat]
  exact (mul_div_mul_left _ _ (pow_ne_zero _ (by norm_num))).symm

/-! ## Reading -/

/-- No digit is a point or a sign. -/
theorem isDigit_ne {b : UInt8} (h : isDigit b = true) :
    b ≠ byte '.' ∧ b ≠ byte '-' := by
  constructor
  · rintro rfl
    exact absurd h (by decide)
  · rintro rfl
    exact absurd h (by decide)

theorem not_point_of_mem_decimal {n : Nat} {b : UInt8} (h : b ∈ decimal n) :
    (b != byte '.') = true :=
  bne_iff_ne.mpr (isDigit_ne (isDigit_of_mem_decimal h)).1

/-- A number without a point is read as itself. -/
theorem unsigned?_decimal (n : Nat) : unsigned? (decimal n) = some (n : ℚ) := by
  have hpoint : ∀ b ∈ decimal n, (b != byte '.') = true :=
    fun _ => not_point_of_mem_decimal
  rw [unsigned?, List.takeWhile_eq_self_iff.mpr hpoint,
    List.dropWhile_eq_nil_iff.mpr hpoint, Bytes.digits?_chars_decimal]
  rfl

/-- The digits behind a point are a fraction. -/
theorem unsigned?_point (n : Nat) (places : Bytes) :
    unsigned? (decimal n ++ byte '.' :: places)
      = (Text.digits? (chars places)).map fun fraction : Nat =>
          (n + fraction / 10 ^ places.length : ℚ) := by
  have hpoint : ∀ b ∈ decimal n, (b != byte '.') = true :=
    fun _ => not_point_of_mem_decimal
  rw [unsigned?, List.takeWhile_append_of_pos hpoint,
    List.dropWhile_append_of_pos hpoint, List.takeWhile_cons_of_neg (by decide),
    List.dropWhile_cons_of_neg (by decide), List.append_nil,
    Bytes.digits?_chars_decimal]
  rfl

/-- The digits of a multiple of 10^-5 denote it. -/
theorem unsigned?_digits (n : Nat) :
    unsigned? (decimal (n / 100000) ++ if n % 100000 = 0 then []
      else byte '.' :: Single.places (n % 100000)) = some (n / 100000 : ℚ) := by
  have hsplit : (n : ℚ) / 100000
      = (n / 100000 : ℕ) + ((n % 100000 : ℕ) : ℚ) / 100000 := by
    have hn := congrArg (Nat.cast (R := ℚ)) (Nat.div_add_mod n 100000)
    push_cast at hn
    linarith
  rw [hsplit]
  split
  case isTrue hzero =>
    rw [hzero, List.append_nil, unsigned?_decimal, Nat.cast_zero, zero_div,
      add_zero]
  case isFalse hplaces =>
    obtain ⟨m, hm, hvalue⟩ := digits?_places (Nat.pos_of_ne_zero hplaces)
      (Nat.mod_lt n (by decide))
    rw [unsigned?_point, hm, Option.map_some, hvalue]

/-- A sign negates what stands behind it. -/
theorem decimal?_minus (text : Bytes) :
    decimal? (byte '-' :: text) = (unsigned? text).map fun v => -v := by
  rw [decimal?, if_pos rfl]

/-- What begins with a digit has no sign. -/
theorem decimal?_decimal_append (n : Nat) (text : Bytes) :
    decimal? (decimal n ++ text) = unsigned? (decimal n ++ text) := by
  obtain ⟨b, digits, hb⟩ := List.exists_cons_of_ne_nil (Bytes.decimal_ne_nil n)
  have hdigit : isDigit b = true :=
    isDigit_of_mem_decimal (n := n) (hb ▸ List.mem_cons_self)
  rw [hb, List.cons_append, decimal?, if_neg (isDigit_ne hdigit).2]

/-- **A printed number denotes the multiple of 10^-5 it was printed for.** -/
theorem decimal?_scaledText (i : Int) :
    decimal? (Single.scaledText i) = some (i / 100000 : ℚ) := by
  have hdigits := unsigned?_digits i.natAbs
  have habs : (i.natAbs : ℚ) = |(i : ℚ)| := by
    rw [Nat.cast_natAbs, Int.cast_abs]
  have hone : Single.decimalOne = 100000 := rfl
  rw [Single.scaledText, hone, List.append_assoc]
  split
  case isTrue hneg =>
    rw [abs_of_neg (Int.cast_lt_zero.mpr hneg)] at habs
    rw [List.singleton_append, decimal?_minus, hdigits, Option.map_some, habs,
      neg_div, neg_neg]
  case isFalse hpos =>
    rw [abs_of_nonneg (Int.cast_nonneg (Int.not_lt.mp hpos))] at habs
    rw [List.nil_append, decimal?_decimal_append, hdigits, habs]

/-- Nothing is printed as a zero with a sign. -/
theorem scaledText_ne_minus_zero (i : Int) :
    Single.scaledText i ≠ ascii "-0" := by
  intro htext
  have hvalue := decimal?_scaledText i
  have hminus : ascii "-0" = byte '-' :: decimal 0 := by decide
  rw [htext, hminus, decimal?_minus, unsigned?_decimal, Option.map_some,
    Option.some_inj, Nat.cast_zero, neg_zero, eq_comm,
    div_eq_zero_iff, Int.cast_eq_zero] at hvalue
  have hzero : i = 0 := hvalue.resolve_right (by norm_num)
  rw [hzero] at htext
  exact absurd htext (by decide)

/-- What is printed is a numeral. -/
theorem isNumeral_scaledText (i : Int) : IsNumeral (Single.scaledText i) := by
  refine ⟨_, _, _, rfl, ?_, isWhole_decimal _, ?_⟩
  · split
    · exact Or.inr rfl
    · exact Or.inl rfl
  · split
    case isTrue => exact Or.inl rfl
    case isFalse hplaces =>
      obtain ⟨ds, d, hds, hrest⟩ := exists_places
        (Nat.pos_of_ne_zero hplaces) (Nat.mod_lt _ (by decide))
      rw [hds]
      exact Or.inr ⟨ds, d, rfl, hrest⟩

end Numeral

/-! ## Real numbers -/

namespace Object

open Numeral Single

/-- **Reals are written canonically, accurately and in their order.**  A single
    that is not finite is written as zero, and every text is a numeral.  What
    it denotes is the nearest integer if that is at most two singles away, and
    otherwise it differs from the value by at most half a unit of 10^-5.  The
    opposite value has the opposite numeral, and a larger value never has a
    smaller one. -/
theorem written_real :
    (∀ x : Single, x.isFinite = false → (real x).written = ascii "0")
      ∧ (∀ x : Single, IsNumeral (real x).written
        ∧ (real x).written ≠ ascii "-0")
      ∧ ∃ denoted : Single → ℚ,
        (∀ x, decimal? (real x).written = some (denoted x))
        ∧ (∀ x, x.isFinite = true → x.Near → denoted x = nearest x.value)
        ∧ (∀ x, x.isFinite = true → ¬x.Near →
          |denoted x - x.value| ≤ 1 / 200000)
        ∧ (∀ x y, x.isFinite = true → y.isFinite = true →
          y.value = -x.value → denoted y = -denoted x)
        ∧ ∀ x y, x.isFinite = true → y.isFinite = true →
          x.value ≤ y.value → denoted x ≤ denoted y := by
  have hle : ∀ x y : Single, x.isFinite = true → y.isFinite = true →
      x.value ≤ y.value → (x.scaled : ℚ) / 100000 ≤ y.scaled / 100000 := by
    intro x y hx hy hxy
    refine div_le_div_of_nonneg_right ?_ (by norm_num)
    exact Int.cast_le.mpr (scaled_le_of_position hx hy (value_le_iff.mp hxy))
  refine ⟨?_, fun x => ⟨isNumeral_scaledText _, scaledText_ne_minus_zero _⟩,
    fun x => x.scaled / 100000, fun x => decimal?_scaledText _,
    fun x => scaled_of_near, fun x => abs_scaled_sub_value_le, ?_, hle⟩
  · intro x hx
    have hzero : x.scaled = 0 := if_neg (Bool.eq_false_iff.mp hx)
    show scaledText x.scaled = ascii "0"
    rw [hzero]
    decide
  · intro x y hx hy hxy
    -- the same value is written in the same way, whatever its bits
    have hneg : x.negate.isFinite = true := by
      rw [isFinite, unsignedBits_negate]
      exact hx
    have hvalue : y.value = x.negate.value := hxy.trans (value_negate x).symm
    have hsame := (hle y x.negate hy hneg hvalue.le).antisymm
      (hle x.negate y hneg hy hvalue.ge)
    show (y.scaled : ℚ) / 100000 = -(x.scaled / 100000)
    rw [hsame, scaled_negate, Int.cast_neg, neg_div]

/-- The single one step below three is written as three, and 12.345678 with
    five places; the one below minus three is written as minus three. -/
theorem written_real_three :
    (real ⟨0x7F800000⟩).written = ascii "0"
      ∧ ∃ denoted : Single → ℚ,
        decimal? (ascii "12.34568") = some (denoted ⟨0x414587E6⟩)
        ∧ denoted ⟨0x403FFFFF⟩ = nearest (value ⟨0x403FFFFF⟩)
        ∧ |denoted ⟨0x414587E6⟩ - value ⟨0x414587E6⟩| ≤ 1 / 200000
        ∧ denoted ⟨0xC03FFFFF⟩ = -denoted ⟨0x403FFFFF⟩
        ∧ denoted ⟨0x403FFFFF⟩ ≤ denoted ⟨0x414587E6⟩ := by
  obtain ⟨hzero, -, denoted, hread, hnear, hfar, hneg, hle⟩ := written_real
  have hthree : isFinite ⟨0x403FFFFF⟩ = true := by decide
  have htwelve : isFinite ⟨0x414587E6⟩ = true := by decide
  have hminus : isFinite ⟨0xC03FFFFF⟩ = true := by decide
  have htext : (real ⟨0x414587E6⟩).written = ascii "12.34568" := by
    decide +kernel
  refine ⟨hzero _ (by decide), denoted, htext ▸ hread _, hnear _ hthree ?_,
    hfar _ htwelve ?_, hneg _ _ hthree hminus ?_, hle _ _ hthree htwelve ?_⟩
  · exact (near_iff hthree).mpr (by decide +kernel)
  · rw [near_iff htwelve]
    decide +kernel
  · exact value_negate ⟨0x403FFFFF⟩
  · exact value_le_iff.mpr (by decide)

end Object

end Pdf
