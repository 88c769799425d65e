import Mathlib.Algebra.Order.Round
import Mathlib.Data.Rat.Floor
import Mathlib.Order.Monotone.Basic
import Mathlib.Tactic.FieldSimp
import Mathlib.Tactic.Linarith
import Mathlib.Tactic.NormNum
import Mathlib.Tactic.Ring
import Pdf.Object.Single

/-! # Rounding — the number that is written lies where the number itself lies

    The bits of a single stand for a rational number, `value`, and `scaled` is
    the multiple of 10^-5 that is written for it.  The bits below the sign
    order the magnitudes: one step up in the bits is the next magnitude, so the
    distance of two singles can be counted in steps (`position`).

    A single within two steps of the nearest integer is written as that
    integer, any other is rounded to five places.  Each of the two ways alone
    keeps the order.  They also fit together: if two singles stand on the same
    side of the integer that one of them is written as, and the other is the
    closer one, then the other is written as that integer too. -/

namespace Pdf.Single

/-! ## Rational values -/

/-- The number that exponent and fraction stand for. -/
def absolute (x : Single) : ℚ :=
  let exponent := x.unsignedBits / hiddenBit
  let fraction : ℚ := (x.unsignedBits % hiddenBit : ℕ) / 2 ^ 23
  if exponent = 0 then fraction * 2 ^ (-126 : ℤ)
  else (1 + fraction) * 2 ^ ((exponent : ℤ) - 127)

/-- The number that a finite single stands for. -/
def value (x : Single) : ℚ :=
  if x.isNegative then -x.absolute else x.absolute

/-- The integer nearest to a number; a half goes away from zero. -/
def nearest (v : ℚ) : ℤ := if v < 0 then -round (-v) else round v

/-- The place of a single in the order of all singles; both zeros share one. -/
def position (x : Single) : ℤ :=
  if x.isNegative then -(x.unsignedBits : ℤ) else x.unsignedBits

/-- The nearest integer is a finite single, at most two steps away. -/
def Near (x : Single) : Prop :=
  ∃ y : Single, y.isFinite = true ∧ y.value = nearest x.value
    ∧ |y.position - x.position| ≤ 2

/-- The single with the other sign. -/
def negate (x : Single) : Single := ⟨x.bits ^^^ 0x80000000⟩

/-! ## Magnitudes in the order of the bits -/

theorem hiddenBit_eq : hiddenBit = 8388608 := rfl

theorem one_eq : one = 2 ^ 149 := rfl

theorem one_pos : 0 < one := by decide

/-- Without an exponent, the magnitude is the fraction. -/
theorem magnitudeOfBits_of_lt {bits : Nat} (h : bits < hiddenBit) :
    magnitudeOfBits bits = bits :=
  if_pos h

/-- With an exponent, the fraction has a hidden bit in front and is shifted. -/
theorem magnitudeOfBits_of_le {bits : Nat} (h : hiddenBit ≤ bits) :
    magnitudeOfBits bits = (hiddenBit + bits % hiddenBit)
      * 2 ^ (bits / hiddenBit - 1) := by
  rw [magnitudeOfBits, if_neg (Nat.not_lt.mpr h), Nat.shiftLeft_eq]

/-- One step up in the bits is a larger magnitude. -/
theorem magnitudeOfBits_lt_succ (bits : Nat) :
    magnitudeOfBits bits < magnitudeOfBits (bits + 1) := by
  have hmod : bits % hiddenBit < hiddenBit := Nat.mod_lt _ (by decide)
  by_cases hsub : bits + 1 < hiddenBit
  · rw [magnitudeOfBits_of_lt hsub, magnitudeOfBits_of_lt (by omega)]
    exact Nat.lt_succ_self bits
  rw [magnitudeOfBits_of_le (Nat.not_lt.mp hsub)]
  by_cases hlast : bits + 1 = hiddenBit
  · -- from the largest subnormal to the least in full precision
    rw [magnitudeOfBits_of_lt (by omega), hlast, Nat.mod_self,
      Nat.div_self (by decide)]
    omega
  rw [magnitudeOfBits_of_le (by omega)]
  by_cases hcarry : (bits + 1) % hiddenBit = 0
  · -- the exponent goes up by one, and the fraction starts again
    obtain ⟨e, he, hdiv⟩ : ∃ e, bits / hiddenBit = e + 1
        ∧ (bits + 1) / hiddenBit = e + 2 := by
      rw [hiddenBit_eq] at hsub hlast hcarry ⊢
      exact ⟨bits / 8388608 - 1, by omega, by omega⟩
    rw [hcarry, hdiv, he]
    calc (hiddenBit + bits % hiddenBit) * 2 ^ e
        < (hiddenBit + hiddenBit) * 2 ^ e :=
          Nat.mul_lt_mul_of_pos_right (by omega) (Nat.two_pow_pos e)
      _ = (hiddenBit + 0) * 2 ^ (e + 1) := by ring
  · have hnext : (bits + 1) / hiddenBit = bits / hiddenBit
        ∧ (bits + 1) % hiddenBit = bits % hiddenBit + 1 := by
      rw [hiddenBit_eq] at hcarry ⊢
      omega
    rw [hnext.1, hnext.2]
    exact Nat.mul_lt_mul_of_pos_right (by omega) (Nat.two_pow_pos _)

/-- The bits below the sign order the magnitudes. -/
theorem strictMono_magnitudeOfBits : StrictMono magnitudeOfBits :=
  strictMono_nat_of_lt_succ magnitudeOfBits_lt_succ

theorem magnitudeOfBits_eq_zero {bits : Nat} (h : magnitudeOfBits bits = 0) :
    bits = 0 :=
  strictMono_magnitudeOfBits.injective (h.trans (by decide))

/-- From 2^23 on, where nothing of the fraction stands behind the point,
    every magnitude is that of an integer. -/
theorem one_dvd_magnitudeOfBits {bits : Nat} (h : 150 * hiddenBit ≤ bits) :
    one ∣ magnitudeOfBits bits := by
  have hexp : 150 ≤ bits / hiddenBit :=
    (Nat.le_div_iff_mul_le (by decide)).mpr h
  rw [magnitudeOfBits_of_le (by rw [hiddenBit_eq] at h ⊢; omega), one_eq]
  exact Dvd.dvd.mul_left (pow_dvd_pow 2 (by omega)) _

/-- The bits without the sign order the magnitudes. -/
theorem magnitude_le {x y : Single} (h : x.unsignedBits ≤ y.unsignedBits) :
    x.magnitude ≤ y.magnitude :=
  strictMono_magnitudeOfBits.monotone h

/-! ## The nearest integer -/

/-- The nearest integer is one half away at most, and of two the larger one. -/
theorem nearestInteger_eq_iff (x : Single) (n : Nat) :
    x.nearestInteger = n ↔ n * one ≤ x.magnitude + one / 2
      ∧ x.magnitude + one / 2 < (n + 1) * one := by
  rw [nearestInteger, Nat.div_eq_iff one_pos]
  have hpos := one_pos
  rw [Nat.add_mul, Nat.one_mul]
  omega

/-- A greater magnitude does not have a smaller nearest integer. -/
theorem nearestInteger_le {x y : Single} (h : x.magnitude ≤ y.magnitude) :
    x.nearestInteger ≤ y.nearestInteger :=
  Nat.div_le_div_right (Nat.add_le_add_right h _)

/-- An integer is its own nearest. -/
theorem nearestInteger_mul_one {x : Single} (h : one ∣ x.magnitude) :
    x.nearestInteger * one = x.magnitude := by
  obtain ⟨n, hn⟩ := h
  have he : x.nearestInteger = n := by
    rw [nearestInteger_eq_iff, hn, Nat.add_mul, Nat.mul_comm n one]
    have hpos := one_pos
    omega
  rw [he, hn, Nat.mul_comm]

/-- A single is near an integer if the integer has bits within two steps. -/
theorem isNearInteger_iff (x : Single) :
    x.isNearInteger = true ↔ ∃ bits, bits ≤ x.unsignedBits + 2
      ∧ x.unsignedBits ≤ bits + 2
      ∧ magnitudeOfBits bits = x.nearestInteger * one := by
  rw [isNearInteger, List.any_eq_true]
  constructor
  · rintro ⟨step, hstep, h⟩
    have hle : step ≤ 4 := by
      revert hstep
      simp only [List.mem_cons, List.not_mem_nil, or_false]
      omega
    exact ⟨x.unsignedBits + step - 2, by omega, by omega, beq_iff_eq.mp h⟩
  · rintro ⟨bits, hle, hge, h⟩
    refine ⟨bits + 2 - x.unsignedBits, ?_, ?_⟩
    · simp only [List.mem_cons, List.not_mem_nil, or_false]
      omega
    · rw [beq_iff_eq, ← h]
      congr 1
      omega

/-- What stands between a single and the integer that it is near to is near
    to the same integer. -/
theorem isNearInteger_of_between {x y : Single}
    (hx : x.isNearInteger = true)
    (h : (x.unsignedBits ≤ y.unsignedBits
        ∧ y.magnitude ≤ x.nearestInteger * one)
      ∨ (y.unsignedBits ≤ x.unsignedBits
        ∧ x.nearestInteger * one ≤ y.magnitude)) :
    y.isNearInteger = true ∧ y.nearestInteger = x.nearestInteger := by
  obtain ⟨bits, hle, hge, hbits⟩ := (isNearInteger_iff x).mp hx
  obtain ⟨hlow, hhigh⟩ := (nearestInteger_eq_iff x _).mp rfl
  have hhalf : one / 2 < one := Nat.div_lt_self one_pos (by decide)
  -- the integer is the nearest one of both
  have hsame : y.nearestInteger = x.nearestInteger := by
    rw [nearestInteger_eq_iff]
    rcases h with ⟨hxy, hy⟩ | ⟨hyx, hy⟩
    · have hmag := magnitude_le hxy
      rw [Nat.add_mul, Nat.one_mul]
      omega
    · have hmag := magnitude_le hyx
      omega
  have hsteps : bits ≤ y.unsignedBits + 2 ∧ y.unsignedBits ≤ bits + 2 := by
    rcases h with ⟨hxy, hy⟩ | ⟨hyx, hy⟩
    · have hbehind : y.unsignedBits ≤ bits :=
        strictMono_magnitudeOfBits.le_iff_le.mp (hy.trans_eq hbits.symm)
      omega
    · have hfront : bits ≤ y.unsignedBits :=
        strictMono_magnitudeOfBits.le_iff_le.mp (hbits.trans_le hy)
      omega
  rw [← hsame] at hbits
  exact ⟨(isNearInteger_iff y).mpr ⟨bits, hsteps.1, hsteps.2, hbits⟩, hsame⟩

/-! ## Rounding to five places -/

/-- A quotient is rounded down or up. -/
theorem div_le_roundQuotient (num den : Nat) :
    num / den ≤ roundQuotient num den
      ∧ roundQuotient num den ≤ num / den + 1 := by
  rw [roundQuotient]
  split
  · omega
  · split <;> omega

/-- A quotient is rounded by at most one half. -/
theorem roundQuotient_mul_le (num : Nat) {den : Nat} (hden : 0 < den) :
    2 * (roundQuotient num den * den) ≤ 2 * num + den
      ∧ 2 * num ≤ 2 * (roundQuotient num den * den) + den := by
  have hdiv : num / den * den + num % den = num := Nat.div_add_mod' num den
  have hmod : num % den < den := Nat.mod_lt _ hden
  rw [roundQuotient]
  split
  case isTrue hdown => omega
  case isFalse hdown =>
    split
    case isTrue hup =>
      rw [Nat.add_mul, Nat.one_mul]
      omega
    case isFalse hup =>
      -- a tie goes either way
      rcases Nat.mod_two_eq_zero_or_one (num / den) with heven | hodd
      · rw [heven, Nat.add_zero]
        omega
      · rw [hodd, Nat.add_mul, Nat.one_mul]
        omega

/-- A greater numerator is not rounded to less. -/
theorem roundQuotient_le {a b den : Nat} (h : a ≤ b) :
    roundQuotient a den ≤ roundQuotient b den := by
  obtain hlt | heq := (Nat.div_le_div_right h : a / den ≤ b / den).lt_or_eq
  · exact (div_le_roundQuotient a den).2.trans
      (hlt.trans_le (div_le_roundQuotient b den).1)
  -- of one whole part, the smaller remainder goes up only with the larger one
  have ha := Nat.div_add_mod' a den
  have hb := Nat.div_add_mod' b den
  have hmod : a % den ≤ b % den := by
    rw [heq] at ha
    omega
  by_cases hdown : 2 * (a % den) < den
  · rw [roundQuotient, if_pos hdown, heq]
    exact (div_le_roundQuotient b den).1
  by_cases hup : den < 2 * (b % den)
  · calc roundQuotient a den ≤ a / den + 1 := (div_le_roundQuotient a den).2
      _ = roundQuotient b den := by
          rw [roundQuotient, if_neg (by omega), if_pos hup, heq]
  · have hsame : a % den = b % den := by omega
    rw [roundQuotient, roundQuotient, heq, hsame]

/-- A whole quotient is not changed by rounding. -/
theorem roundQuotient_mul (n den : Nat) (hden : 0 < den) :
    roundQuotient (n * den) den = n := by
  rw [roundQuotient, Nat.mul_mod_left, Nat.mul_div_cancel n hden]
  exact if_pos hden

/-! ## The number of the text -/

theorem scaledMagnitude_of_near {x : Single} (h : x.isNearInteger = true) :
    x.scaledMagnitude = x.nearestInteger * decimalOne :=
  if_pos h

theorem scaledMagnitude_of_not_near {x : Single} (h : ¬x.isNearInteger = true) :
    x.scaledMagnitude = roundQuotient (x.magnitude * decimalOne) one :=
  if_neg h

/-- An integer in units of 10^-5 comes out of the rounding as it is. -/
theorem roundQuotient_integer (n : Nat) :
    roundQuotient (n * one * decimalOne) one = n * decimalOne := by
  rw [Nat.mul_right_comm]
  exact roundQuotient_mul _ one one_pos

/-- **A larger magnitude is not written as a smaller one**, also where one of
    them is written as an integer and the other with five places. -/
theorem scaledMagnitude_le {x y : Single}
    (h : x.unsignedBits ≤ y.unsignedBits) :
    x.scaledMagnitude ≤ y.scaledMagnitude := by
  have hmag := magnitude_le h
  by_cases hx : x.isNearInteger = true <;>
    by_cases hy : y.isNearInteger = true
  · rw [scaledMagnitude_of_near hx, scaledMagnitude_of_near hy]
    exact Nat.mul_le_mul_right _ (nearestInteger_le hmag)
  · -- the integer does not stand behind `y`, which would be near to it too
    rw [scaledMagnitude_of_near hx, scaledMagnitude_of_not_near hy,
      ← roundQuotient_integer x.nearestInteger]
    refine roundQuotient_le (Nat.mul_le_mul_right _ ?_)
    by_contra hbehind
    exact hy (isNearInteger_of_between hx
      (Or.inl ⟨h, (Nat.not_le.mp hbehind).le⟩)).1
  · -- the integer does not stand in front of `x`, for the same reason
    rw [scaledMagnitude_of_not_near hx, scaledMagnitude_of_near hy,
      ← roundQuotient_integer y.nearestInteger]
    refine roundQuotient_le (Nat.mul_le_mul_right _ ?_)
    by_contra hfront
    exact hx (isNearInteger_of_between hy
      (Or.inr ⟨h, (Nat.not_le.mp hfront).le⟩)).1
  · rw [scaledMagnitude_of_not_near hx, scaledMagnitude_of_not_near hy]
    exact roundQuotient_le (Nat.mul_le_mul_right _ hmag)

/-- Zero is written as zero. -/
theorem scaledMagnitude_zero {x : Single} (h : x.unsignedBits = 0) :
    x.scaledMagnitude = 0 := by
  have hmag : x.magnitude = 0 := by
    rw [magnitude, h]
    decide
  have hint : x.nearestInteger = 0 := by
    rw [nearestInteger, hmag]
    decide
  have hround : roundQuotient 0 one = 0 := by decide
  rw [scaledMagnitude, hint, hmag, Nat.zero_mul, hround, ite_self]

/-! ## Signs -/

/-- The singles in their order are written in order. -/
theorem scaled_le_of_position {x y : Single} (hx : x.isFinite = true)
    (hy : y.isFinite = true) (h : x.position ≤ y.position) :
    x.scaled ≤ y.scaled := by
  rw [scaled, scaled, if_pos hx, if_pos hy]
  rw [position, position] at h
  by_cases hxn : x.isNegative = true <;> by_cases hyn : y.isNegative = true
  · rw [if_pos hxn, if_pos hyn] at h ⊢
    have hle := scaledMagnitude_le (x := y) (y := x) (by omega)
    omega
  · rw [if_pos hxn, if_neg hyn]
    omega
  · -- only the zeros are on both sides
    rw [if_neg hxn, if_pos hyn] at h ⊢
    rw [scaledMagnitude_zero (x := x) (by omega),
      scaledMagnitude_zero (x := y) (by omega)]
    exact Int.le_refl _
  · rw [if_neg hxn, if_neg hyn] at h ⊢
    exact Int.ofNat_le.mpr (scaledMagnitude_le (by omega))

/-- The sign is the highest bit. -/
theorem isNegative_eq (x : Single) :
    x.isNegative = true ↔ 2 ^ 31 ≤ x.bits.toNat :=
  decide_eq_true_iff

theorem unsignedBits_negate (x : Single) :
    x.negate.unsignedBits = x.unsignedBits := by
  show (x.bits ^^^ 0x80000000).toNat % 2 ^ 31 = x.bits.toNat % 2 ^ 31
  rw [UInt32.toNat_xor, Nat.xor_mod_two_pow]
  show x.bits.toNat % 2 ^ 31 ^^^ 0 = x.bits.toNat % 2 ^ 31
  exact Nat.xor_zero _

theorem isNegative_negate (x : Single) :
    x.negate.isNegative = !x.isNegative := by
  have hlt : x.bits.toNat < 2 ^ 32 := x.bits.toNat_lt
  have hdiv : (x.bits ^^^ 0x80000000).toNat / 2 ^ 31
      = x.bits.toNat / 2 ^ 31 ^^^ 1 := by
    rw [UInt32.toNat_xor, Nat.xor_div_two_pow]
    rfl
  have hneg : x.negate.isNegative = true ↔ ¬x.isNegative = true := by
    rw [isNegative_eq, isNegative_eq]
    show 2 ^ 31 ≤ (x.bits ^^^ 0x80000000).toNat ↔ ¬2 ^ 31 ≤ x.bits.toNat
    rcases (by omega : x.bits.toNat / 2 ^ 31 = 0 ∨ x.bits.toNat / 2 ^ 31 = 1)
      with h | h
    · rw [h] at hdiv
      have hone : 0 ^^^ 1 = 1 := rfl
      omega
    · rw [h] at hdiv
      have hzero : 1 ^^^ 1 = 0 := rfl
      omega
  rw [Bool.eq_iff_iff, hneg, Bool.not_eq_true', Bool.not_eq_true]

/-- A single of the other sign is written with the other sign. -/
theorem scaled_negate (x : Single) : x.negate.scaled = -x.scaled := by
  have hbits := unsignedBits_negate x
  have hmag : x.negate.scaledMagnitude = x.scaledMagnitude :=
    (scaledMagnitude_le hbits.le).antisymm (scaledMagnitude_le hbits.ge)
  have hfin : x.negate.isFinite = x.isFinite := by
    rw [isFinite, isFinite, hbits]
  rw [scaled, scaled, hmag, hfin, isNegative_negate]
  cases x.isFinite with
  | false => rfl
  | true =>
      cases x.isNegative with
      | false => rfl
      | true => exact (Int.neg_neg _).symm

/-! ## Values in units of 2^-149 -/

/-- The magnitude counts units of 2^-149. -/
theorem absolute_eq (x : Single) : x.absolute = x.magnitude / 2 ^ 149 := by
  rw [absolute, magnitude]
  by_cases hsub : x.unsignedBits < hiddenBit
  · rw [magnitudeOfBits_of_lt hsub]
    simp only [Nat.div_eq_of_lt hsub, Nat.mod_eq_of_lt hsub, if_true]
    norm_num
    ring
  · have hle := Nat.not_lt.mp hsub
    obtain ⟨e, he⟩ : ∃ e, x.unsignedBits / hiddenBit = e + 1 :=
      Nat.exists_eq_add_one.mpr (Nat.div_pos hle (by decide))
    rw [magnitudeOfBits_of_le hle]
    simp only [he, Nat.add_one_sub_one, Nat.add_eq_zero_iff, one_ne_zero,
      and_false, if_false]
    have hexp : ((e + 1 : ℕ) : ℤ) - 127 = (e : ℤ) - 126 := by omega
    rw [hexp, zpow_sub₀ (by norm_num), zpow_natCast, hiddenBit_eq]
    push_cast
    norm_num
    ring

/-- A value is a whole multiple of 2^-149. -/
theorem value_eq (x : Single) : x.value
    = (if x.isNegative then -(x.magnitude : ℚ) else x.magnitude) / 2 ^ 149 := by
  rw [value, absolute_eq]
  split
  · rw [neg_div]
  · rfl

/-- To negate the sign is to negate the value. -/
theorem value_negate (x : Single) : x.negate.value = -x.value := by
  have hmag : x.negate.magnitude = x.magnitude := by
    rw [magnitude, magnitude, unsignedBits_negate]
  rw [value_eq, value_eq, hmag, isNegative_negate]
  cases x.isNegative with
  | false => exact neg_div _ _
  | true =>
      show (x.magnitude : ℚ) / 2 ^ 149 = -(-(x.magnitude : ℚ) / 2 ^ 149)
      rw [neg_div, neg_neg]

/-- **The places of singles are in the order of their values**, so the steps
    between two places count the singles between two values. -/
theorem value_le_iff {x y : Single} :
    x.value ≤ y.value ↔ x.position ≤ y.position := by
  have hmono : ∀ {a b : Single}, a.magnitude ≤ b.magnitude
      ↔ a.unsignedBits ≤ b.unsignedBits :=
    strictMono_magnitudeOfBits.le_iff_le
  rw [value_eq, value_eq, div_le_div_iff_of_pos_right (by norm_num), position,
    position]
  by_cases hxn : x.isNegative = true <;> by_cases hyn : y.isNegative = true
  · rw [if_pos hxn, if_pos hyn, if_pos hxn, if_pos hyn, neg_le_neg_iff,
      neg_le_neg_iff, Nat.cast_le, Nat.cast_le]
    exact hmono
  · rw [if_pos hxn, if_neg hyn, if_pos hxn, if_neg hyn]
    refine iff_of_true ?_ (by omega)
    exact (neg_nonpos.mpr (Nat.cast_nonneg _)).trans (Nat.cast_nonneg _)
  · rw [if_neg hxn, if_pos hyn, if_neg hxn, if_pos hyn]
    constructor
    · intro h
      have hsum : ((x.magnitude + y.magnitude : ℕ) : ℚ) ≤ (0 : ℕ) := by
        push_cast
        linarith
      have hzero := Nat.cast_le.mp hsum
      rw [magnitude, magnitude] at hzero
      have hx : x.unsignedBits = 0 := magnitudeOfBits_eq_zero (by omega)
      have hy : y.unsignedBits = 0 := magnitudeOfBits_eq_zero (by omega)
      omega
    · intro h
      have hx : x.unsignedBits = 0 := by omega
      have hy : y.unsignedBits = 0 := by omega
      rw [magnitude, magnitude, hx, hy]
      norm_num [magnitudeOfBits, hiddenBit]
  · rw [if_neg hxn, if_neg hyn, if_neg hxn, if_neg hyn, Nat.cast_le,
      Nat.cast_le]
    exact hmono

/-! ## Distance from the value -/

/-- The integer nearest to the value is the one nearest to the magnitude. -/
theorem nearest_value (x : Single) : nearest x.value
    = if x.isNegative then -(x.nearestInteger : ℤ) else x.nearestInteger := by
  have hround : round ((x.magnitude : ℚ) / 2 ^ 149) = x.nearestInteger := by
    have hhalf : (x.magnitude : ℚ) / 2 ^ 149 + 1 / 2
        = ((x.magnitude + one / 2 : ℕ) : ℚ) / (one : ℕ) := by
      rw [one_eq]
      norm_num
      ring
    rw [round_eq, hhalf, Rat.floor_natCast_div_natCast]
    rfl
  have hnonneg : 0 ≤ (x.magnitude : ℚ) / 2 ^ 149 :=
    div_nonneg (Nat.cast_nonneg _) (by norm_num)
  rw [nearest, value_eq]
  by_cases hneg : x.isNegative = true
  · rw [if_pos hneg, if_pos hneg, neg_div, neg_neg, hround]
    split
    case isTrue => rfl
    case isFalse hzero =>
      -- of the negative ones only zero is not below zero
      have he : (x.magnitude : ℚ) / 2 ^ 149 = 0 := by linarith
      rw [he] at hround ⊢
      rw [← hround, neg_zero, round_zero, neg_zero]
  · rw [if_neg hneg, if_neg hneg, if_neg (not_lt.mpr hnonneg), hround]

/-- Every choice of the sign and of the bits below it is a single. -/
theorem exists_of_bits (negative : Bool) {bits : Nat} (h : bits < 2 ^ 31) :
    ∃ y : Single, y.isNegative = negative ∧ y.unsignedBits = bits := by
  let y : Single := ⟨UInt32.ofNat bits⟩
  have hnat : y.bits.toNat = bits :=
    UInt32.toNat_ofNat_of_lt' (h.trans (by decide))
  have hbits : y.unsignedBits = bits := by
    rw [unsignedBits, hnat]
    exact Nat.mod_eq_of_lt h
  have hsign : y.isNegative = false := by
    rw [isNegative, hnat]
    exact decide_eq_false (Nat.not_le.mpr h)
  cases negative with
  | false => exact ⟨y, hsign, hbits⟩
  | true =>
      refine ⟨y.negate, ?_, (unsignedBits_negate y).trans hbits⟩
      rw [isNegative_negate, hsign]
      rfl

/-- A number is finite if its exponent is not the highest one. -/
theorem isFinite_iff (x : Single) :
    x.isFinite = true ↔ x.unsignedBits < 255 * hiddenBit :=
  decide_eq_true_iff

/-- A single that is the nearest integer of another has the magnitude of that
    integer. -/
theorem magnitude_of_value {x y : Single} (h : y.value = nearest x.value) :
    y.magnitude = x.nearestInteger * one := by
  have hpow : ((one : ℕ) : ℚ) = 2 ^ 149 := by
    rw [one_eq]
    norm_num
  have habs : |y.value| = |(nearest x.value : ℚ)| := congrArg _ h
  have hy : |y.value| = y.magnitude / 2 ^ 149 := by
    rw [value_eq, abs_div, abs_of_pos (by norm_num : (0 : ℚ) < 2 ^ 149)]
    split
    · rw [abs_neg, Nat.abs_cast]
    · rw [Nat.abs_cast]
  have hx : |(nearest x.value : ℚ)| = x.nearestInteger := by
    rw [nearest_value]
    split
    · rw [Int.cast_neg, abs_neg, Int.cast_natCast, Nat.abs_cast]
    · rw [Int.cast_natCast, Nat.abs_cast]
  rw [hy, hx, div_eq_iff (by norm_num), ← hpow] at habs
  exact_mod_cast habs

/-- The printer looks for the bits of the nearest integer within two steps,
    and that finds every single there is. -/
theorem near_iff {x : Single} (hfin : x.isFinite = true) :
    x.Near ↔ x.isNearInteger = true := by
  rw [isNearInteger_iff]
  constructor
  · rintro ⟨y, -, hval, hdist⟩
    -- with the signs apart, the steps between the places are even more
    have hsteps : y.unsignedBits ≤ x.unsignedBits + 2
        ∧ x.unsignedBits ≤ y.unsignedBits + 2 := by
      rw [position, position, abs_le] at hdist
      revert hdist
      split <;> split <;> omega
    exact ⟨y.unsignedBits, hsteps.1, hsteps.2, magnitude_of_value hval⟩
  · rintro ⟨bits, hle, hge, hbits⟩
    have hfinite : bits < 255 * hiddenBit := by
      rw [isFinite_iff] at hfin
      by_cases hlarge : 150 * hiddenBit ≤ x.unsignedBits
      · -- a number without places after the point is that integer itself
        have hself := nearestInteger_mul_one (one_dvd_magnitudeOfBits hlarge)
        rw [strictMono_magnitudeOfBits.injective (hbits.trans hself)]
        exact hfin
      · rw [hiddenBit_eq] at hlarge ⊢
        omega
    obtain ⟨y, hsign, hy⟩ := exists_of_bits x.isNegative
      (hfinite.trans (by decide : 255 * hiddenBit < 2 ^ 31))
    have hmag : (y.magnitude : ℚ) / 2 ^ 149 = x.nearestInteger := by
      rw [magnitude, hy, hbits, one_eq, Nat.cast_mul]
      norm_num
    refine ⟨y, (isFinite_iff y).mpr (hy ▸ hfinite), ?_, ?_⟩
    · rw [value_eq, hsign, nearest_value]
      split
      · rw [neg_div, hmag, Int.cast_neg, Int.cast_natCast]
      · rw [hmag, Int.cast_natCast]
    · rw [position, position, hsign, hy, abs_le]
      split <;> omega

/-- A number that is near an integer is written as the integer nearest to it. -/
theorem scaled_of_near {x : Single} (hfin : x.isFinite = true)
    (h : x.Near) : (x.scaled : ℚ) / 100000 = nearest x.value := by
  rw [scaled, if_pos hfin, scaledMagnitude_of_near ((near_iff hfin).mp h),
    nearest_value]
  have hone : (decimalOne : ℚ) = 100000 := by norm_num [decimalOne]
  split
  · push_cast
    rw [hone]
    ring
  · push_cast
    rw [hone]
    ring

/-- Any other number is written with an error of at most half a unit of
    10^-5. -/
theorem abs_scaled_sub_value_le {x : Single} (hfin : x.isFinite = true)
    (h : ¬x.Near) : |(x.scaled : ℚ) / 100000 - x.value| ≤ 1 / 200000 := by
  rw [near_iff hfin] at h
  have hround := roundQuotient_mul_le (x.magnitude * decimalOne) one_pos
  rw [← scaledMagnitude_of_not_near h] at hround
  -- the same two bounds in units of 10^-5 · 2^-149
  have hhigh : (2 * (x.scaledMagnitude * 2 ^ 149) : ℚ)
      ≤ 2 * (x.magnitude * 100000) + 2 ^ 149 := by
    exact_mod_cast hround.1
  have hlow : (2 * (x.magnitude * 100000) : ℚ)
      ≤ 2 * (x.scaledMagnitude * 2 ^ 149) + 2 ^ 149 := by
    exact_mod_cast hround.2
  have habs : |(x.scaledMagnitude : ℚ) / 100000 - x.magnitude / 2 ^ 149|
      ≤ 1 / 200000 := by
    have hbelow : (x.magnitude : ℚ) / 2 ^ 149
        ≤ x.scaledMagnitude / 100000 + 1 / 200000 := by
      rw [div_le_iff₀ (by norm_num)]
      linarith
    have habove : (x.scaledMagnitude : ℚ) / 100000 - 1 / 200000
        ≤ x.magnitude / 2 ^ 149 := by
      rw [le_div_iff₀ (by norm_num)]
      linarith
    rw [abs_le]
    constructor <;> linarith
  rw [scaled, if_pos hfin, value_eq]
  split
  · rw [neg_div, ← abs_neg]
    push_cast
    rwa [neg_div, neg_sub_neg, neg_sub]
  · exact habs

end Pdf.Single
