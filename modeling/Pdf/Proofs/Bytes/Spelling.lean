import Mathlib.Algebra.Group.Nat.Defs
import Pdf.Bytes
import Pdf.Text.Integer

/-! # Spellings — digits and fields, read back

    Every spelling of bytes and numbers has a reader: pairs of hexadecimal
    digits, big-endian fields, and decimal digits with or without zeros in
    front.  Each reader gives back what was spelled.  A big-endian field keeps
    a number that its width can hold, and `byteWidth` is such a width. -/

namespace Pdf

/-- What holds of the 256 bytes holds of every byte. -/
theorem forall_byte {P : UInt8 → Prop}
    (h : ∀ n : Fin 256, P (UInt8.ofNat n)) (b : UInt8) : P b := by
  have hb := h ⟨b.toNat, b.toNat_lt⟩
  rwa [UInt8.ofNat_toNat] at hb

/-- What holds of the ten digits holds of every digit. -/
theorem forall_digit {P : Char → Prop}
    (h : ∀ n : Fin 10, P (Char.ofNat (48 + n))) {c : Char}
    (hc : c.isDigit = true) : P c := by
  have hrange : 48 ≤ c.toNat ∧ c.toNat ≤ 57 := Char.isDigit_iff_toNat.mp hc
  have hn := h ⟨c.toNat - 48, by omega⟩
  rwa [Nat.add_sub_cancel' hrange.1, Char.ofNat_toNat] at hn

namespace Bytes

/-! ## Hexadecimal -/

/-- Both digits of a byte have their values, and these make up the byte. -/
theorem hexValue?_hexDigit (b : UInt8) :
    hexValue? (hexDigit (b / 16)) = some (b / 16)
      ∧ hexValue? (hexDigit (b % 16)) = some (b % 16)
      ∧ b / 16 * 16 + b % 16 = b := by
  revert b
  exact forall_byte (by decide +kernel)

/-- The digits of a byte in front of others are read last, as that byte. -/
theorem foldr_hexStep_hexPair (b : UInt8) (rest data : Bytes)
    (h : rest.foldr hexStep (some ([], none)) = some (data, none)) :
    (hexPair b ++ rest).foldr hexStep (some ([], none))
      = some (b :: data, none) := by
  obtain ⟨hhigh, hlow, hb⟩ := hexValue?_hexDigit b
  show hexStep (hexDigit (b / 16)) (hexStep (hexDigit (b % 16))
    (rest.foldr hexStep (some ([], none)))) = some (b :: data, none)
  rw [h]
  show hexStep (hexDigit (b / 16)) ((hexValue? (hexDigit (b % 16))).map
    fun low => (data, some low)) = some (b :: data, none)
  rw [hlow]
  show ((hexValue? (hexDigit (b / 16))).map fun high =>
    ((high * 16 + b % 16) :: data, none)) = some (b :: data, none)
  rw [hhigh]
  show some ((b / 16 * 16 + b % 16) :: data, none) = some (b :: data, none)
  rw [hb]

/-- Reading digits from the right puts the bytes together again. -/
theorem foldr_hexStep_flatMap (data : Bytes) :
    (data.flatMap hexPair).foldr hexStep (some ([], none))
      = some (data, none) := by
  induction data with
  | nil => rfl
  | cons b data ih =>
      rw [List.flatMap_cons]
      exact foldr_hexStep_hexPair b _ data ih

/-- Pairs of hexadecimal digits spell their bytes. -/
theorem ofHexPairs?_flatMap_hexPair (data : Bytes) :
    ofHexPairs? (data.flatMap hexPair) = some data := by
  rw [ofHexPairs?, foldr_hexStep_flatMap]

/-- Each byte takes two hexadecimal digits. -/
theorem length_flatMap_hexPair (data : Bytes) :
    (data.flatMap hexPair).length = 2 * data.length := by
  induction data with
  | nil => rfl
  | cons b data ih =>
      rw [List.flatMap_cons, List.length_append, ih, List.length_cons,
        length_hexPair]
      omega

/-! ## Big-endian fields -/

/-- The number that bytes spell, the most significant one first. -/
def ofBigEndian (bytes : Bytes) : Nat :=
  bytes.foldl (fun n b => n * 256 + b.toNat) 0

/-- One more byte at the end shifts what was read by eight bits. -/
theorem ofBigEndian_concat (bytes : Bytes) (b : UInt8) :
    ofBigEndian (bytes ++ [b]) = ofBigEndian bytes * 256 + b.toNat :=
  List.foldl_append

/-- A field holds every number below its capacity. -/
theorem ofBigEndian_bigEndian {width n : Nat} (h : n < 256 ^ width) :
    ofBigEndian (bigEndian width n) = n := by
  induction width generalizing n with
  | zero =>
      have hn : n = 0 := Nat.lt_one_iff.mp h
      rw [hn]
      rfl
  | succ width ih =>
      -- the last byte is the remainder, and the others spell the quotient
      have hdiv : n / 256 < 256 ^ width := by
        rw [Nat.div_lt_iff_lt_mul (by decide), ← Nat.pow_succ]
        exact h
      have hlow : n.toUInt8.toNat = n % 256 := rfl
      rw [bigEndian, ofBigEndian_concat, ih hdiv, hlow]
      omega

/-- A number fits into the bytes that it takes. -/
theorem lt_pow_byteWidth (n : Nat) : n < 256 ^ byteWidth n := by
  have hlog : n < 2 ^ (n.log2 + 1) := Nat.lt_log2_self
  -- the bits of the number, rounded up to whole bytes
  have hle : n.log2 + 1 ≤ 8 * byteWidth n := by
    rw [byteWidth]
    omega
  calc n < 2 ^ (n.log2 + 1) := hlog
    _ ≤ 2 ^ (8 * byteWidth n) := Nat.pow_le_pow_right (by decide) hle
    _ = 256 ^ byteWidth n := Nat.pow_mul 2 8 (byteWidth n)

/-- No fewer bytes than it takes hold a number. -/
theorem byteWidth_le {width n : Nat} (hwidth : 0 < width)
    (h : n < 256 ^ width) : byteWidth n ≤ width := by
  have hlog : n.log2 < 8 * width := by
    by_cases hn : n = 0
    · rw [hn, Nat.log2_zero]
      omega
    · refine (Nat.log2_lt hn).mpr ?_
      rwa [Nat.pow_mul]
  rw [byteWidth]
  omega

/-! ## Decimals -/

/-- The characters of some ASCII bytes. -/
def chars (bytes : Bytes) : List Char := bytes.map fun b => Char.ofNat b.toNat

/-- The byte of a digit is its character. -/
theorem ofNat_byte {c : Char} :
    c.isDigit = true → Char.ofNat (byte c).toNat = c :=
  forall_digit (P := fun c => Char.ofNat (byte c).toNat = c) (by decide)

/-- Digits survive the way into bytes and back. -/
theorem chars_map_byte {cs : List Char} (h : ∀ c ∈ cs, c.isDigit = true) :
    chars (cs.map byte) = cs := by
  rw [chars, List.map_map]
  refine (List.map_congr_left ?_).trans (List.map_id cs)
  intro c hc
  exact ofNat_byte (h c hc)

/-- Decimal numbers are spelled with digits only. -/
theorem isDigit_of_mem_toDigits {n : Nat} {c : Char}
    (h : c ∈ Nat.toDigits 10 n) : c.isDigit = true :=
  Nat.isDigit_of_mem_toDigits (by decide) (by decide) h

/-- The bytes of a decimal number are read as its digits. -/
theorem chars_decimal (n : Nat) : chars (decimal n) = Nat.toDigits 10 n :=
  chars_map_byte fun _ hc => isDigit_of_mem_toDigits hc

/-- A decimal number in a file consists of digits. -/
theorem isDigit_of_mem_chars_decimal {n : Nat} {c : Char}
    (h : c ∈ chars (decimal n)) : c.isDigit = true := by
  rw [chars_decimal] at h
  exact isDigit_of_mem_toDigits h

theorem decimal_ne_nil (n : Nat) : decimal n ≠ [] := by
  intro h
  exact Nat.toDigits_ne_nil (List.map_eq_nil_iff.mp h)

/-- The characters of a number in decimal are the digits that spell it. -/
theorem digits?_chars_decimal (n : Nat) :
    Text.digits? (chars (decimal n)) = some n := by
  have hall : (Nat.toDigits 10 n).all Char.isDigit = true :=
    List.all_eq_true.mpr fun _ hc => isDigit_of_mem_toDigits hc
  rw [chars_decimal, Text.digits?, if_pos ⟨Nat.toDigits_ne_nil, hall⟩,
    Nat.ofDigitChars_ten_toDigits]

/-- The first character is a digit, so there is no sign to split off. -/
theorem natural?_chars_decimal (n : Nat) :
    Text.natural? (chars (decimal n)) = some n := by
  rw [Text.natural?.eq_def]
  split
  · next cs hcs =>
      have hplus : '+' ∈ chars (decimal n) := hcs ▸ List.mem_cons_self
      exact absurd (isDigit_of_mem_chars_decimal hplus) (by decide)
  · exact digits?_chars_decimal n

/-- Zeros in front do not change a number. -/
theorem digits?_chars_paddedDecimal (width n : Nat) :
    Text.digits? (chars (paddedDecimal width n)) = some n := by
  let zeros := List.replicate (width - (decimal n).length) '0'
  have hpad : paddedDecimal width n
      = (zeros ++ Nat.toDigits 10 n).map byte := by
    rw [List.map_append, List.map_replicate]
    rfl
  have hdigit : ∀ c ∈ zeros ++ Nat.toDigits 10 n, c.isDigit = true := by
    intro c hc
    rcases List.mem_append.mp hc with hz | hd
    · rw [List.eq_of_mem_replicate hz]
      rfl
    · exact isDigit_of_mem_toDigits hd
  have hne : zeros ++ Nat.toDigits 10 n ≠ [] :=
    List.append_ne_nil_of_right_ne_nil _ Nat.toDigits_ne_nil
  rw [hpad, chars_map_byte hdigit, Text.digits?,
    if_pos ⟨hne, List.all_eq_true.mpr hdigit⟩, Nat.ofDigitChars_append,
    Nat.ofDigitChars_replicate_zero, Nat.mul_zero,
    Nat.ofDigitChars_ten_toDigits]

/-- A number below a power of ten is padded to exactly that many digits. -/
theorem length_paddedDecimal_of_lt {width n : Nat} (hw : 0 < width)
    (h : n < 10 ^ width) : (paddedDecimal width n).length = width := by
  have hlen : (decimal n).length ≤ width := by
    rw [decimal, List.length_map]
    exact (Nat.length_toDigits_le_iff (by decide) hw).mpr h
  rw [length_paddedDecimal]
  omega

end Bytes

end Pdf
