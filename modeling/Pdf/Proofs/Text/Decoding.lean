import Pdf.Object.Basic
import Pdf.Proofs.Bytes.Spelling

/-! # Text strings, decoded — every text comes back

    A text string is read as UTF-16 if a byte order mark is in front of it, and
    as ASCII if not.  A unit that is no surrogate is a character, and a high
    surrogate is one together with the low surrogate behind it; any other unit
    spells nothing.  Whatever a text holds, the string that stands for it is
    read as that text, so different texts have different strings. -/

namespace Pdf

namespace Text

/-! ## Decoding -/

/-- The units that bytes spell, the high byte of each unit first. -/
def units? : Bytes → Option (List UInt16)
  | [] => some []
  | [_] => none
  | high :: low :: rest =>
      (units? rest).map ((high.toNat * 256 + low.toNat).toUInt16 :: ·)

/-- The character of a surrogate pair, if the units are one. -/
def pair? (high low : Nat) : Option Char :=
  if 0xD800 ≤ high ∧ high < 0xDC00 ∧ 0xDC00 ≤ low ∧ low < 0xE000 then
    some (.ofNat (0x10000 + (high - 0xD800) * 0x400 + (low - 0xDC00)))
  else none

/-- The characters that units spell. -/
def characters? : List UInt16 → Option (List Char)
  | [] => some []
  | unit :: rest =>
      if unit.toNat < 0xD800 ∨ 0xE000 ≤ unit.toNat then
        (characters? rest).map (Char.ofNat unit.toNat :: ·)
      else
        match rest with
        | [] => none
        | low :: rest =>
            match pair? unit.toNat low.toNat, characters? rest with
            | some c, some cs => some (c :: cs)
            | _, _ => none

/-- The text of a text string. -/
def decode? : Bytes → Option String
  | 0xFE :: 0xFF :: bytes =>
      ((units? bytes).bind characters?).map String.ofList
  | bytes =>
      if bytes.all (·.toNat < 0x80) then
        some (String.ofList (Bytes.chars bytes))
      else none

/-! ## UTF-16 -/

/-- Units are read back from their bytes. -/
theorem units?_unitBytes (us : List UInt16) :
    units? (unitBytes us) = some us := by
  induction us with
  | nil => rfl
  | cons u us ih =>
      have hlt : u.toNat < 65536 := u.toNat_lt
      have hhigh : (u.toNat / 256).toUInt8.toNat = u.toNat / 256 := by
        show u.toNat / 256 % 256 = u.toNat / 256
        omega
      have hlow : u.toNat.toUInt8.toNat = u.toNat % 256 := rfl
      have hunit : (u.toNat / 256).toUInt8.toNat * 256
          + u.toNat.toUInt8.toNat = u.toNat := by
        rw [hhigh, hlow]
        omega
      show units? ((u.toNat / 256).toUInt8 :: u.toNat.toUInt8 :: unitBytes us)
        = some (u :: us)
      rw [units?, hunit, ih]
      exact congrArg (fun v => some (v :: us)) UInt16.ofNat_toNat

/-- A character is no surrogate, and lies within the range of Unicode. -/
theorem toNat_cases (c : Char) : c.toNat < 0xD800
    ∨ (0xE000 ≤ c.toNat ∧ c.toNat < 0x110000) := by
  rcases c.valid with hlow | ⟨hhigh, hlt⟩
  · exact Or.inl hlow
  · exact Or.inr ⟨hhigh, hlt⟩

/-- A unit that is no surrogate is a character. -/
theorem characters?_of_plain {unit : UInt16} (us : List UInt16)
    (h : unit.toNat < 0xD800 ∨ 0xE000 ≤ unit.toNat) :
    characters? (unit :: us)
      = (characters? us).map (Char.ofNat unit.toNat :: ·) := by
  rw [characters?.eq_def]
  exact if_pos h

/-- A pair of surrogates is a character. -/
theorem characters?_of_pair {high low : UInt16} {c : Char} (us : List UInt16)
    (h : ¬(high.toNat < 0xD800 ∨ 0xE000 ≤ high.toNat))
    (hpair : pair? high.toNat low.toNat = some c) :
    characters? (high :: low :: us) = (characters? us).map (c :: ·) := by
  rw [characters?.eq_def]
  refine (if_neg h).trans ?_
  simp only [hpair]
  cases characters? us with
  | none => rfl
  | some cs => rfl

/-- The units of a character in front of others are read as that character. -/
theorem characters?_unitsOfChar_append (c : Char) (us : List UInt16) :
    characters? (unitsOfChar c ++ us) = (characters? us).map (c :: ·) := by
  have hcases := toNat_cases c
  rw [unitsOfChar]
  by_cases hc : c.toNat < 0x10000
  · have hplain := @characters?_of_plain c.toNat.toUInt16 us
    rw [UInt16.toNat_ofNat_of_lt' hc, Char.ofNat_toNat] at hplain
    rw [if_pos hc]
    exact hplain (by omega)
  · -- the pair holds the ten high and the ten low bits of what is left
    have hhigh : (0xD800 + (c.toNat - 0x10000) / 0x400).toUInt16.toNat
        = 0xD800 + (c.toNat - 0x10000) / 0x400 :=
      UInt16.toNat_ofNat_of_lt' (show _ < 0x10000 by omega)
    have hlow : (0xDC00 + (c.toNat - 0x10000) % 0x400).toUInt16.toNat
        = 0xDC00 + (c.toNat - 0x10000) % 0x400 :=
      UInt16.toNat_ofNat_of_lt' (show _ < 0x10000 by omega)
    have hpair : pair? (0xD800 + (c.toNat - 0x10000) / 0x400)
        (0xDC00 + (c.toNat - 0x10000) % 0x400) = some c := by
      have hsum : 0x10000 + (0xD800 + (c.toNat - 0x10000) / 0x400 - 0xD800)
          * 0x400 + (0xDC00 + (c.toNat - 0x10000) % 0x400 - 0xDC00)
          = c.toNat := by
        omega
      rw [pair?, if_pos (by omega), hsum, Char.ofNat_toNat]
    rw [if_neg hc]
    refine characters?_of_pair us ?_ ?_
    · rw [hhigh]
      omega
    · rw [hhigh, hlow]
      exact hpair

/-- Characters are read back from their units. -/
theorem characters?_flatMap (cs : List Char) :
    characters? (cs.flatMap unitsOfChar) = some cs := by
  induction cs with
  | nil => rfl
  | cons c cs ih =>
      rw [List.flatMap_cons, characters?_unitsOfChar_append, ih]
      rfl

/-! ## ASCII -/

theorem toNat_byte {c : Char} (h : c.toNat < 0x80) :
    (Bytes.byte c).toNat = c.toNat := by
  show c.toNat % 256 = c.toNat
  omega

/-- ASCII characters are read back from their bytes. -/
theorem chars_ascii {t : String} (h : ∀ c ∈ t.toList, c.toNat < 0x80) :
    Bytes.chars (Bytes.ascii t) = t.toList := by
  rw [Bytes.chars, Bytes.ascii, List.map_map]
  refine (List.map_congr_left ?_).trans (List.map_id _)
  intro c hc
  show Char.ofNat (Bytes.byte c).toNat = c
  rw [toNat_byte (h c hc), Char.ofNat_toNat]

/-- The bytes of ASCII characters are ASCII. -/
theorem all_ascii {t : String} (h : ∀ c ∈ t.toList, c.toNat < 0x80) :
    (Bytes.ascii t).all (·.toNat < 0x80) = true := by
  refine List.all_eq_true.mpr ?_
  intro b hb
  obtain ⟨c, hc, rfl⟩ := List.mem_map.mp hb
  rw [toNat_byte (h c hc)]
  exact decide_eq_true (h c hc)

/-- A mark of byte order is not ASCII. -/
theorem decode?_of_all {bytes : Bytes}
    (h : bytes.all (·.toNat < 0x80) = true) :
    decode? bytes = some (String.ofList (Bytes.chars bytes)) := by
  rw [decode?.eq_def]
  split
  · exact absurd h Bool.false_ne_true
  · rw [if_pos h]

end Text

/-! ## Text strings -/

namespace Object

/-- **A TEXT STRING IS READ AS ITS TEXT.** -/
theorem exists_text_eq (t : String) : ∃ form bytes,
    Object.text t = .string form bytes ∧ Text.decode? bytes = some t := by
  by_cases h : t.toList.all (·.toNat < 0x80) = true
  · have hascii : ∀ c ∈ t.toList, c.toNat < 0x80 := fun c hc =>
      of_decide_eq_true (List.all_eq_true.mp h c hc)
    refine ⟨.literal, Bytes.ascii t, by rw [text, if_pos h], ?_⟩
    rw [Text.decode?_of_all (Text.all_ascii hascii), Text.chars_ascii hascii,
      String.ofList_toList]
  · refine ⟨.hex, 0xFE :: 0xFF :: Text.unitBytes (Text.units t),
      by rw [text, if_neg h], ?_⟩
    rw [Text.decode?, Text.units?_unitBytes, Option.bind_some, Text.units,
      Text.characters?_flatMap, Option.map_some, String.ofList_toList]

/-- Different texts are different objects. -/
theorem text_injective {t u : String} (h : Object.text t = Object.text u) :
    t = u := by
  obtain ⟨form, bytes, ht, hdecode⟩ := exists_text_eq t
  obtain ⟨form', bytes', hu, hdecode'⟩ := exists_text_eq u
  rw [ht, hu] at h
  obtain ⟨-, rfl⟩ := Object.string.inj h
  exact Option.some.inj (hdecode.symm.trans hdecode')

example : Text.decode? (0xFE :: 0xFF :: Text.unitBytes (Text.units "a𝄞中"))
    = some "a𝄞中" := by cbv

end Object

end Pdf
