import Pdf.Proofs.Syntax.Token

/-! # Names and strings, read back

    A name is the run of regular characters behind its slash, with `#` in
    front of the two hexadecimal digits of an escaped byte.  A hexadecimal
    string is the digits up to `>`; white space between them means nothing,
    and a missing last digit is zero.

    A literal string goes up to the parenthesis that closes it.  Parentheses
    inside it may be escaped or balanced, a line end counts as one line feed
    whichever characters spell it, and a backslash escapes a control character,
    a byte in octal, or a line end that does not count.  This is one machine
    with a step for each byte (`LiteralState.step`). -/

namespace Pdf.Syntax

open Bytes (byte ascii hexValue?)

/-! ## Names -/

/-- The bytes that the characters of a name stand for. -/
def nameBytes? : Bytes → Option Bytes
  | [] => some []
  | b :: rest =>
      if b = byte '#' then
        match rest with
        | high :: low :: rest =>
            match hexValue? high, hexValue? low, nameBytes? rest with
            | some high, some low, some bytes =>
                some ((high * 16 + low) :: bytes)
            | _, _, _ => none
        | _ => none
      else (nameBytes? rest).map (b :: ·)

/-- The name behind a slash, and what stands behind it. -/
def name? (bytes : Bytes) : Option (Name × Bytes) :=
  (nameBytes? (run bytes).1).map fun name => (⟨name⟩, (run bytes).2)

theorem hash_not_regular : Name.isRegular (byte '#') = false := by decide

/-- A byte without an escape stands for itself. -/
theorem nameBytes?_cons {b : UInt8} (rest : Bytes) (h : b ≠ byte '#') :
    nameBytes? (b :: rest) = (nameBytes? rest).map (b :: ·) := by
  rw [nameBytes?.eq_def]
  exact if_neg h

/-- An escaped byte is read back, whether it needed the escape or not. -/
theorem nameBytes?_escape_append (b : UInt8) (rest : Bytes) :
    nameBytes? (Name.escape b ++ rest) = (nameBytes? rest).map (b :: ·) := by
  rw [Name.escape]
  by_cases hb : Name.isRegular b = true
  · -- the sign of an escape is always escaped itself
    have hne : b ≠ byte '#' := by
      intro he
      rw [he, hash_not_regular] at hb
      exact Bool.false_ne_true hb
    rw [if_pos hb]
    exact nameBytes?_cons rest hne
  · obtain ⟨hhigh, hlow, hsum⟩ := Bytes.hexValue?_hexDigit b
    rw [if_neg hb]
    show nameBytes? (byte '#' :: Bytes.hexDigit (b / 16)
      :: Bytes.hexDigit (b % 16) :: rest) = _
    rw [nameBytes?, if_pos rfl]
    simp only [hhigh, hlow]
    cases nameBytes? rest with
    | none => rfl
    | some bytes =>
        show some ((b / 16 * 16 + b % 16) :: bytes) = some (b :: bytes)
        rw [hsum]

/-- Any bytes are read back from their escaped form. -/
theorem nameBytes?_flatMap_escape (bytes : Bytes) :
    nameBytes? (bytes.flatMap Name.escape) = some bytes := by
  induction bytes with
  | nil => rfl
  | cons b bytes ih =>
      rw [List.flatMap_cons, nameBytes?_escape_append, ih]
      rfl

/-- What an escape is written with is regular. -/
theorem isRegular_of_mem_escape {b c : UInt8} (h : c ∈ Name.escape b) :
    isRegular c = true := by
  rw [Name.escape] at h
  by_cases hb : Name.isRegular b = true
  · rw [if_pos hb] at h
    rw [List.mem_singleton.mp h]
    exact isRegular_of_name b hb
  · rw [if_neg hb] at h
    have hc : c = byte '#' ∨ c = Bytes.hexDigit (b / 16)
        ∨ c = Bytes.hexDigit (b % 16) := by
      simpa [Bytes.hexPair] using h
    rcases hc with rfl | rfl | rfl
    · decide
    · exact (isRegular_hexDigit b).1
    · exact (isRegular_hexDigit b).2

/-- A name is read back up to where nothing regular follows, be it empty. -/
theorem name?_escape_append (bytes : Bytes) {rest : Bytes}
    (hrest : EndsWord rest) :
    name? (bytes.flatMap Name.escape ++ rest) = some (⟨bytes⟩, rest) := by
  have hreg : ∀ c ∈ bytes.flatMap Name.escape, isRegular c = true := by
    intro c hc
    obtain ⟨b, -, hb⟩ := List.mem_flatMap.mp hc
    exact isRegular_of_mem_escape hb
  rw [name?, run_append hreg hrest, nameBytes?_flatMap_escape]
  rfl

/-! ## Hexadecimal strings -/

/-- The bytes of the hexadecimal string whose opening bracket was read, and
    what stands behind the closing one. -/
def hexString? (bytes : Bytes) : Option (Bytes × Bytes) :=
  match bytes.dropWhile (· != byte '>') with
  | [] => none
  | _ :: rest =>
      let digits :=
        (bytes.takeWhile (· != byte '>')).filter fun b => !isSpace b
      (Bytes.ofHexPairs? (if digits.length % 2 = 0 then digits
        else digits ++ [byte '0'])).map fun bytes => (bytes, rest)

theorem ne_close_of_isRegular {b : UInt8} (h : isRegular b = true) :
    (b != byte '>') = true := by
  rw [bne_iff_ne]
  intro he
  rw [he] at h
  exact absurd h (by decide)

/-- Hexadecimal digits are regular. -/
theorem isRegular_of_mem_hexPairs {data : Bytes} {c : UInt8}
    (h : c ∈ data.flatMap Bytes.hexPair) : isRegular c = true := by
  obtain ⟨b, -, hb⟩ := List.mem_flatMap.mp h
  have hc : c = Bytes.hexDigit (b / 16) ∨ c = Bytes.hexDigit (b % 16) := by
    simpa [Bytes.hexPair] using hb
  rcases hc with rfl | rfl
  · exact (isRegular_hexDigit b).1
  · exact (isRegular_hexDigit b).2

/-- A hexadecimal string is read back up to its bracket. -/
theorem hexString?_hexPairs_append (data rest : Bytes) :
    hexString? (data.flatMap Bytes.hexPair ++ byte '>' :: rest)
      = some (data, rest) := by
  let digits := data.flatMap Bytes.hexPair
  have hne : ∀ c ∈ digits, (c != byte '>') = true := fun c hc =>
    ne_close_of_isRegular (isRegular_of_mem_hexPairs hc)
  have hdrop : (digits ++ byte '>' :: rest).dropWhile (· != byte '>')
      = byte '>' :: rest := by
    rw [List.dropWhile_append_of_pos hne]
    exact List.dropWhile_cons_of_neg (by decide)
  have htake : (digits ++ byte '>' :: rest).takeWhile (· != byte '>')
      = digits := by
    rw [List.takeWhile_append_of_pos hne,
      List.takeWhile_cons_of_neg (by decide), List.append_nil]
  have hfilter : digits.filter (fun b => !isSpace b) = digits := by
    rw [List.filter_eq_self]
    intro c hc
    rw [isSpace_of_isRegular (isRegular_of_mem_hexPairs hc)]
    rfl
  have heven : digits.length % 2 = 0 := by
    rw [Bytes.length_flatMap_hexPair]
    omega
  show hexString? (digits ++ byte '>' :: rest) = some (data, rest)
  rw [hexString?, hdrop]
  simp only [htake, hfilter, heven, if_true]
  rw [Bytes.ofHexPairs?_flatMap_hexPair]
  rfl

/-! ## Literal strings -/

/-- Where a reader stands inside a literal string. -/
inductive LiteralMode where
  /-- Between two characters. -/
  | plain
  /-- Behind a carriage return, to which a line feed may belong. -/
  | carriage
  /-- Behind a backslash. -/
  | escape
  /-- Behind the first digits of a byte in octal; so many may follow. -/
  | octal (left : Nat) (value : UInt8)

/-- The state of a reader inside a literal string: its mode, and how many
    parentheses are open inside the string. -/
structure LiteralState where
  mode : LiteralMode := .plain
  depth : Nat := 0

/-- The bytes that a character stands for, and the state behind it, if the
    string goes on. -/
def plainStep (depth : Nat) (b : UInt8) : Bytes × Option LiteralState :=
  if b = byte '\\' then ([], some ⟨.escape, depth⟩)
  else if b = byte '(' then ([b], some ⟨.plain, depth + 1⟩)
  else if b = byte ')' then
    match depth with
    | 0 => ([], none)
    | depth + 1 => ([b], some ⟨.plain, depth⟩)
  else if b = 0x0D then ([0x0A], some ⟨.carriage, depth⟩)
  else ([b], some ⟨.plain, depth⟩)

/-- The bytes that a character behind a backslash stands for. -/
def escaped (b : UInt8) : Bytes :=
  if b = byte 'n' then [0x0A]
  else if b = byte 'r' then [0x0D]
  else if b = byte 't' then [0x09]
  else if b = byte 'b' then [0x08]
  else if b = byte 'f' then [0x0C]
  else if b = 0x0A then []
  else [b]

/-- Whether a byte is a digit of an octal number. -/
def isOctal (b : UInt8) : Bool := byte '0' ≤ b && b ≤ byte '7'

/-- The bytes that the next byte of a literal string adds, and the state
    behind it, if the string goes on. -/
def LiteralState.step (s : LiteralState) (b : UInt8) :
    Bytes × Option LiteralState :=
  match s.mode with
  | .plain => plainStep s.depth b
  | .carriage =>
      if b = 0x0A then ([], some ⟨.plain, s.depth⟩) else plainStep s.depth b
  | .escape =>
      if isOctal b then ([], some ⟨.octal 2 (b - byte '0'), s.depth⟩)
      else if b = 0x0D then ([], some ⟨.carriage, s.depth⟩)
      else (escaped b, some ⟨.plain, s.depth⟩)
  | .octal left value =>
      if isOctal b && left != 0 then
        ([], some ⟨.octal (left - 1) (value * 8 + (b - byte '0')), s.depth⟩)
      else (value :: (plainStep s.depth b).1, (plainStep s.depth b).2)

/-- The bytes of the literal string that is being read, and what stands
    behind its closing parenthesis. -/
def literal? : LiteralState → Bytes → Option (Bytes × Bytes)
  | _, [] => none
  | s, b :: rest =>
      match s.step b with
      | (bytes, none) => some (bytes, rest)
      | (bytes, some next) =>
          (literal? next rest).map fun p => (bytes ++ p.1, p.2)

/-- A byte moves the reader of a literal string by one step. -/
theorem literal?_of_step {s next : LiteralState} {b : UInt8} {bytes : Bytes}
    (rest : Bytes) (h : s.step b = (bytes, some next)) :
    literal? s (b :: rest)
      = (literal? next rest).map fun p => (bytes ++ p.1, p.2) := by
  rw [literal?, h]

/-- A backslash and a letter for a byte are read as that byte. -/
theorem literal?_backslash {b c : UInt8} (rest : Bytes)
    (h : LiteralState.step ⟨.escape, 0⟩ c = ([b], some {})) :
    literal? {} (byte '\\' :: c :: rest)
      = (literal? {} rest).map fun p => (b :: p.1, p.2) := by
  have hslash : LiteralState.step {} (byte '\\')
      = ([], some ⟨.escape, 0⟩) := rfl
  rw [literal?_of_step _ hslash, literal?_of_step _ h, Option.map_map]
  rfl

/-- A byte of a literal string is read back from its escaped form. -/
theorem literal?_escape_append (b : UInt8) (rest : Bytes) :
    literal? {} (StringForm.escape b ++ rest)
      = (literal? {} rest).map fun p => (b :: p.1, p.2) := by
  rw [StringForm.escape]
  by_cases hself : b = byte '\\' ∨ b = byte '(' ∨ b = byte ')'
  · rw [if_pos hself]
    rcases hself with rfl | rfl | rfl <;> exact literal?_backslash rest rfl
  rw [if_neg hself]
  by_cases hn : b = 0x0A
  · rw [if_pos hn, hn]
    exact literal?_backslash rest rfl
  rw [if_neg hn]
  by_cases hr : b = 0x0D
  · rw [if_pos hr, hr]
    exact literal?_backslash rest rfl
  rw [if_neg hr]
  by_cases ht : b = 0x09
  · rw [if_pos ht, ht]
    exact literal?_backslash rest rfl
  rw [if_neg ht]
  by_cases hb : b = 0x08
  · rw [if_pos hb, hb]
    exact literal?_backslash rest rfl
  rw [if_neg hb]
  by_cases hf : b = 0x0C
  · rw [if_pos hf, hf]
    exact literal?_backslash rest rfl
  rw [if_neg hf]
  -- what is left stands for itself, carriage returns having been escaped
  have hstep : LiteralState.step {} b = ([b], some {}) := by
    show plainStep 0 b = ([b], some {})
    rw [plainStep, if_neg fun h => hself (Or.inl h),
      if_neg fun h => hself (Or.inr (Or.inl h)),
      if_neg fun h => hself (Or.inr (Or.inr h)), if_neg hr]
  exact literal?_of_step rest hstep

/-- A literal string is read back up to its parenthesis. -/
theorem literal?_flatMap_escape (data rest : Bytes) :
    literal? {} (data.flatMap StringForm.escape ++ byte ')' :: rest)
      = some (data, rest) := by
  induction data with
  | nil => rfl
  | cons b data ih =>
      rw [List.flatMap_cons, List.append_assoc, literal?_escape_append, ih]
      rfl

end Pdf.Syntax
