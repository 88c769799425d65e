import Pdf.Font.Metrics
import Pdf.Proofs.Text.Blank

/-! # Records as text — every layout of the entries is read as the entries

    A record can be laid out in many ways: the entries stand on lines of their
    own, with blanks around keys and values and either of two separators, and
    lines that say nothing stand between them.  A `Layout` is one such choice.
    It cannot go wrong by itself: its gaps hold blanks that do not end a line,
    and its comments stay on their line.  What can go wrong are the entries, so
    a key has to be one that a reader can tell from its surroundings (`IsKey`),
    and a value has to fit on a line (`IsValue`).

    A line end of two characters needs no care of its own.  The reader splits
    at line feeds, and the character in front of one is a blank behind the
    value, or on a line that says nothing. -/

namespace Pdf.Record

open Text (isBlank trim trimFront Trimmed)

/-! ## Layouts -/

/-- Blanks on a line. -/
structure Gap where
  chars : List Char
  isBlank : chars.all Text.isBlank = true
  line : '\n' ∉ chars

theorem Gap.blank (gap : Gap) : ∀ c ∈ gap.chars, Text.isBlank c = true :=
  List.all_eq_true.mp gap.isBlank

/-- What stands between a key and its value. -/
inductive Separator where
  | equals
  | colon

def Separator.char : Separator → Char
  | .equals => '='
  | .colon => ':'

/-- What a comment starts with. -/
inductive Mark where
  | hash
  | bang

def Mark.char : Mark → Char
  | .hash => '#'
  | .bang => '!'

/-- A line of a record, without its end. -/
inductive Line where
  /-- A line that is empty, but for blanks. -/
  | empty (blanks : Gap)
  | comment (front : Gap) (mark : Mark) (text : List Char) (line : '\n' ∉ text)
  | entry (front : Gap) (key : String) (middle : Gap) (separator : Separator)
      (behind : Gap) (value : String) (back : Gap)

namespace Line

def chars : Line → List Char
  | .empty blanks => blanks.chars
  | .comment front mark text _ => front.chars ++ mark.char :: text
  | .entry front key middle separator behind value back =>
      front.chars ++ (key.toList ++ (middle.chars ++ separator.char ::
        (behind.chars ++ (value.toList ++ back.chars))))

/-- The key and the value of a line. -/
def entry? : Line → Option (String × String)
  | .entry _ key _ _ _ value _ => some (key, value)
  | _ => none

end Line

/-- What ends a line. -/
inductive LineEnd where
  | lf
  | crlf

/-- What stands in front of the line feed. -/
def LineEnd.front : LineEnd → List Char
  | .lf => []
  | .crlf => ['\r']

/-- The lines of a text; the last one, which may be empty, has no end. -/
structure Layout where
  ended : List (Line × LineEnd)
  last : Line

namespace Layout

/-- The characters of some lines with their ends, and of the last line. -/
def chars (last : Line) : List (Line × LineEnd) → List Char
  | [] => last.chars
  | (line, ending) :: ended =>
      line.chars ++ (ending.front ++ '\n' :: chars last ended)

def text (layout : Layout) : String :=
  String.ofList (chars layout.last layout.ended)

/-- The entries of a layout, in the order of their lines. -/
def entries (layout : Layout) : List (String × String) :=
  (layout.ended.map Prod.fst ++ [layout.last]).filterMap Line.entry?

end Layout

/-- A text that a reader can find in front of a separator. -/
def IsKey (key : String) : Prop :=
  Trimmed key.toList ∧ isEntry key.toList = true
    ∧ key.toList.all (fun c => !separates c && c != '\n') = true

instance (key : String) : Decidable (IsKey key) :=
  inferInstanceAs (Decidable (_ ∧ _ ∧ _))

/-- A text that a reader can find at the end of a line. -/
def IsValue (value : String) : Prop :=
  Trimmed value.toList ∧ '\n' ∉ value.toList

instance (value : String) : Decidable (IsValue value) :=
  inferInstanceAs (Decidable (_ ∧ _))

/-- An entry that a reader can find on its line. -/
def Legible (entry : String × String) : Prop :=
  IsKey entry.1 ∧ IsValue entry.2

/-! ## Lines -/

/-- What the reader takes from a line. -/
def readLine (line : List Char) : Option (String × String) :=
  if isEntry (trimFront line) = true then Record.entry? (trimFront line)
  else none

/-- To read the lines that say something is to read all lines. -/
theorem filterMap_readLine (lines : List (List Char)) :
    ((lines.map trimFront).filter isEntry).filterMap Record.entry?
      = lines.filterMap readLine := by
  rw [List.filterMap_filter, List.filterMap_map]
  rfl

/-- A blank does not separate a key from its value. -/
theorem separates_of_isBlank {c : Char} (h : isBlank c = true) :
    separates c = false := by
  rw [separates, Bool.or_eq_false_iff, beq_eq_false_iff_ne,
    beq_eq_false_iff_ne]
  constructor
  · rintro rfl
    exact absurd h (by decide)
  · rintro rfl
    exact absurd h (by decide)

theorem separates_char (separator : Separator) :
    separates separator.char = true := by
  cases separator <;> decide

/-- A key has no character that would end it. -/
theorem IsKey.plain {key : String} (h : IsKey key) {c : Char}
    (hc : c ∈ key.toList) : separates c = false ∧ c ≠ '\n' := by
  have hboth := List.all_eq_true.mp h.2.2 c hc
  rwa [Bool.and_eq_true, Bool.not_eq_true', bne_iff_ne] at hboth

/-- What stands around the first separator, without the blanks, is the entry. -/
theorem entry?_append {key value : String} {middle behind back : List Char}
    {c : Char} (hkey : IsKey key) (hvalue : IsValue value)
    (hmiddle : ∀ c ∈ middle, isBlank c = true) (hc : separates c = true)
    (hbehind : ∀ c ∈ behind, isBlank c = true)
    (hback : ∀ c ∈ back, isBlank c = true) :
    Record.entry? (key.toList ++ (middle ++ c :: (behind
      ++ (value.toList ++ back)))) = some (key, value) := by
  -- the first separator stands behind the key and the blanks
  have hfront : ∀ d ∈ key.toList ++ middle, (!separates d) = true := by
    intro d hd
    rcases List.mem_append.mp hd with hk | hm
    · rw [(hkey.plain hk).1]
      rfl
    · rw [separates_of_isBlank (hmiddle d hm)]
      rfl
  let rest := behind ++ (value.toList ++ back)
  have hstop : ¬(!separates c) = true := by
    rw [hc]
    exact Bool.false_ne_true
  have hdrop : (key.toList ++ middle ++ c :: rest).dropWhile (! separates ·)
      = c :: rest := by
    rw [List.dropWhile_append_of_pos hfront]
    exact List.dropWhile_cons_of_neg hstop
  have htake : (key.toList ++ middle ++ c :: rest).takeWhile (! separates ·)
      = key.toList ++ middle := by
    rw [List.takeWhile_append_of_pos hfront, List.append_right_eq_self]
    exact List.takeWhile_cons_of_neg hstop
  have htrim : trim ([] ++ (key.toList ++ middle)) = key.toList :=
    Text.trim_append (by simp) hkey.1 hmiddle
  rw [List.nil_append] at htrim
  rw [← List.append_assoc, Record.entry?, hdrop, htake, htrim]
  show some (String.ofList key.toList, String.ofList (trim rest))
    = some (key, value)
  rw [Text.trim_append hbehind hvalue.1 hback, String.ofList_toList,
    String.ofList_toList]

/-- A key has a first character, which is no blank. -/
theorem IsKey.exists_cons {key : String} (h : IsKey key) :
    ∃ c cs, key.toList = c :: cs ∧ isBlank c = false := by
  obtain ⟨htrimmed, hentry, -⟩ := h
  cases hk : key.toList with
  | nil =>
      rw [hk] at hentry
      exact absurd hentry (by decide)
  | cons c cs =>
      rw [hk] at htrimmed
      exact ⟨c, cs, rfl, htrimmed.head⟩

/-- There is no blank in front of a key. -/
theorem IsKey.trimFront_append {key : String} (h : IsKey key)
    (rest : List Char) :
    trimFront (key.toList ++ rest) = key.toList ++ rest := by
  obtain ⟨c, cs, hcons, hc⟩ := h.exists_cons
  rw [hcons]
  exact Text.trimFront_of_head fun d hd => Option.some.inj hd ▸ hc

/-- A line that starts with a key is no comment. -/
theorem IsKey.isEntry_append {key : String} (h : IsKey key)
    (rest : List Char) : isEntry (key.toList ++ rest) = true := by
  obtain ⟨c, cs, hcons, -⟩ := h.exists_cons
  have hentry := h.2.1
  rw [hcons] at hentry ⊢
  exact hentry

/-- A line of blanks says nothing. -/
theorem readLine_blank {line : List Char} (h : ∀ c ∈ line, isBlank c = true) :
    readLine line = none := by
  have hnil : trimFront line = [] := by
    rw [← List.append_nil line, Text.trimFront_append h]
    rfl
  rw [readLine, hnil]
  rfl

namespace Line

/-- **A line is read as what it says**, whatever blanks the line end adds. -/
theorem readLine_append {line : Line}
    (h : ∀ e ∈ line.entry?, Legible e) {tail : List Char}
    (htail : ∀ c ∈ tail, isBlank c = true) :
    readLine (line.chars ++ tail) = line.entry? := by
  cases line with
  | empty blanks =>
      refine readLine_blank fun c hc => ?_
      rcases List.mem_append.mp hc with hb | ht
      · exact blanks.blank c hb
      · exact htail c ht
  | comment front mark text hline =>
      have hmark : isBlank mark.char = false
          ∧ ∀ cs, isEntry (mark.char :: cs) = false := by
        cases mark with
        | hash => exact ⟨by decide, fun _ => by rw [isEntry]; decide⟩
        | bang => exact ⟨by decide, fun _ => by rw [isEntry]; decide⟩
      have hfront : trimFront (front.chars ++ mark.char :: text ++ tail)
          = mark.char :: (text ++ tail) := by
        rw [List.append_assoc, Text.trimFront_append front.blank]
        exact Text.trimFront_of_head fun c hc => Option.some.inj hc ▸ hmark.1
      rw [chars, readLine, hfront, hmark.2]
      rfl
  | entry front key middle separator behind value back =>
      obtain ⟨hkey, hvalue⟩ : Legible (key, value) := h _ rfl
      have hback : ∀ c ∈ back.chars ++ tail, isBlank c = true := by
        intro c hc
        rcases List.mem_append.mp hc with hb | ht
        · exact back.blank c hb
        · exact htail c ht
      rw [chars, readLine, List.append_assoc,
        Text.trimFront_append front.blank, List.append_assoc,
        hkey.trimFront_append, if_pos (hkey.isEntry_append _)]
      simp only [List.append_assoc, List.cons_append]
      exact entry?_append hkey hvalue middle.blank (separates_char separator)
        behind.blank hback

/-- No line ends in front of its end. -/
theorem newline_not_mem_chars {line : Line}
    (h : ∀ e ∈ line.entry?, Legible e) : '\n' ∉ line.chars := by
  cases line with
  | empty blanks => exact blanks.line
  | comment front mark text hline =>
      intro hc
      rcases List.mem_append.mp hc with hfront | hrest
      · exact front.line hfront
      · rcases List.mem_cons.mp hrest with hmark | htext
        · cases mark <;> exact absurd hmark (by decide)
        · exact hline htext
  | entry front key middle separator behind value back =>
      obtain ⟨hkey, hvalue⟩ : Legible (key, value) := h _ rfl
      rw [chars]
      simp only [List.mem_append, List.mem_cons]
      rintro (hc | hc | hc | hc | hc | hc | hc)
      · exact front.line hc
      · exact (hkey.plain hc).2 rfl
      · exact middle.line hc
      · cases separator <;> exact absurd hc (by decide)
      · exact behind.line hc
      · exact hvalue.2 hc
      · exact back.line hc

end Line

/-! ## Texts -/

/-- What stands in front of a line feed is blank. -/
theorem LineEnd.blank_front (ending : LineEnd) :
    ∀ c ∈ ending.front, isBlank c = true ∧ c ≠ '\n' := by
  cases ending with
  | lf => exact fun c hc => nomatch hc
  | crlf =>
      intro c hc
      rw [List.mem_singleton.mp hc]
      decide

namespace Layout

/-- The lines of a text are the lines that it was laid out on. -/
theorem filterMap_lines {ended : List (Line × LineEnd)} {last : Line}
    (h : ∀ e ∈ entries ⟨ended, last⟩, Legible e) :
    (Text.lines (chars last ended)).filterMap readLine
      = entries ⟨ended, last⟩ := by
  induction ended with
  | nil =>
      have hentry : ∀ e ∈ last.entry?, Legible e := fun e he =>
        h e (List.mem_filterMap.mpr ⟨last, List.mem_singleton_self last, he⟩)
      have hcut : Text.lines last.chars = [last.chars] :=
        List.splitOnP_eq_singleton fun c hc =>
          beq_eq_false_iff_ne.mpr fun he =>
            Line.newline_not_mem_chars hentry (he ▸ hc)
      have hread : readLine (last.chars ++ []) = last.entry? :=
        Line.readLine_append hentry (by simp)
      rw [List.append_nil] at hread
      rw [chars, hcut]
      show [last.chars].filterMap readLine = [last].filterMap Line.entry?
      rw [List.filterMap_cons, List.filterMap_cons, hread]
      rfl
  | cons head ended ih =>
      obtain ⟨line, ending⟩ := head
      have hsplit : entries ⟨(line, ending) :: ended, last⟩
          = line.entry?.toList ++ entries ⟨ended, last⟩ := by
        rw [entries, List.map_cons, List.cons_append, List.filterMap_cons]
        cases line.entry? <;> rfl
      rw [hsplit] at h ⊢
      have hentry : ∀ e ∈ line.entry?, Legible e := fun e he =>
        h e (List.mem_append_left _ (Option.mem_toList.mpr he))
      have hfeed : ∀ c ∈ line.chars ++ ending.front, (c == '\n') = false := by
        intro c hc
        rw [beq_eq_false_iff_ne]
        rintro rfl
        rcases List.mem_append.mp hc with hline | hend
        · exact Line.newline_not_mem_chars hentry hline
        · exact (ending.blank_front _ hend).2 rfl
      have hread := Line.readLine_append hentry
        fun c hc => (ending.blank_front c hc).1
      rw [chars, ← List.append_assoc, Text.lines,
        List.splitOnP_append_cons_of_forall_mem hfeed _ (beq_self_eq_true _),
        List.filterMap_cons, hread]
      have hrest := ih fun e he => h e (List.mem_append_right _ he)
      rw [Text.lines] at hrest
      rw [hrest]
      cases line.entry? <;> rfl

/-- **A record is read from every layout of its entries.** -/
theorem entries_text {layout : Layout}
    (h : ∀ e ∈ layout.entries, Legible e) :
    Record.entries layout.text = layout.entries := by
  rw [Record.entries, text, String.toList_ofList, filterMap_readLine]
  exact filterMap_lines h

example : Record.entries "# W=1\nAscent=880\r\n\n Ordering : a=b" =
    [("Ascent", "880"), ("Ordering", "a=b")] := by decide +kernel

/-- What is read under a key does not depend on the order of the lines, if no
    key occurs twice. -/
theorem getElem?_parse_text {layout : Layout} {entries : List (String × String)}
    (h : ∀ e ∈ entries, Legible e) (hkeys : (entries.map Prod.fst).Nodup)
    (hlayout : layout.entries.Perm entries) {key value : String}
    (he : (key, value) ∈ entries) :
    (Record.parse layout.text)[key]? = some value := by
  have hread := entries_text fun e he => h e (hlayout.mem_iff.mp he)
  have hdistinct : layout.entries.Pairwise
      fun a b => ¬compare a.1 b.1 = .eq := by
    have hnodup : (layout.entries.map Prod.fst).Nodup :=
      (hlayout.map Prod.fst).nodup_iff.mpr hkeys
    refine (List.pairwise_map.mp hnodup).imp fun hne heq => ?_
    exact hne (Std.LawfulEqCmp.eq_of_compare heq)
  rw [Record.parse, hread]
  exact Std.ExtTreeMap.getElem?_ofList_of_mem Std.ReflCmp.compare_self hdistinct
    (hlayout.mem_iff.mpr he)

end Layout

end Pdf.Record
