import Mathlib.Data.List.Basic
import Pdf.Text.Blank

/-! # Texts in pieces — what stands between separators comes back

    A text is cut wherever a separator stands, so words that are joined by a
    separator are its fields.  Trimming takes the blanks at the two ends,
    so it leaves a text alone that has none there, and undoes any blanks that
    were put around such a text. -/

namespace Pdf.Text

variable {separates : Char → Bool}

/-! ## Fields -/

/-- A separator in front adds no field. -/
theorem fields_of_separates {c : Char} (hc : separates c = true)
    (cs : List Char) : fields separates (c :: cs) = fields separates cs := by
  rw [fields, List.splitOnP_cons_eq_if_modifyHead, if_pos hc]
  rfl

/-- Separators alone have no fields. -/
theorem fields_eq_nil {cs : List Char} (h : ∀ c ∈ cs, separates c = true) :
    fields separates cs = [] := by
  induction cs with
  | nil => rfl
  | cons c cs ih =>
      rw [fields_of_separates (h c List.mem_cons_self)]
      exact ih fun d hd => h d (List.mem_cons_of_mem c hd)

theorem filter_cons_word {w : List Char} (hne : w ≠ [])
    (pieces : List (List Char)) :
    (w :: pieces).filter (! ·.isEmpty) = w :: pieces.filter (! ·.isEmpty) := by
  refine List.filter_cons_of_pos ?_
  rw [List.isEmpty_eq_false_iff.mpr hne]
  rfl

/-- A word in front of a separator, or at the end, is the first field. -/
theorem fields_append {w : List Char} (hne : w ≠ [])
    (hw : ∀ c ∈ w, separates c = false) {rest : List Char}
    (hrest : ∀ c ∈ rest.head?, separates c = true) :
    fields separates (w ++ rest) = w :: fields separates rest := by
  cases rest with
  | nil =>
      rw [List.append_nil, fields, List.splitOnP_eq_singleton hw,
        filter_cons_word hne]
      rfl
  | cons c rest =>
      have hc : separates c = true := hrest c rfl
      rw [fields, List.splitOnP_append_cons_of_forall_mem hw c hc,
        filter_cons_word hne, fields_of_separates hc]
      rfl

/-- Words of a text that do not separate it. -/
def AreWords (separates : Char → Bool) (ws : List (List Char)) : Prop :=
  ∀ w ∈ ws, w ≠ [] ∧ ∀ c ∈ w, separates c = false

/-- Words that are joined by a separator are the fields of the text. -/
theorem fields_intercalate {ws : List (List Char)} {c : Char}
    (hws : AreWords separates ws) (hc : separates c = true)
    {tail : List Char} (htail : ∀ d ∈ tail, separates d = true) :
    fields separates ([c].intercalate ws ++ tail) = ws := by
  induction ws with
  | nil => exact fields_eq_nil htail
  | cons w ws ih =>
      have hrest := ih fun v hv => hws v (List.mem_cons_of_mem w hv)
      obtain ⟨hne, hw⟩ := hws w List.mem_cons_self
      cases ws with
      | nil =>
          rw [List.intercalate_singleton, fields_append hne hw,
            fields_eq_nil htail]
          intro d hd
          exact htail d (List.mem_of_mem_head? hd)
      | cons v ws =>
          rw [List.intercalate_cons_cons, List.append_assoc, List.append_assoc,
            fields_append hne hw, List.singleton_append,
            fields_of_separates hc, hrest]
          intro d hd
          have hcd : c = d := Option.some.inj hd
          rw [← hcd]
          exact hc

/-- What stands in joined words is the separator or stands in a word. -/
theorem mem_intercalate {ws : List (List Char)} {c d : Char}
    (h : d ∈ [c].intercalate ws) : d = c ∨ ∃ w ∈ ws, d ∈ w := by
  induction ws with
  | nil => exact nomatch h
  | cons w ws ih =>
      cases ws with
      | nil =>
          rw [List.intercalate_singleton] at h
          exact Or.inr ⟨w, List.mem_cons_self, h⟩
      | cons v ws =>
          rw [List.intercalate_cons_cons, List.append_assoc] at h
          rcases List.mem_append.mp h with hw | hrest
          · exact Or.inr ⟨w, List.mem_cons_self, hw⟩
          rcases List.mem_cons.mp hrest with hc | hws
          · exact Or.inl hc
          · obtain hc | ⟨u, hu, hd⟩ := ih hws
            · exact Or.inl hc
            · exact Or.inr ⟨u, List.mem_cons_of_mem w hu, hd⟩

/-! ## Blanks at the ends -/

/-- A text without blanks at its two ends. -/
def Trimmed (cs : List Char) : Prop := trim cs = cs

instance (cs : List Char) : Decidable (Trimmed cs) :=
  inferInstanceAs (Decidable (trim cs = cs))

/-- Blanks in front of a text are trimmed. -/
theorem trimFront_append {blanks : List Char}
    (h : ∀ c ∈ blanks, isBlank c = true) (cs : List Char) :
    trimFront (blanks ++ cs) = trimFront cs :=
  List.dropWhile_append_of_pos h

/-- A text that does not begin with a blank is not trimmed in front. -/
theorem trimFront_of_head {cs : List Char}
    (h : ∀ c ∈ cs.head?, isBlank c = false) : trimFront cs = cs := by
  cases cs with
  | nil => rfl
  | cons c cs =>
      have hc : ¬isBlank c = true := by
        rw [h c rfl]
        exact Bool.false_ne_true
      exact List.dropWhile_cons_of_neg hc

/-- A text without blanks at its ends is trimmed already. -/
theorem trimmed_of_ends {cs : List Char}
    (hfront : ∀ c ∈ cs.head?, isBlank c = false)
    (hback : ∀ c ∈ cs.getLast?, isBlank c = false) : Trimmed cs := by
  have hreverse : trimFront cs.reverse = cs.reverse :=
    trimFront_of_head (by rwa [List.head?_reverse])
  rw [Trimmed, trim, trimFront_of_head hfront, hreverse, List.reverse_reverse]

/-- Joined words start with the first word. -/
theorem exists_intercalate_eq_append (c : Char) (w : List Char)
    (ws : List (List Char)) :
    ∃ back, [c].intercalate (w :: ws) = w ++ back := by
  cases ws with
  | nil => exact ⟨[], by rw [List.intercalate_singleton, List.append_nil]⟩
  | cons v ws =>
      exact ⟨_, by rw [List.intercalate_cons_cons, List.append_assoc]⟩

/-- Joined words end with the last word. -/
theorem exists_intercalate_eq_append_last (c : Char) (w : List Char)
    (ws : List (List Char)) :
    ∃ front, ∃ v ∈ w :: ws, [c].intercalate (w :: ws) = front ++ v := by
  induction ws generalizing w with
  | nil => exact ⟨[], w, List.mem_cons_self, List.intercalate_singleton⟩
  | cons u ws ih =>
      obtain ⟨front, v, hv, he⟩ := ih u
      refine ⟨w ++ [c] ++ front, v, List.mem_cons_of_mem w hv, ?_⟩
      rw [List.intercalate_cons_cons, he, List.append_assoc _ front]

/-- Joined words have no blanks at their ends. -/
theorem trimmed_intercalate (c : Char) {ws : List (List Char)}
    (hws : AreWords isBlank ws) : Trimmed ([c].intercalate ws) := by
  cases ws with
  | nil => rfl
  | cons w ws =>
      refine trimmed_of_ends ?_ ?_
      · obtain ⟨back, hback⟩ := exists_intercalate_eq_append c w ws
        obtain ⟨hne, hw⟩ := hws w List.mem_cons_self
        rw [hback, List.head?_append_of_ne_nil w hne]
        exact fun d hd => hw d (List.mem_of_mem_head? hd)
      · obtain ⟨front, v, hv, hfront⟩ :=
          exists_intercalate_eq_append_last c w ws
        obtain ⟨hne, hblank⟩ := hws v hv
        rw [hfront, List.getLast?_append_of_ne_nil front hne]
        exact fun d hd => hblank d (List.mem_of_getLast? hd)

/-- Trimming cannot take anything from the front and nothing in the end. -/
theorem Trimmed.trimFront {cs : List Char} (h : Trimmed cs) :
    trimFront cs = cs := by
  have hsuffix : Text.trimFront cs <:+ cs := List.dropWhile_suffix _
  have hback : Text.trimFront (Text.trimFront cs).reverse
      <:+ (Text.trimFront cs).reverse := List.dropWhile_suffix _
  refine hsuffix.eq_of_length_le ?_
  calc cs.length = (trim cs).length := by rw [h]
    _ = (Text.trimFront (Text.trimFront cs).reverse).length :=
        List.length_reverse
    _ ≤ (Text.trimFront cs).reverse.length := hback.length_le
    _ = (Text.trimFront cs).length := List.length_reverse

/-- A blank in front would be taken away, and the text would be shorter. -/
theorem Trimmed.head {c : Char} {cs : List Char} (h : Trimmed (c :: cs)) :
    isBlank c = false := by
  cases hc : isBlank c with
  | false => rfl
  | true =>
      have hshort : Text.trimFront cs = c :: cs :=
        (List.dropWhile_cons_of_pos hc).symm.trans h.trimFront
      have hle : (Text.trimFront cs).length ≤ cs.length :=
        (List.dropWhile_suffix isBlank).length_le
      rw [hshort, List.length_cons] at hle
      omega

/-- **Blanks around a trimmed text are trimmed.** -/
theorem trim_append {front cs back : List Char}
    (hfront : ∀ c ∈ front, isBlank c = true) (h : Trimmed cs)
    (hback : ∀ c ∈ back, isBlank c = true) :
    trim (front ++ (cs ++ back)) = cs := by
  have hreverse : ∀ c ∈ back.reverse, isBlank c = true := by
    intro c hc
    exact hback c (List.mem_reverse.mp hc)
  cases cs with
  | nil =>
      have hall : trimFront (front ++ back) = [] := by
        rw [trimFront_append hfront, ← List.append_nil back,
          trimFront_append hback]
        rfl
      rw [List.nil_append, trim, hall]
      rfl
  | cons c cs =>
      have hcons : Text.trimFront (c :: cs ++ back) = c :: cs ++ back := by
        refine trimFront_of_head ?_
        intro d hd
        have hcd : c = d := Option.some.inj hd
        rw [← hcd]
        exact h.head
      rw [trim, trimFront_append hfront, hcons, List.reverse_append,
        trimFront_append hreverse]
      calc (Text.trimFront (c :: cs).reverse).reverse
          = trim (c :: cs) := by rw [trim, h.trimFront]
        _ = c :: cs := h

end Pdf.Text
