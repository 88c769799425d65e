import Pdf.Proofs.Action.Sequence
import Pdf.Proofs.Font.Viewing

/-! # Keeping — libraries that answer like their sources

    A library keeps what it has read, in four tables that are filled from one
    another.  Each of them holds nothing but what the source would answer
    anyway, and a failure is not held at all (`Sound`).  So the answer to a
    question is a function of the source, and what was asked before does not
    show in it (`Answers`).

    The only thing that a library remembers of failures is that it has asked.
    What it could read it never asks for again. -/

namespace Pdf

namespace FontSource

/-! ## Answers without a memory -/

/-- What a source has under a name, or the error that there is nothing. -/
def found {α : Type} (name : String) : Option α → Except Error α
  | some value => .ok value
  | none => .error (.missingResource name)

/-- The code mapping of a name. -/
def mapping (s : FontSource) (name : String) : Except Error CodeMap :=
  match s.codeMapping name with
  | .ok entries => .ok (.ofArray entries)
  | .error cause => .error (FontLibrary.loadError name cause)

/-- The code mapping of a name with a line feed. -/
def lineFedMapping (s : FontSource) (name : String) : Except Error CodeMap :=
  (s.mapping name).map (·.withLineFeed)

/-- The mapping of a font from character identifiers to Unicode. -/
def unicodeMap (s : FontSource) (font : String) : Except Error CodeMap := do
  let entry ← found font (s.fontEntry font)
  s.lineFedMapping (FontLibrary.mappingName entry)

/-- The mapping that the words of an encoding's entry describe. -/
def composed (s : FontSource) (encoding : String) :
    List (List Char) → Except Error CodeMap
  | [] => .error (.missingResource encoding)
  | [base] => s.mapping (String.ofList base)
  | base :: top :: _ => do
      let base ← s.mapping (String.ofList base)
      let top ← s.mapping (String.ofList top)
      return base.overlay top

/-- The mapping of an encoding from its codes to character identifiers. -/
def encodingMap (s : FontSource) (encoding : String) :
    Except Error CodeMap := do
  let entry ← found encoding (s.encodingEntry encoding)
  s.composed encoding (Text.words entry.toList)

/-- The metrics of a font. -/
def metricsOf (s : FontSource) (font : String) : Except Error FontMetrics := do
  let record ← found font (s.metricRecord font)
  FontMetrics.parse font record

/-- Whether a source gives what it is asked for, and whether this can be
    read. -/
def Grants (s : FontSource) : FontRequest → Prop
  | .mapping name => ∃ m, s.mapping name = .ok m
  | .record font => ∃ m, s.metricsOf font = .ok m

end FontSource

namespace FontLibrary

variable {α β : Type} {s : FontSource} {l : FontLibrary}

/-! ## Tables -/

/-- A table that holds nothing but answers. -/
def Agrees (table : Std.ExtTreeMap String α)
    (answer : String → Except Error α) : Prop :=
  ∀ key value, table[key]? = some value → answer key = .ok value

theorem agrees_empty (answer : String → Except Error α) :
    Agrees .empty answer := by
  intro key value h
  have hnone : (Std.ExtTreeMap.empty : Std.ExtTreeMap String α)[key]? = none :=
    Std.ExtTreeMap.getElem?_empty
  rw [hnone] at h
  cases h

/-- An answer may be put into such a table. -/
theorem Agrees.insert {table : Std.ExtTreeMap String α}
    {answer : String → Except Error α} {key : String} {value : α}
    (h : Agrees table answer) (hvalue : answer key = .ok value) :
    Agrees (table.insert key value) answer := by
  intro key' value' hget
  rw [Std.ExtTreeMap.getElem?_insert] at hget
  by_cases hkey : compare key key' = .eq
  · rw [if_pos hkey] at hget
    rw [← Std.LawfulEqCmp.eq_of_compare hkey, ← Option.some.inj hget]
    exact hvalue
  · rw [if_neg hkey] at hget
    exact h key' value' hget

theorem contains_eq_false {table : Std.ExtTreeMap String α} {key : String}
    (h : table[key]? = none) : table.contains key = false := by
  rw [← Std.ExtTreeMap.isSome_getElem?_eq_contains, h]
  rfl

/-- A table has one more key after an insertion. -/
theorem contains_insert (table : Std.ExtTreeMap String α) (key key' : String)
    (value : α) : (table.insert key value).contains key'
      = (decide (key = key') || table.contains key') := by
  have hcompare : (compare key key' == .eq) = decide (key = key') := by
    by_cases h : key = key'
    · have hself : compare key' key' = .eq := Std.ReflCmp.compare_self
      rw [h, hself, decide_eq_true rfl]
      rfl
    · rw [decide_eq_false h]
      exact beq_false_of_ne fun he => h (Std.LawfulEqCmp.eq_of_compare he)
  rw [Std.ExtTreeMap.contains_insert, hcompare]

/-! ## Soundness -/

/-- Whether a library keeps what a request was made for. -/
def keeps (l : FontLibrary) : FontRequest → Bool
  | .mapping name => l.mappings.contains name
  | .record font => l.metrics.contains font

/-- A library whose tables hold nothing but answers of its source.  What the
    source grants it was asked for once if it is kept, and otherwise never. -/
structure Sound (l : FontLibrary) : Prop where
  mappings : Agrees l.mappings l.source.mapping
  unicodeMaps : Agrees l.unicodeMaps l.source.lineFedMapping
  encodings : Agrees l.encodings l.source.encodingMap
  metrics : Agrees l.metrics l.source.metricsOf
  asked : ∀ r, l.source.Grants r →
    l.requests.count r = if l.keeps r then 1 else 0

theorem keeps_fresh (s : FontSource) (r : FontRequest) :
    keeps { source := s } r = false := by
  cases r with
  | mapping name => exact contains_eq_false Std.ExtTreeMap.getElem?_empty
  | record font => exact contains_eq_false Std.ExtTreeMap.getElem?_empty

theorem sound_fresh (s : FontSource) : Sound { source := s } := by
  refine ⟨agrees_empty _, agrees_empty _, agrees_empty _, agrees_empty _, ?_⟩
  intro r _
  rw [keeps_fresh]
  rfl

/-- The library that has asked its source once more. -/
def asking (l : FontLibrary) (r : FontRequest) : FontLibrary :=
  { l with requests := l.requests ++ [r] }

/-- To ask adds one request to those that were made. -/
theorem count_asking (l : FontLibrary) (r r' : FontRequest) :
    (l.asking r).requests.count r'
      = l.requests.count r' + if r = r' then 1 else 0 := by
  show (l.requests ++ [r]).count r' = _
  rw [List.count_append, List.count_singleton]
  by_cases h : r = r'
  · rw [if_pos h, h, beq_self_eq_true, if_pos rfl]
  · rw [if_neg h, beq_false_of_ne h, if_neg Bool.false_ne_true]

/-- What is not granted may be asked for again. -/
theorem Sound.asking {r : FontRequest} (h : l.Sound)
    (hr : ¬ l.source.Grants r) : (l.asking r).Sound := by
  refine ⟨h.mappings, h.unicodeMaps, h.encodings, h.metrics, ?_⟩
  intro r' hr'
  have hne : r ≠ r' := by
    rintro rfl
    exact hr hr'
  rw [count_asking, if_neg hne]
  exact h.asked r' hr'

/-- What is asked for and then kept was asked for once. -/
theorem Sound.asked_asking {r r' : FontRequest} {keeping : Bool} (h : l.Sound)
    (hr : l.keeps r = false)
    (hkeeping : keeping = (decide (r = r') || l.keeps r'))
    (hr' : l.source.Grants r') :
    (l.asking r).requests.count r' = if keeping then 1 else 0 := by
  rw [count_asking, h.asked r' hr', hkeeping]
  by_cases he : r = r'
  · rw [← he, hr, if_pos rfl, decide_eq_true rfl]
    rfl
  · rw [if_neg he, decide_eq_false he, Bool.false_or, Nat.add_zero]

/-- A mapping that was asked for and read may be kept. -/
theorem Sound.keepMapping {name : String} {m : CodeMap} (h : l.Sound)
    (hnone : l.mappings[name]? = none) (hm : l.source.mapping name = .ok m) :
    Sound { l.asking (.mapping name) with
      mappings := l.mappings.insert name m } := by
  refine ⟨h.mappings.insert hm, h.unicodeMaps, h.encodings, h.metrics, ?_⟩
  intro r hr
  refine h.asked_asking (contains_eq_false hnone) ?_ hr
  cases r with
  | mapping name' =>
      rw [keeps, keeps, contains_insert]
      simp only [FontRequest.mapping.injEq]
  | record font => rfl

/-- Metrics that were asked for and read may be kept. -/
theorem Sound.keepMetrics {font : String} {m : FontMetrics} (h : l.Sound)
    (hnone : l.metrics[font]? = none) (hm : l.source.metricsOf font = .ok m) :
    Sound { l.asking (.record font) with
      metrics := l.metrics.insert font m } := by
  refine ⟨h.mappings, h.unicodeMaps, h.encodings, h.metrics.insert hm, ?_⟩
  intro r hr
  refine h.asked_asking (contains_eq_false hnone) ?_ hr
  cases r with
  | mapping name => rfl
  | record font' =>
      rw [keeps, keeps, contains_insert]
      simp only [FontRequest.record.injEq]

/-! ## Answers -/

/-- An outcome with the answer of a source, and with a sound library over the
    same source. -/
structure Replies (s : FontSource) (answer : Except Error α)
    (o : Outcome FontLibrary α) : Prop where
  result : o.result = answer
  sound : o.state.Sound
  source : o.state.source = s

/-- An action that gives an answer of a source, whatever its library keeps. -/
def Answers (s : FontSource) (a : Action FontLibrary α)
    (answer : Except Error α) : Prop :=
  ∀ l : FontLibrary, l.Sound → l.source = s → Replies s answer (a.run l)

theorem answers_give (s : FontSource) (value : α) :
    Answers s (pure value) (.ok value) :=
  fun _ hl hs => ⟨rfl, hl, hs⟩

theorem answers_fail (s : FontSource) (e : Error) :
    Answers s (Action.fail e : Action FontLibrary α) (.error e) :=
  fun _ hl hs => ⟨rfl, hl, hs⟩

theorem answers_tell (s : FontSource) (events : List Event) :
    Answers s (Action.tell events) (.ok ()) :=
  fun _ hl hs => ⟨rfl, hl, hs⟩

/-- The second action is asked with the answer of the first one. -/
theorem Answers.bind {a : Action FontLibrary α} {f : α → Action FontLibrary β}
    {x : Except Error α} {y : α → Except Error β} (ha : Answers s a x)
    (hf : ∀ value, Answers s (f value) (y value)) :
    Answers s (a >>= f) (x >>= y) := by
  intro l hl hs
  obtain ⟨hresult, hsound, hsource⟩ := ha l hl hs
  cases x with
  | error e =>
      rw [Action.run_bind_of_error f hresult]
      exact ⟨rfl, hsound, hsource⟩
  | ok value =>
      rw [Action.run_bind_of_ok f hresult]
      obtain ⟨hresult', hsound', hsource'⟩ := hf value _ hsound hsource
      exact ⟨hresult', hsound', hsource'⟩

/-- What is read from a library may only depend on its source. -/
theorem answers_read {f : FontLibrary → Action FontLibrary α}
    {answer : Except Error α}
    (hf : ∀ l : FontLibrary, l.source = s → Answers s (f l) answer) :
    Answers s (Action.read >>= f) answer := by
  intro l hl hs
  rw [Action.run_bind_ok f (Action.run_read l)]
  obtain ⟨hresult, hsound, hsource⟩ := hf l hs l hl hs
  exact ⟨hresult, hsound, hsource⟩

/-- What is found, or missing, is told as the source has it. -/
theorem answers_found (s : FontSource) (name : String) (value? : Option α) :
    Answers s (found name value?) (FontSource.found name value?) := by
  cases value? with
  | some value => exact answers_give s value
  | none => exact answers_fail s (.missingResource name)

section

variable {table : FontLibrary → Std.ExtTreeMap String α}
  {keep : FontLibrary → String → α → FontLibrary} {key : String}
  {make : Action FontLibrary α}

/-- What is in the table is the result, and nothing happens. -/
theorem run_kept_of_some {value : α} (h : (table l)[key]? = some value) :
    (kept table keep key make).run l = ⟨.ok value, l, []⟩ := by
  rw [kept, Action.run_bind_ok _ (Action.run_read l)]
  simp only [h]
  rfl

/-- What is not in the table is made, and kept if it can be made. -/
theorem run_kept_of_none (h : (table l)[key]? = none) :
    (kept table keep key make).run l
      = match (make.run l).result with
        | .ok value =>
            ⟨.ok value, keep (make.run l).state key value, (make.run l).events⟩
        | .error e => ⟨.error e, (make.run l).state, (make.run l).events⟩ := by
  rw [kept, Action.run_bind_ok _ (Action.run_read l)]
  simp only [h]
  cases hresult : (make.run l).result with
  | ok value =>
      rw [Action.run_bind_of_ok _ hresult]
      exact congrArg (Outcome.mk _ _) (List.append_nil _)
  | error e =>
      rw [Action.run_bind_of_error _ hresult]
      rfl

/-- Keeping does not show: a table holds what would be made, and what is made
    may be put into it. -/
theorem answers_kept {answer : Except Error α}
    (htable : ∀ l : FontLibrary, l.Sound → l.source = s →
      ∀ value, (table l)[key]? = some value → answer = .ok value)
    (hmake : ∀ l : FontLibrary, l.Sound → l.source = s →
      (table l)[key]? = none → (make.run l).result = answer
        ∧ (∀ value, answer = .ok value →
          (keep (make.run l).state key value).Sound
            ∧ (keep (make.run l).state key value).source = s)
        ∧ ∀ e, answer = .error e →
          (make.run l).state.Sound ∧ (make.run l).state.source = s) :
    Answers s (kept table keep key make) answer := by
  intro l hl hs
  cases hkey : (table l)[key]? with
  | some value =>
      rw [run_kept_of_some hkey, htable l hl hs value hkey]
      exact ⟨rfl, hl, hs⟩
  | none =>
      obtain ⟨hresult, hok, herror⟩ := hmake l hl hs hkey
      rw [run_kept_of_none hkey, hresult]
      cases answer with
      | ok value => exact ⟨rfl, (hok value rfl).1, (hok value rfl).2⟩
      | error e => exact ⟨rfl, (herror e rfl).1, (herror e rfl).2⟩

/-- What is kept may be made from what other tables keep. -/
theorem Answers.kept {answer : Except Error α} (hmake : Answers s make answer)
    (htable : ∀ l : FontLibrary, l.Sound → l.source = s →
      ∀ value, (table l)[key]? = some value → answer = .ok value)
    (hkeep : ∀ l : FontLibrary, l.Sound → l.source = s →
      ∀ value, answer = .ok value →
        (keep l key value).Sound ∧ (keep l key value).source = s) :
    Answers s (FontLibrary.kept table keep key make) answer := by
  refine answers_kept htable ?_
  intro l hl hs _
  obtain ⟨hresult, hsound, hsource⟩ := hmake l hl hs
  exact ⟨hresult, hkeep _ hsound hsource, fun _ _ => ⟨hsound, hsource⟩⟩

/-- What is kept may come from the source, by one request. -/
theorem answers_kept_of_request {answer : Except Error α} {r : FontRequest}
    (hmake : ∀ l : FontLibrary, l.source = s →
      ∃ events, make.run l = ⟨answer, l.asking r, events⟩)
    (hgrants : s.Grants r → ∃ value, answer = .ok value)
    (htable : ∀ l : FontLibrary, l.Sound → l.source = s →
      ∀ value, (table l)[key]? = some value → answer = .ok value)
    (hkeep : ∀ l : FontLibrary, l.Sound → l.source = s →
      (table l)[key]? = none → ∀ value, answer = .ok value →
        (keep (l.asking r) key value).Sound
          ∧ (keep (l.asking r) key value).source = s) :
    Answers s (kept table keep key make) answer := by
  refine answers_kept htable ?_
  intro l hl hs hnone
  obtain ⟨events, hrun⟩ := hmake l hs
  rw [hrun]
  refine ⟨rfl, hkeep l hl hs hnone, ?_⟩
  intro e he
  refine ⟨hl.asking ?_, hs⟩
  rw [hs]
  intro hr
  obtain ⟨value, hvalue⟩ := hgrants hr
  rw [he] at hvalue
  cases hvalue

end

/-! ## What can be asked -/

/-- To load a mapping is to ask for it, whatever comes of it. -/
theorem run_load (name : String) (l : FontLibrary) :
    (load name).run l = ⟨l.source.mapping name, l.asking (.mapping name),
      [.loadingMapping name]⟩ := by
  rw [load, Action.run_bind_ok _ (Action.run_tell _ l), request,
    Action.run_bind_ok _ (Action.run_change _ l),
    Action.run_bind_ok _ (Action.run_read _), FontSource.mapping]
  cases l.source.codeMapping name with
  | ok entries => rfl
  | error cause => rfl

/-- A code mapping is kept as it was loaded. -/
theorem answers_mapping (s : FontSource) (name : String) :
    Answers s (mapping name) (s.mapping name) := by
  refine answers_kept_of_request (r := .mapping name) ?_ id ?_ ?_
  · rintro l rfl
    exact ⟨_, run_load name l⟩
  · rintro l hl rfl m hm
    exact hl.mappings name m hm
  · rintro l hl rfl hnone m hm
    exact ⟨hl.keepMapping hnone hm, rfl⟩

/-- The line feed is put into a copy, which is kept elsewhere. -/
theorem answers_unicodeMap (s : FontSource) (font : String) :
    Answers s (unicodeMap font) (s.unicodeMap font) := by
  refine answers_read ?_
  rintro l rfl
  refine (answers_found l.source font _).bind ?_
  intro entry
  have hmake : Answers l.source
      (do return (← mapping (mappingName entry)).withLineFeed)
      (l.source.lineFedMapping (mappingName entry)) := by
    have hbind := (answers_mapping l.source (mappingName entry)).bind
      fun m => answers_give l.source m.withLineFeed
    rw [FontSource.lineFedMapping]
    exact hbind
  refine hmake.kept ?_ ?_
  · intro l' hl' hs m hm
    rw [← hs]
    exact hl'.unicodeMaps _ m hm
  · intro l' hl' hs m hm
    rw [← hs] at hm
    exact ⟨⟨hl'.mappings, hl'.unicodeMaps.insert hm, hl'.encodings,
      hl'.metrics, hl'.asked⟩, hs⟩

/-- An encoding that is described by words is answered as the source has it. -/
theorem answers_composed (s : FontSource) (encoding : String)
    (words : List (List Char)) :
    Answers s (composed encoding words) (s.composed encoding words) := by
  cases words with
  | nil => exact answers_fail s (.missingResource encoding)
  | cons base words =>
      cases words with
      | nil => exact answers_mapping s (String.ofList base)
      | cons top words =>
          refine (answers_mapping s (String.ofList base)).bind ?_
          intro base
          refine (answers_mapping s (String.ofList top)).bind ?_
          intro top
          exact answers_give s (base.overlay top)

/-- The mapping of an encoding is answered as the source has it. -/
theorem answers_compose (s : FontSource) (encoding : String) :
    Answers s (compose encoding) (s.encodingMap encoding) := by
  refine answers_read ?_
  rintro l rfl
  refine (answers_found l.source encoding _).bind ?_
  intro entry
  exact answers_composed l.source encoding _

/-- The mappings that an encoding is composed of stay as they are. -/
theorem answers_encodingMap (s : FontSource) (encoding : String) :
    Answers s (encodingMap encoding) (s.encodingMap encoding) := by
  refine (answers_compose s encoding).kept ?_ ?_
  · rintro l hl rfl m hm
    exact hl.encodings encoding m hm
  · rintro l hl rfl m hm
    exact ⟨⟨hl.mappings, hl.unicodeMaps, hl.encodings.insert hm, hl.metrics,
      hl.asked⟩, rfl⟩

/-- To read metrics is to ask for their record, whatever comes of it. -/
theorem run_readMetrics (font : String) (l : FontLibrary) :
    ∃ events, (readMetrics font).run l
      = ⟨l.source.metricsOf font, l.asking (.record font), events⟩ := by
  rw [readMetrics, request, Action.run_bind_ok _ (Action.run_change _ l),
    Action.run_bind_ok _ (Action.run_read _), FontSource.metricsOf]
  cases l.source.metricRecord font with
  | none => exact ⟨_, rfl⟩
  | some record =>
      have hfound : ∀ l : FontLibrary, (found font (some record)).run l
          = ⟨.ok record, l, []⟩ := fun _ => rfl
      rw [Action.run_bind_ok _ (hfound _),
        Action.run_bind_ok _ (Action.run_tell _ _), Action.run_ofExcept]
      exact ⟨_, rfl⟩

/-- The metrics of a font are answered as the source has them. -/
theorem answers_metricsOf (s : FontSource) (font : String) :
    Answers s (metricsOf font) (s.metricsOf font) := by
  refine answers_kept_of_request (r := .record font) ?_ id ?_ ?_
  · rintro l rfl
    exact run_readMetrics font l
  · rintro l hl rfl m hm
    exact hl.metrics font m hm
  · rintro l hl rfl hnone m hm
    exact ⟨hl.keepMetrics hnone hm, rfl⟩

/-! ## Questions in any order -/

/-- A question to a library. -/
inductive Query where
  | unicodeMap (font : String)
  | encodingMap (encoding : String)
  | metrics (font : String)

/-- What is answered to a question. -/
inductive Answer where
  | mapping (m : CodeMap)
  | metrics (m : FontMetrics)

/-- Asks a library. -/
def Query.ask : Query → Action FontLibrary Answer
  | unicodeMap font => do return .mapping (← FontLibrary.unicodeMap font)
  | encodingMap encoding => do
      return .mapping (← FontLibrary.encodingMap encoding)
  | metrics font => do return .metrics (← FontLibrary.metricsOf font)

/-- What a source has to say to a question. -/
def Query.answer (s : FontSource) : Query → Except Error Answer
  | unicodeMap font => (s.unicodeMap font).map .mapping
  | encodingMap encoding => (s.encodingMap encoding).map .mapping
  | metrics font => (s.metricsOf font).map .metrics

/-- The library after some questions, be they answered or not. -/
def afterAll (l : FontLibrary) (queries : List Query) : FontLibrary :=
  queries.foldl (fun l q => (q.ask.run l).state) l

/-- Each question is answered as the source answers it. -/
theorem answers_ask (s : FontSource) (q : Query) :
    Answers s q.ask (q.answer s) := by
  cases q with
  | unicodeMap font =>
      exact (answers_unicodeMap s font).bind fun m =>
        answers_give s (Answer.mapping m)
  | encodingMap encoding =>
      exact (answers_encodingMap s encoding).bind fun m =>
        answers_give s (Answer.mapping m)
  | metrics font =>
      exact (answers_metricsOf s font).bind fun m =>
        answers_give s (Answer.metrics m)

/-- Questions leave a library sound, and its source as it was. -/
theorem sound_afterAll (queries : List Query) (h : l.Sound) :
    (l.afterAll queries).Sound ∧ (l.afterAll queries).source = l.source := by
  induction queries generalizing l with
  | nil => exact ⟨h, rfl⟩
  | cons q queries ih =>
      obtain ⟨-, hsound, hsource⟩ := answers_ask l.source q l h rfl
      have hrest := ih hsound
      rw [hsource] at hrest
      exact hrest

/-- **WHAT IS KEPT DOES NOT SHOW**: whatever a library was asked before, and
    whether it could answer or not, each question is answered as by a library
    that was never asked, which is what its source has to say: no line feed in
    the mapping of an encoding, and no overlay in the one of another.  What can
    be read is asked for at most once. -/
theorem ask_afterAll (s : FontSource) (queries : List Query) :
    let l := afterAll { source := s } queries
    (∀ q : Query, (q.ask.run l).result = (q.ask.run { source := s }).result
        ∧ (q.ask.run l).result = q.answer s)
      ∧ (∀ name entries, s.codeMapping name = .ok entries →
        l.requests.count (.mapping name) ≤ 1)
      ∧ ∀ font record m, s.metricRecord font = some record →
        FontMetrics.parse font record = .ok m →
        l.requests.count (.record font) ≤ 1 := by
  intro l
  obtain ⟨hsound, hsource⟩ : l.Sound ∧ l.source = s :=
    sound_afterAll queries (sound_fresh s)
  have honce : ∀ r, s.Grants r → l.requests.count r ≤ 1 := by
    intro r hr
    rw [hsound.asked r (hsource ▸ hr)]
    split
    · exact Nat.le_refl 1
    · exact Nat.zero_le 1
  refine ⟨?_, ?_, ?_⟩
  · intro q
    have hkept := (answers_ask s q l hsound hsource).result
    have hfresh := (answers_ask s q _ (sound_fresh s) rfl).result
    exact ⟨hkept.trans hfresh.symm, hkept⟩
  · intro name entries hname
    refine honce _ ⟨.ofArray entries, ?_⟩
    rw [FontSource.mapping, hname]
  · intro font record m hrecord hm
    refine honce _ ⟨m, ?_⟩
    rw [FontSource.metricsOf, hrecord]
    exact hm

/-- A source with one code mapping, which serves for fonts, as the base of an
    encoding and as what is laid over it; another one is missing. -/
def sampleSource : FontSource where
  fontEntry _ := some "J_H_V_"
  encodingEntry encoding :=
    if encoding = "H" then some "J J"
    else if encoding = "V" then some "J K" else none
  metricRecord font :=
    if font = "Gothic" then some CompositeFont.negativeRecord else none
  codeMapping name :=
    if name = "J" then .ok #[7] else .error (FontTables.noMapping name)

/-- Questions that are asked again, and some that cannot be answered. -/
def sampleQueries : List Query :=
  [.encodingMap "V", .unicodeMap "Gothic", .metrics "Mincho",
    .encodingMap "H", .metrics "Gothic", .encodingMap "V",
    .metrics "Gothic", .unicodeMap "Gothic"]

/-- The sample library after the sample questions, of which some failed. -/
theorem ask_afterAll_sample :
    sampleSource.codeMapping "J" = .ok #[7]
      ∧ sampleSource.metricRecord "Gothic" = some CompositeFont.negativeRecord
      ∧ FontMetrics.parse "Gothic" CompositeFont.negativeRecord
        = .ok CompositeFont.negativeFont.metrics
      ∧ let l := afterAll { source := sampleSource } sampleQueries
        l.requests.count (.mapping "J") ≤ 1
          ∧ l.requests.count (.record "Gothic") ≤ 1
          ∧ ∀ q : Query, (q.ask.run l).result = q.answer sampleSource := by
  obtain ⟨hanswers, hmappings, hrecords⟩ :=
    ask_afterAll sampleSource sampleQueries
  exact ⟨rfl, rfl, rfl, hmappings "J" #[7] rfl,
    hrecords "Gothic" CompositeFont.negativeRecord
      CompositeFont.negativeFont.metrics rfl rfl,
    fun q => (hanswers q).2⟩

end FontLibrary

end Pdf
