import Pdf.Proofs.Document.Building
import Pdf.Proofs.Font.Keeping

/-! # Rejection — fonts that cannot be added

    Adding a font may fail at several places, and some descriptions may have
    been read by then.  The library keeps them, but nothing else of a document
    is touched before all can be had: neither the body nor the fonts.

    What a library keeps does not show in its answers.  So two documents that
    differ in nothing else (`Alike`) answer each call in the same way and stay
    alike, and after any calls they are written as the same file. -/

namespace Pdf

namespace FontLibrary

/-- The libraries that questions make of one that was never asked. -/
inductive Reachable : FontLibrary → Prop where
  | fresh (s : FontSource) : Reachable { source := s }
  | after {l : FontLibrary} (q : Query) : Reachable l →
      Reachable (q.ask.run l).state

/-- What a reachable library keeps is what its source describes. -/
theorem Reachable.sound {l : FontLibrary} (h : l.Reachable) : l.Sound := by
  induction h with
  | fresh s => exact sound_fresh s
  | @after l q _ ih => exact (answers_ask l.source q l ih rfl).sound

end FontLibrary

namespace CompositeFont

/-! ## Fonts of a source -/

/-- The mapping that a font needs for an encoding, without a memory. -/
def codesFrom (s : FontSource) (name encoding : String) :
    Except Error CodeMap :=
  if FontLibrary.isIdentity encoding then s.unicodeMap name
  else s.encodingMap encoding

/-- A font of a source under an encoding, without a memory. -/
def createFrom (s : FontSource) (font encoding : String) :
    Except Error CompositeFont :=
  let (name, style) := nameAndStyle font
  if ! FontLibrary.supports { source := s } name encoding then
    .error (.unsupportedFont font encoding)
  else do
    let codes ← codesFrom s name encoding
    let metrics ← s.metricsOf name
    return { name, style, encoding, codes, metrics }

/-- The codes of a font are those that its source describes. -/
theorem answers_codesOf (s : FontSource) (name encoding : String) :
    FontLibrary.Answers s (codesOf name encoding)
      (codesFrom s name encoding) := by
  rw [codesOf, codesFrom]
  cases FontLibrary.isIdentity encoding with
  | true => exact FontLibrary.answers_unicodeMap s name
  | false => exact FontLibrary.answers_encodingMap s encoding

/-- A font is created from what the source of a library says. -/
theorem answers_create (s : FontSource) (font encoding : String) :
    FontLibrary.Answers s (create font encoding)
      (createFrom s font encoding) := by
  refine FontLibrary.answers_read ?_
  rintro l rfl
  rw [createFrom]
  cases nameAndStyle font with
  | mk name style =>
      have hsupports : l.supports name encoding
          = FontLibrary.supports { source := l.source } name encoding := rfl
      simp only [hsupports]
      cases FontLibrary.supports { source := l.source } name encoding with
      | false => exact FontLibrary.answers_fail l.source _
      | true =>
          refine (answers_codesOf l.source name encoding).bind ?_
          intro codes
          refine (FontLibrary.answers_metricsOf l.source name).bind ?_
          intro metrics
          exact (FontLibrary.answers_tell l.source _).bind fun _ =>
            FontLibrary.answers_give l.source _

end CompositeFont

namespace Document

variable {d d' : Document}

/-! ## Calls -/

/-- A call on a document: an operation, a choice, or a question. -/
inductive Call where
  | operation (o : Operation)
  | setInfo (info : Info)
  | setEncryption (e : Encryption)
  | setCompressor (compressor : Compressor)
  /-- Takes a library that may have been asked elsewhere. -/
  | setLibrary (l : FontLibrary) (h : l.Reachable)
  /-- Asks the library. -/
  | ask (q : FontLibrary.Query)
  | supports (font encoding : String)
  /-- Looks at the font under a reference. -/
  | viewFont (r : Ref)
  /-- Looks at the body. -/
  | viewBody
  /-- Writes the document with a catalog. -/
  | write (root : Ref) (w : Writer)

/-- What is answered to a call. -/
inductive Answer where
  | nothing
  | given (result : Except Error (Option Ref))
  /-- The bytes that show a text, if there is a font for it. -/
  | shown (bytes : Option Bytes)
  | told (result : Except Error FontLibrary.Answer)
  | supported (answer : Bool)
  | font (f : Option CompositeFont)
  | body (b : Body)
  | written (o : Outcome Writer Unit)

/-- What is answered to an operation. -/
def Operation.answer (d : Document) : Operation → Answer
  | addFont font encoding =>
      .given (((Document.addFont font encoding).run d).result.map some)
  | useText r text =>
      .shown ((d.font? r).map fun _ => CompositeFont.shown text)
  | onBody o => .given (o.answer d.body)

/-- What is answered to a call. -/
def Call.answer (d : Document) : Call → Answer
  | operation o => o.answer d
  | setInfo _ | setEncryption _ | setCompressor _ | setLibrary _ _ => .nothing
  | ask q => .told (q.ask.run d.library).result
  | supports font encoding => .supported (d.library.supports font encoding)
  | viewFont r => .font (d.font? r)
  | viewBody => .body d.body
  | write root w => .written ((d.write root).run w)

/-- The document after a call. -/
def Call.after (d : Document) : Call → Document
  | operation o => o.after d
  | setInfo info => { d with info := some info }
  | setEncryption e => { d with encryption := some e }
  | setCompressor compressor => { d with compressor }
  | setLibrary l _ => { d with library := l }
  | ask q => { d with library := (q.ask.run d.library).state }
  | supports _ _ | viewFont _ | viewBody | write _ _ => d

/-- What is answered to some calls, one after the other. -/
def answers : Document → List Call → List Answer
  | _, [] => []
  | d, c :: calls => c.answer d :: answers (c.after d) calls

/-- The document after some calls. -/
def afterCalls (d : Document) (calls : List Call) : Document :=
  calls.foldl (fun d c => c.after d) d

/-- The documents that calls build from one with nothing in it. -/
inductive Reachable : Document → Prop where
  | fresh {d : Document} : d.IsFresh → d.library.Reachable → Reachable d
  | after {d : Document} (c : Call) : Reachable d → Reachable (c.after d)

/-! ## Adding a font -/

/-- The library plays no part in it. -/
theorem accept_withLibrary (d : Document) (library : FontLibrary)
    (created : Except Error CompositeFont) :
    ({ d with library } : Document).accept created
      = ((d.accept created).1, { (d.accept created).2 with library }) := by
  cases created with
  | error e => rfl
  | ok f =>
      rw [accept, accept]
      by_cases hfull : Body.highestNumber ≤ d.body.issued
      · rw [if_pos hfull, if_pos hfull]
      · rw [if_neg hfull, if_neg hfull]

/-- A font that could not be created is not accepted. -/
theorem accept_of_error {created : Except Error CompositeFont} {e : Error}
    (h : (d.accept created).1 = .error e) : (d.accept created).2 = d := by
  cases created with
  | error e => rfl
  | ok f =>
      rw [accept] at h ⊢
      by_cases hfull : Body.highestNumber ≤ d.body.issued
      · rw [if_pos hfull]
      · rw [if_neg hfull] at h
        cases h

/-! ## Documents that are alike -/

/-- Documents that differ in nothing but what their libraries keep. -/
structure Alike (d d' : Document) : Prop where
  same : d' = { d with library := d'.library }
  source : d'.library.source = d.library.source
  sound : d.library.Sound
  sound' : d'.library.Sound

/-- Whatever replies to a question keeps two documents alike. -/
theorem Alike.ofReplies {α : Type} {b : Document} {s : FontSource}
    {answer : Except Error α} {o o' : Outcome FontLibrary α}
    (h : FontLibrary.Replies s answer o)
    (h' : FontLibrary.Replies s answer o') :
    Alike { b with library := o.state } { b with library := o'.state } :=
  ⟨rfl, h'.source.trans h.source.symm, h.sound, h'.sound⟩

/-- Documents that are alike answer a new font alike and stay alike. -/
theorem Alike.addFont {font encoding : String} (h : Alike d d') :
    ((Document.addFont font encoding).run d').result
        = ((Document.addFont font encoding).run d).result
      ∧ Alike ((Document.addFont font encoding).run d).state
        ((Document.addFont font encoding).run d').state := by
  obtain ⟨hresult, hstate⟩ := run_addFont font encoding d
  obtain ⟨hresult', hstate'⟩ := run_addFont font encoding d'
  have hcreate := CompositeFont.answers_create d.library.source font encoding
  have hr := hcreate d.library h.sound rfl
  have hr' := hcreate d'.library h.sound' h.source
  have haccept := d.accept_withLibrary d'.library
    (CompositeFont.createFrom d.library.source font encoding)
  rw [← h.same] at haccept
  rw [hr.result] at hresult hstate
  rw [hr'.result, haccept] at hresult' hstate'
  refine ⟨hresult'.trans hresult.symm, ?_⟩
  rw [hstate, hstate']
  exact .ofReplies hr hr'

/-- Documents that are alike answer an operation alike and stay alike. -/
theorem Alike.operation (h : Alike d d') (o : Operation) :
    o.answer d' = o.answer d ∧ Alike (o.after d) (o.after d') := by
  cases o with
  | addFont font encoding =>
      obtain ⟨hresult, halike⟩ := h.addFont
      refine ⟨?_, halike⟩
      rw [Operation.answer, Operation.answer, hresult]
  | useText r text =>
      rw [h.same]
      exact ⟨rfl, rfl, h.source, h.sound, h.sound'⟩
  | onBody o =>
      rw [h.same]
      exact ⟨rfl, rfl, h.source, h.sound, h.sound'⟩

/-- Alike documents answer a call in the same way, and stay alike. -/
theorem Alike.call (h : Alike d d') (c : Call) :
    c.answer d' = c.answer d ∧ Alike (c.after d) (c.after d') := by
  cases c with
  | operation o => exact h.operation o
  | setInfo info =>
      rw [h.same]
      exact ⟨rfl, rfl, h.source, h.sound, h.sound'⟩
  | setEncryption e =>
      rw [h.same]
      exact ⟨rfl, rfl, h.source, h.sound, h.sound'⟩
  | setCompressor compressor =>
      rw [h.same]
      exact ⟨rfl, rfl, h.source, h.sound, h.sound'⟩
  | setLibrary l hl =>
      rw [h.same]
      exact ⟨rfl, rfl, rfl, hl.sound, hl.sound⟩
  | ask q =>
      have hask := FontLibrary.answers_ask d.library.source q
      have hr := hask d.library h.sound rfl
      have hr' := hask d'.library h.sound' h.source
      refine ⟨?_, ?_⟩
      · rw [Call.answer, Call.answer, hr.result, hr'.result]
      · rw [h.same]
        exact .ofReplies hr hr'
  | supports font encoding =>
      refine ⟨?_, h⟩
      rw [Call.answer, Call.answer, FontLibrary.supports,
        FontLibrary.supports, h.source]
  | viewFont r =>
      refine ⟨?_, h⟩
      rw [h.same]
      rfl
  | viewBody =>
      refine ⟨?_, h⟩
      rw [h.same]
      rfl
  | write root w =>
      refine ⟨?_, h⟩
      rw [h.same]
      rfl

/-- They also do so call after call. -/
theorem Alike.answers (h : Alike d d') (calls : List Call) :
    answers d' calls = answers d calls
      ∧ Alike (d.afterCalls calls) (d'.afterCalls calls) := by
  induction calls generalizing d d' with
  | nil => exact ⟨rfl, h⟩
  | cons c calls ih =>
      obtain ⟨hanswer, hafter⟩ := h.call c
      obtain ⟨hrest, halike⟩ := ih hafter
      refine ⟨?_, halike⟩
      rw [Document.answers, Document.answers, hanswer, hrest]

/-- Writing does not ask the library. -/
theorem Alike.run_write (h : Alike d d') (root : Ref) (w : Writer) :
    (d'.write root).run w = (d.write root).run w := by
  rw [h.same]
  rfl

/-! ## Rejected fonts -/

/-- The library of a reachable document keeps what its source describes. -/
theorem Reachable.sound (h : d.Reachable) : d.library.Sound := by
  induction h with
  | fresh _ hlibrary => exact hlibrary.sound
  | @after d c _ ih => exact ((Alike.mk rfl rfl ih ih).call c).2.sound

/-- A font that is rejected changes nothing but what the library keeps. -/
theorem alike_addFont {font encoding : String} {e : Error}
    (h : d.library.Sound)
    (he : ((Document.addFont font encoding).run d).result = .error e) :
    Alike d ((Document.addFont font encoding).run d).state := by
  obtain ⟨hresult, hstate⟩ := run_addFont font encoding d
  rw [hresult] at he
  have hcreate := CompositeFont.answers_create d.library.source font encoding
    d.library h rfl
  rw [hstate, accept_of_error he]
  exact ⟨rfl, hcreate.source, h, hcreate.sound⟩

/-- **A REJECTED FONT LEAVES NO TRACE**: if a font cannot be added to a document
    that was built by any calls, the body and the fonts are what they were, and
    whatever is called from then on is answered as if the font had never been
    asked for; so is every file the one that would have been written. -/
theorem answers_of_rejected (h : d.Reachable) {font encoding : String}
    {e : Error} (he : ((addFont font encoding).run d).result = .error e) :
    let d' := ((addFont font encoding).run d).state
    d'.body = d.body ∧ d'.fonts = d.fonts
      ∧ ∀ calls, answers d' calls = answers d calls
        ∧ ∀ root w, ((d'.afterCalls calls).write root).run w
          = ((d.afterCalls calls).write root).run w := by
  intro d'
  have halike : Alike d d' := alike_addFont h.sound he
  have hbody : d'.body = d.body := by
    rw [halike.same]
  have hfonts : d'.fonts = d.fonts := by
    rw [halike.same]
  refine ⟨hbody, hfonts, ?_⟩
  intro calls
  obtain ⟨hanswers, hafter⟩ := halike.answers calls
  exact ⟨hanswers, hafter.run_write⟩

/-- A document over a source in which some fonts have no metrics. -/
def samplePlain : Document where
  library := { source := FontLibrary.sampleSource }

/-- The mapping of the encoding is kept, and the font is added after all under
    a name that has metrics. -/
theorem answers_of_rejected_sample :
    samplePlain.Reachable
      ∧ ((addFont "Mincho" "H").run samplePlain).result
        = .error (.missingResource "Mincho")
      ∧ ((addFont "Mincho" "H").run samplePlain).state.library.requests
        = [.mapping "J", .record "Mincho"]
      ∧ let calls : List Call := [.operation (.addFont "Gothic" "H"),
          .operation (.useText ⟨1, 0⟩ "A"), .viewBody]
        answers ((addFont "Mincho" "H").run samplePlain).state calls
          = answers samplePlain calls := by
  have hreachable : samplePlain.Reachable := .fresh ⟨rfl, rfl⟩ (.fresh _)
  have hrejected : ((addFont "Mincho" "H").run samplePlain).result
      = .error (.missingResource "Mincho") := rfl
  obtain ⟨-, -, hcalls⟩ := answers_of_rejected hreachable hrejected
  exact ⟨hreachable, hrejected, by decide +kernel, (hcalls _).1⟩

end Document

end Pdf
