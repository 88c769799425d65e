import Pdf.Action.Basic
import Pdf.Font.CodeMap
import Pdf.Font.Metrics

/-! # Font libraries — what is known about fonts, read once

    Fonts are described by a source: the encodings of each font, the code
    mappings behind each encoding, and a metric record.  A library reads a
    description when it is first needed and keeps what it made of it.  A failure
    is not kept, so a later call tries again.  `requests` lists what the source
    was asked to load. -/

namespace Pdf

/-- A source of descriptions of fonts. -/
structure FontSource where
  /-- The encodings of a font, as `<mapping>_<encoding>_<encoding>_…`: the
      mapping leads from character identifiers to Unicode. -/
  fontEntry : String → Option String
  /-- The mapping of an encoding, and perhaps a second one that is laid over
      it. -/
  encodingEntry : String → Option String
  /-- The metric record of a font. -/
  metricRecord : String → Option Record
  /-- A code mapping of any length. -/
  codeMapping : String → Except IoError (Array UInt16)

/-- Descriptions of fonts held in memory. -/
structure FontTables where
  fonts : Std.ExtTreeMap String String := .empty
  encodings : Std.ExtTreeMap String String := .empty
  records : Std.ExtTreeMap String Record := .empty
  mappings : Std.ExtTreeMap String (Array UInt16) := .empty

namespace FontTables

/-- The failure to find a code mapping. -/
def noMapping (name : String) : IoError :=
  ⟨.notFound, "no code mapping named " ++ name⟩

/-- The descriptions as a source. -/
def source (t : FontTables) : FontSource where
  fontEntry font := t.fonts[font]?
  encodingEntry encoding := t.encodings[encoding]?
  metricRecord font := t.records[font]?
  codeMapping name :=
    match t.mappings[name]? with
    | some entries => .ok entries
    | none => .error (noMapping name)

end FontTables

/-- Something that a source was asked to load. -/
inductive FontRequest where
  | record (font : String)
  | mapping (name : String)
  deriving DecidableEq

/-- A source of descriptions of fonts with what was read from it. -/
structure FontLibrary where
  source : FontSource
  /-- Code mappings as they were loaded. -/
  mappings : Std.ExtTreeMap String CodeMap := .empty
  /-- Mappings from character identifiers to Unicode. -/
  unicodeMaps : Std.ExtTreeMap String CodeMap := .empty
  /-- Mappings from the codes of an encoding to character identifiers. -/
  encodings : Std.ExtTreeMap String CodeMap := .empty
  metrics : Std.ExtTreeMap String FontMetrics := .empty
  requests : List FontRequest := []

namespace FontLibrary

/-- The library without fonts. -/
def empty : FontLibrary := { source := ({} : FontTables).source }

/-! ## Encodings of a font -/

/-- The encoding in which codes are character identifiers, for horizontal
    writing. -/
def horizontalIdentity : String := "Identity-H"

/-- The encoding in which codes are character identifiers, for vertical
    writing. -/
def verticalIdentity : String := "Identity-V"

/-- Whether codes of the encoding are character identifiers. -/
def isIdentity (encoding : String) : Bool :=
  encoding == horizontalIdentity || encoding == verticalIdentity

/-- Whether some characters occur in a row. -/
def occursIn (needle : List Char) : List Char → Bool
  | [] => needle.isEmpty
  | c :: cs => needle.isPrefixOf (c :: cs) || occursIn needle cs

/-- Whether an entry of a font lists an encoding. -/
def lists (entry encoding : String) : Bool :=
  occursIn ('_' :: encoding.toList ++ ['_']) entry.toList

/-- Whether a font exists and can be used with an encoding. -/
def supports (l : FontLibrary) (font encoding : String) : Bool :=
  match l.source.fontEntry font with
  | none => false
  | some entry => isIdentity encoding || lists entry encoding

/-! ## Reading and keeping -/

/-- The value that is kept under a key; if there is none, the one that an action
    gives, which is kept from then on. -/
def kept {α : Type} (table : FontLibrary → Std.ExtTreeMap String α)
    (keep : FontLibrary → String → α → FontLibrary) (key : String)
    (make : Action FontLibrary α) : Action FontLibrary α := do
  let l ← Action.read
  match (table l)[key]? with
  | some value => return value
  | none =>
      let value ← make
      Action.change (keep · key value)
      return value

/-- Notes what the source is asked to load. -/
def request (r : FontRequest) : Action FontLibrary Unit :=
  Action.change fun l => { l with requests := l.requests ++ [r] }

/-- What a failure to load a code mapping means. -/
def loadError (name : String) (cause : IoError) : Error :=
  if cause.kind = .notFound then .missingResource name else .io cause

/-- Loads a code mapping. -/
def load (name : String) : Action FontLibrary CodeMap := do
  Action.tell [.loadingMapping name]
  request (.mapping name)
  let l ← Action.read
  match l.source.codeMapping name with
  | .ok entries => return .ofArray entries
  | .error cause => Action.fail (loadError name cause)

/-- The code mapping of a name. -/
def mapping (name : String) : Action FontLibrary CodeMap :=
  kept (·.mappings)
    (fun l name m => { l with mappings := l.mappings.insert name m })
    name (load name)

/-- What the source says, or the error that there is nothing under a name. -/
def found {α : Type} (name : String) : Option α → Action FontLibrary α
  | some value => Action.give value
  | none => Action.fail (.missingResource name)

/-- The name of the mapping in the entry of a font: everything before the first
    underscore. -/
def mappingName (entry : String) : String :=
  String.ofList (entry.toList.takeWhile (· != '_'))

/-- The mapping of a font from character identifiers to Unicode. -/
def unicodeMap (font : String) : Action FontLibrary CodeMap := do
  let l ← Action.read
  let entry ← found font (l.source.fontEntry font)
  kept (·.unicodeMaps)
    (fun l name m => { l with unicodeMaps := l.unicodeMaps.insert name m })
    (mappingName entry) (do return (← mapping (mappingName entry)).withLineFeed)

/-- The mapping that the words of an encoding's entry describe: a base, and
    perhaps another mapping laid over it. -/
def composed (encoding : String) : List (List Char) → Action FontLibrary CodeMap
  | [] => Action.fail (.missingResource encoding)
  | [base] => mapping (String.ofList base)
  | base :: top :: _ => do
      let base ← mapping (String.ofList base)
      let top ← mapping (String.ofList top)
      return base.overlay top

/-- Reads the mapping of an encoding. -/
def compose (encoding : String) : Action FontLibrary CodeMap := do
  let l ← Action.read
  let entry ← found encoding (l.source.encodingEntry encoding)
  composed encoding (Text.words entry.toList)

/-- The mapping of an encoding from its codes to character identifiers. -/
def encodingMap (encoding : String) : Action FontLibrary CodeMap :=
  kept (·.encodings)
    (fun l encoding m => { l with encodings := l.encodings.insert encoding m })
    encoding (compose encoding)

/-- Reads the metrics of a font. -/
def readMetrics (font : String) : Action FontLibrary FontMetrics := do
  request (.record font)
  let l ← Action.read
  let record ← found font (l.source.metricRecord font)
  Action.tell [.parsingRecord font]
  Action.ofExcept (FontMetrics.parse font record)

/-- The metrics of a font. -/
def metricsOf (font : String) : Action FontLibrary FontMetrics :=
  kept (·.metrics)
    (fun l font m => { l with metrics := l.metrics.insert font m })
    font (readMetrics font)

end FontLibrary

end Pdf
