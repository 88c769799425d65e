import Pdf.Body.Basic
import Pdf.Font.Library
import Pdf.Font.Segment
import Std.Data.ExtTreeSet

/-! # Composite fonts — fonts with thousands of characters, named and measured

    The font itself is not part of the file; a viewer supplies it.  Text is
    shown as UTF-16 codes, which the encoding of the font turns into character
    identifiers.  The font notes the identifiers that were used, so that only
    their widths are written.

    Three objects make a font: a descriptor, the descendant font with the
    widths, and the composite font that content refers to.  The composite font
    goes under a reference that was handed out before, because content needs it
    before the widths are known. -/

namespace Pdf

/-- A font of a character collection under some encoding. -/
structure CompositeFont where
  /-- The name without style. -/
  name : String
  /-- The style with the comma in front of it, or nothing. -/
  style : String
  encoding : String
  /-- For identity encodings the Unicode codes of character identifiers,
      otherwise the character identifiers of codes. -/
  codes : CodeMap
  metrics : FontMetrics
  /-- The character identifiers used so far. -/
  used : Std.ExtTreeSet UInt16 := .empty

namespace CompositeFont

/-! ## Creation -/

/-- The styles that may follow the name of a font. -/
def styles : List String := [",BoldItalic", ",Bold", ",Italic"]

/-- The name of a font in front of a style that it ends with. -/
def cutStyle? (font style : List Char) : Option (List Char × List Char) :=
  if style.isSuffixOf font then
    some (font.take (font.length - style.length), style)
  else none

/-- The name of a font and its style. -/
def nameAndStyle (font : String) : String × String :=
  match styles.findSome? fun style => cutStyle? font.toList style.toList with
  | some (name, style) => (String.ofList name, String.ofList style)
  | none => (font, "")

/-- The mapping that a font needs for an encoding. -/
def codesOf (name encoding : String) : Action FontLibrary CodeMap :=
  if FontLibrary.isIdentity encoding then FontLibrary.unicodeMap name
  else FontLibrary.encodingMap encoding

/-- A font of a library under an encoding. -/
def create (font encoding : String) : Action FontLibrary CompositeFont := do
  let l ← Action.read
  let (name, style) := nameAndStyle font
  if ! l.supports name encoding then
    Action.fail (.unsupportedFont font encoding)
  else
    let codes ← codesOf name encoding
    let metrics ← FontLibrary.metricsOf name
    Action.tell [.createdFont font encoding]
    return { name, style, encoding, codes, metrics }

/-! ## Text -/

/-- Whether codes are character identifiers already. -/
def isDirect (f : CompositeFont) : Bool := FontLibrary.isIdentity f.encoding

/-- Whether text runs from top to bottom. -/
def isVertical (f : CompositeFont) : Bool := ['V'].isSuffixOf f.encoding.toList

/-- The character identifier of a code. -/
def cidOf (f : CompositeFont) (code : UInt16) : UInt16 :=
  if f.isDirect then code else f.codes.get code

/-- The Unicode code of a code. -/
def unicodeOf (f : CompositeFont) (code : UInt16) : UInt16 :=
  if f.isDirect then f.codes.get code else code

/-- The character identifiers of a text. -/
def cids (f : CompositeFont) (text : String) : List UInt16 :=
  (Text.units text).map f.cidOf

/-- The font with the characters of a text noted as used. -/
def use (f : CompositeFont) (text : String) : CompositeFont :=
  { f with used := (f.cids text).foldl (·.insert ·) f.used }

/-- The bytes that show a text. -/
def shown (text : String) : Bytes := Text.unitBytes (Text.units text)

/-- The advances in the direction of writing. -/
def advances (f : CompositeFont) : Advances :=
  if f.isVertical then f.metrics.verticalWidths else f.metrics.widths

/-- The advance of a character; one without a positive metric gets the standard
    one. -/
def advanceOf (f : CompositeFont) (cid : UInt16) : Int32 :=
  if 0 < f.advances.get cid then f.advances.get cid else Advances.standard

/-- The advance of a text. -/
def width (f : CompositeFont) (text : String) : Except Error Int32 :=
  Advances.fit
    ((f.cids text).foldl (fun total cid => total + (f.advanceOf cid).toInt) 0)

/-! ## Objects -/

/-- The name of the font with its style. -/
def baseName (f : CompositeFont) : String := f.name ++ f.style

/-- The name of the composite font: name, style and encoding, joined by
    hyphens. -/
def compositeName (f : CompositeFont) : String :=
  let style :=
    if f.style.isEmpty then [] else [String.ofList (f.style.toList.drop 1)]
  String.intercalate "-" (f.name :: style ++ [f.encoding])

/-- An entry with a number of the metrics. -/
def metric (value : Int32) : Object := .integer value.toInt

/-- The font descriptor. -/
def descriptorDict (f : CompositeFont) : Dict :=
  let m := f.metrics
  (Dict.ofType (.key "FontDescriptor")).insertMany
    [(.key "Ascent", metric m.ascent),
     (.key "CapHeight", metric m.capHeight),
     (.key "Descent", metric m.descent),
     (.key "Flags", metric m.flags),
     (.key "FontBBox", .array (m.bbox.toList.map metric)),
     (.key "FontName", .name (.ofString f.baseName)),
     (.key "ItalicAngle", metric m.italicAngle),
     (.key "StemV", metric m.stemV),
     (.key "Style",
       .dictionary (.ofList [(.key "Panose", .utf8Text m.panose)]))]

/-- The character collection of the font. -/
def collectionDict (f : CompositeFont) : Dict :=
  .ofList
    [(.key "Registry", .utf8Text f.metrics.registry),
     (.key "Ordering", .utf8Text f.metrics.ordering),
     (.key "Supplement", metric f.metrics.supplement)]

/-- The `/W` array of the characters used. -/
def horizontalArray (f : CompositeFont) : Option Bytes :=
  f.metrics.widths.horizontalArray f.used

/-- The `/W2` array of the characters used, for vertical writing. -/
def verticalArray (f : CompositeFont) : Except Error (Option Bytes) :=
  if f.isVertical then
    f.metrics.verticalWidths.verticalArray f.metrics.widths f.used
  else .ok none

/-- The descendant font with a descriptor. -/
def descendantDict (f : CompositeFont) (descriptor : Ref) :
    Except Error Dict := do
  let vertical ← f.verticalArray
  return ((Dict.ofType (.key "Font")).insertMany
      [(.key "Subtype", .name (.key "CIDFontType0")),
       (.key "BaseFont", .name (.ofString f.baseName)),
       (.key "FontDescriptor", .reference descriptor)]
    |>.insertIfSome (.key "W") (f.horizontalArray.map .verbatim)
    |>.insertIfSome (.key "W2") (vertical.map .verbatim)
    |>.insert (.key "CIDSystemInfo") (.dictionary f.collectionDict))

/-- The composite font over a descendant font. -/
def compositeDict (f : CompositeFont) (descendant : Ref) : Dict :=
  (Dict.ofType (.key "Font")).insertMany
    [(.key "Subtype", .name (.key "Type0")),
     (.key "BaseFont", .name (.ofString f.compositeName)),
     (.key "Encoding", .name (.ofString f.encoding)),
     (.key "DescendantFonts", .array [.reference descendant])]

/-- Stores the three objects of the font, the composite one under a given
    reference. -/
def store (f : CompositeFont) (composite : Ref) : Action Body Unit := do
  let descriptor ← Body.add (.value (.dictionary f.descriptorDict))
  let descendantDict ← Action.ofExcept (f.descendantDict descriptor)
  let descendant ← Body.add (.value (.dictionary descendantDict))
  Body.fill composite (.value (.dictionary (f.compositeDict descendant)))
  Action.tell [.serializedFont f.baseName f.used.size]

end CompositeFont

end Pdf
