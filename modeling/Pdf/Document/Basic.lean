import Pdf.Document.Info
import Pdf.File.Layout
import Pdf.Filter.Zlib
import Pdf.Font.Composite

/-! # Documents — everything that goes into one file

    A document joins a body, the fonts added to it, its information and its
    encryption.  A font reserves its number when it is added; its objects are
    stored when the document is written, followed by the document information
    and the encryption dictionary.  Then the body is written. -/

namespace Pdf

/-- How a document is encrypted. -/
structure Encryption where
  cipher : Cipher
  /-- The encryption dictionary. -/
  dictionary : Dict
  /-- The file identifier that the keys were derived from. -/
  fileId : Option Bytes := none

/-- Everything that goes into one file. -/
structure Document where
  body : Body := {}
  settings : Settings := {}
  /-- What compresses data.  The default stands for any program whose data a
      zlib reader restores; it does not make data shorter, as such a program
      does. -/
  compressor : Compressor := fun data => .ok (Zlib.store data)
  library : FontLibrary := .empty
  /-- The fonts by the references of their composite fonts. -/
  fonts : Std.ExtTreeMap Ref CompositeFont := .empty
  info : Option Info := none
  encryption : Option Encryption := none

namespace Document

/-- An action on the body of a document. -/
def onBody {α : Type} (a : Action Body α) : Action Document α :=
  a.within (·.body) (fun d body => { d with body })

/-- An action on the font library of a document. -/
def onLibrary {α : Type} (a : Action FontLibrary α) : Action Document α :=
  a.within (·.library) (fun d library => { d with library })

/-- Adds a font and gives the reference under which its composite font will be
    written. -/
def addFont (font encoding : String) : Action Document Ref := do
  let f ← onLibrary (CompositeFont.create font encoding)
  let r ← onBody Body.reserve
  Action.change fun d => { d with fonts := d.fonts.insert r f }
  return r

/-- The font that was added under a reference. -/
def font? (d : Document) (r : Ref) : Option CompositeFont := d.fonts[r]?

/-- The document with the characters of a text noted as used by a font. -/
def useText (d : Document) (r : Ref) (text : String) : Document :=
  { d with fonts := d.fonts.modify r (·.use text) }

/-! ## Writing -/

/-- Stores the objects of the fonts, in ascending order of their references. -/
def storeFonts (d : Document) : Action Body Unit :=
  d.fonts.toList.forM fun (r, f) => f.store r

/-- Stores the document information, if there is any. -/
def storeInfo (d : Document) : Action Body (Option Ref) :=
  match d.info with
  | some i => i.store
  | none => return none

/-- Stores the encryption dictionary, if there is one. -/
def storeEncryption (d : Document) : Action Body (Option Ref) :=
  match d.encryption with
  | some e => do
      let r ← Body.add (.value (.dictionary e.dictionary))
      return some r
  | none => return none

/-- The identifier that the encryption brings along. -/
def suppliedId (d : Document) : Option (Bytes × Bytes) :=
  (d.encryption.bind (·.fileId)).map fun id => (id, id)

/-- Stores everything that is still missing and gives the trailer. -/
def complete (d : Document) (root : Ref) : Action Body Trailer := do
  d.storeFonts
  let info ← d.storeInfo
  let encrypt ← d.storeEncryption
  return { root, info, encrypt, id := d.suppliedId }

/-- The request for the file of a document with a trailer. -/
def request (d : Document) (trailer : Trailer) : Request :=
  { trailer, settings := d.settings, compressor := d.compressor,
    cipher := d.encryption.map (·.cipher) }

/-- Writes a document with a catalog. -/
def write (d : Document) (root : Ref) : Action Writer Unit := do
  let (trailer, body) ← Action.onOwn d.body (d.complete root)
  body.write (d.request trailer)
  Writer.flush

end Document

end Pdf
