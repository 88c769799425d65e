import Pdf.Body.Basic
import Pdf.Body.Content
import Pdf.Xref.Section

/-! # The layout of a file — where everything goes before anything is written

    A file is the preamble, the objects in ascending order and the
    cross-reference section.  The plan is made from the body, the request, and
    the position and digest of the writer.  All references are checked and all
    objects are encoded before the first piece; only the section can still fail
    after the objects, and then the plan ends with that failure.

    The identifier of the file is the one of the trailer.  If there is none, an
    encrypted file takes a digest of its objects before encryption, and any
    other file a digest of what was written in front of the section, if the
    settings ask for it. -/

namespace Pdf

/-- How a body is to be written. -/
structure Request where
  trailer : Trailer
  settings : Settings := {}
  compressor : Compressor
  cipher : Option Cipher := none

/-- An object in written form, with the offset at which it starts. -/
structure PlacedObject where
  object : Ref
  offset : Nat
  bytes : Bytes

namespace PlacedObject

/-- Objects one behind the other, from an offset on. -/
def sequence (start : Nat) : List (Ref × Bytes) → List PlacedObject
  | [] => []
  | (object, bytes) :: rest =>
      ⟨object, start, bytes⟩ :: sequence (start + bytes.length) rest

/-- The object as a piece of a file. -/
def piece (p : PlacedObject) : Piece :=
  ⟨[.writingObject p.object p.offset], p.bytes⟩

/-- Placing objects changes none of their bytes. -/
theorem flatMap_bytes_sequence (start : Nat) (objects : List (Ref × Bytes)) :
    (sequence start objects).flatMap bytes = objects.flatMap Prod.snd := by
  induction objects generalizing start with
  | nil => rfl
  | cons object objects ih => simp [sequence, ih]

end PlacedObject

namespace Body

/-! ## Identifiers -/

/-- The digest of all objects but one, with their references. -/
def objectsDigest (b : Body) (except : Option Ref) : Digest :=
  SipHash.digest ((b.items.toList.filter (fun o => some o.1 ≠ except)).flatMap
    fun o => Canonical.ofRef o.1 ++ Canonical.block o.2.canonical)

/-- The identifier of an encrypted file: it depends on the objects as they are
    before encryption, and not on the encryption dictionary. -/
def derivedId (b : Body) (t : Trailer) : Bytes :=
  (SipHash.digest (Bytes.bigEndian 16 (b.objectsDigest t.encrypt).toNat ++
    Canonical.ofRef t.root ++ Canonical.ofRef? t.info)).identifier

/-- The trailer with the identifier that encryption needs, if it has none. -/
def encryptionTrailer (b : Body) (r : Request) : Trailer :=
  if r.cipher.isSome ∧ r.trailer.id = none then
    r.trailer.identified (b.derivedId r.trailer)
  else r.trailer

/-- The trailer that is written, given the digest of everything in front of the
    section. -/
def finalTrailer (t : Trailer) (settings : Settings) (content : Digest) :
    Trailer :=
  if t.id = none ∧ settings.addsId then t.identified content.identifier else t

/-! ## Objects -/

/-- The function that seals the strings and the data of an object, if it is to
    be sealed: the encryption dictionary stays in the clear. -/
def sealOf (cipher : Option Cipher) (t : Trailer) (r : Ref) :
    Option (Bytes → Bytes) :=
  match cipher, t.id with
  | some encrypt, some id =>
      if t.encrypt = some r then none else some (encrypt r id.1)
  | _, _ => none

/-- What is written for an object. -/
def encodeObject (request : Request) (t : Trailer) (r : Ref) (item : Item) :
    Except Error Content :=
  match item.encode request.settings request.compressor r,
    sealOf request.cipher t r with
  | .ok content, some hide => .ok (content.sealed hide)
  | .ok content, none => .ok content
  | .error e, _ => .error e

/-- What is written for some objects, up to the first one that cannot be
    encoded. -/
def encodeAll (request : Request) (t : Trailer) :
    List (Ref × Item) → List (Ref × Content) × Except Error Unit
  | [] => ([], .ok ())
  | (r, item) :: rest =>
      match encodeObject request t r item with
      | .error e => ([], .error e)
      | .ok content =>
          let encoded := encodeAll request t rest
          ((r, content) :: encoded.1, encoded.2)

/-- Encoded objects behind the preamble of a file that starts at an offset. -/
def place (settings : Settings) (contents : List (Ref × Content))
    (offset : Nat) : List PlacedObject :=
  PlacedObject.sequence (offset + settings.preamble.length)
    (contents.map fun c => (c.1, c.2.numbered c.1))

/-- Everything in front of the cross-reference section. -/
def front (settings : Settings) (placed : List PlacedObject) : Bytes :=
  settings.preamble ++ placed.flatMap PlacedObject.bytes

/-! ## Sections -/

/-- The places of the objects of a file. -/
def placesOf (size : Nat) (placed : List PlacedObject) : Xref.Places :=
  placed.foldl (fun places p => places.record p.object p.offset) (.ofSize size)

/-- The number of entries before a cross-reference stream notes its own
    place. -/
def xrefSize (b : Body) (settings : Settings) : Nat :=
  if settings.xrefAsStream then b.issued + 2 else b.issued + 1

/-- The cross-reference section behind some objects, with its trailer. -/
def xrefSection (b : Body) (request : Request) (t : Trailer)
    (placed : List PlacedObject) (start : Nat) : Except Error Bytes :=
  let places := placesOf (b.xrefSize request.settings) placed
  if request.settings.xrefAsStream then
    Xref.stream request.settings request.compressor places b.nextRef t start
  else Xref.table places.entries t start

/-! ## Files -/

/-- The error for which a body cannot be written at all. -/
def obstacle (b : Body) (request : Request) : Option Error :=
  match b.danglingError request.trailer.refs with
  | some e => some e
  | none =>
      if request.settings.xrefAsStream ∧ highestNumber ≤ b.issued then
        some .numbersExhausted
      else none

/-- What is told before the preamble is written. -/
def announcements (b : Body) (settings : Settings) (objects : Nat) :
    List Event :=
  .flushing objects b.issued ::
    (if settings.raisesVersion then [.raisedVersion settings.version] else [])

/-- The plan of a file whose objects are encoded. -/
def layout (b : Body) (request : Request) (t : Trailer)
    (contents : List (Ref × Content)) (offset : Nat) (hash : SipHash) : Plan :=
  let placed := place request.settings contents offset
  let written := front request.settings placed
  let final := finalTrailer t request.settings (hash.update written).finish
  let events := contents.flatMap (·.2.warnings) ++
    b.announcements request.settings contents.length
  let pieces :=
    { bytes := request.settings.preamble } :: placed.map PlacedObject.piece
  match b.xrefSection request final placed (offset + written.length) with
  | .ok bytes => { events, pieces := pieces ++ [{ bytes }] }
  | .error e => { events, pieces, ending := .error e }

/-- The plan of the file of a body, for a writer with some position and
    digest. -/
def plan (b : Body) (request : Request) (offset : Nat) (hash : SipHash) :
    Plan :=
  match b.obstacle request with
  | some e => .failing [] e
  | none =>
      let t := b.encryptionTrailer request
      match encodeAll request t b.items.toList with
      | (contents, .ok ()) => b.layout request t contents offset hash
      | (contents, .error e) => .failing (contents.flatMap (·.2.warnings)) e

/-- Writes a body as a file. -/
def write (b : Body) (request : Request) : Action Writer Unit := fun w =>
  Writer.perform (b.plan request w.offset w.hash) w

end Body

end Pdf
