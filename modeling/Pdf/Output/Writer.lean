import Pdf.Action.Basic
import Pdf.Digest.Base64
import Pdf.Output.Sink

/-! # Writers — a sink with a position and a digest

    A writer counts the bytes that were written completely and keeps their
    digest; the cross-reference section needs the one, the file identifier the
    other.  A write that fails changes neither of them, whatever the sink has
    taken.

    A `Plan` is a file before it is written: its pieces in order, what is told
    about each of them, and how it ends.  `perform` writes a plan. -/

namespace Pdf

/-- A sink with a position and a digest. -/
structure Writer where
  sink : Sink := {}
  offset : Nat := 0
  hash : SipHash := .empty

namespace Writer

/-- The digest of everything written. -/
def digest (w : Writer) : Digest := w.hash.finish

/-- Writes a whole string. -/
def write (bytes : Bytes) : Action Writer Unit := fun w =>
  match w.sink.writeAll bytes with
  | (.ok (), sink) =>
      ⟨.ok (), ⟨sink, w.offset + bytes.length, w.hash.update bytes⟩, []⟩
  | (.error cause, sink) => ⟨.error (.io cause), { w with sink }, []⟩

/-- Asks the sink to pass everything on. -/
def flush : Action Writer Unit := fun w =>
  match w.sink.device.flushFailure with
  | none => ⟨.ok (), w, []⟩
  | some cause => ⟨.error (.io cause), w, []⟩

end Writer

/-- A part of a file that is written at once, with what is told before. -/
structure Piece where
  events : List Event := []
  bytes : Bytes

/-- A file before it is written. -/
structure Plan where
  /-- What is told before the first piece. -/
  events : List Event := []
  pieces : List Piece := []
  /-- How the file ends once its pieces are written. -/
  ending : Except Error Unit := .ok ()

namespace Plan

/-- The plan of a file that fails before its first byte. -/
def failing (events : List Event) (e : Error) : Plan :=
  { events, ending := .error e }

/-- The bytes of a plan. -/
def bytes (p : Plan) : Bytes := p.pieces.flatMap Piece.bytes

end Plan

namespace Writer

/-- Writes a piece of a file. -/
def writePiece (p : Piece) : Action Writer Unit := do
  Action.tell p.events
  write p.bytes

/-- Writes a planned file, up to the first failure. -/
def perform (p : Plan) : Action Writer Unit := do
  Action.tell p.events
  p.pieces.forM writePiece
  Action.ofExcept p.ending

end Writer

end Pdf
