import Pdf.Bytes
import Pdf.Action.Error

/-! # Sinks — where the bytes of a file go

    A sink is offered bytes and takes some of them, from the front; it may also
    take none or fail.  A string is written by offering what is left of it again
    and again.  What a sink has received is never taken back, so after a failure
    it holds the beginning of what was offered. -/

namespace Pdf

/-- The answer to an offer of bytes. -/
inductive Reply where
  /-- So many bytes were taken from the front of the offer. -/
  | took (count : Nat)
  /-- Nothing was taken. -/
  | refused (cause : IoError)
  deriving DecidableEq

/-- The way in which a sink answers.  A call that is interrupted is repeated
    with the same bytes, so a device is given by the answers of the calls that
    are not. -/
structure Device where
  /-- The answer to an offer of `offered` bytes, after so many calls and
      bytes. -/
  reply : (calls received offered : Nat) → Reply
  /-- The failure of a request to pass everything on, if there is one. -/
  flushFailure : Option IoError := none

namespace Device

/-- A device that takes everything. -/
def unlimited : Device where
  reply _ _ offered := .took offered

end Device

/-- A device together with what it has received. -/
structure Sink where
  device : Device := .unlimited
  calls : Nat := 0
  received : Array UInt8 := #[]

namespace Sink

/-- The bytes received, in order. -/
def content (s : Sink) : Bytes := s.received.toList

/-- The failure of a sink that takes nothing. -/
def stalled : IoError := ⟨.writeZero, "failed to write whole buffer"⟩

/-- Offers a string until it is taken, at most `turns` times. -/
def offer : (turns : Nat) → Bytes → Sink → Except IoError Unit × Sink
  | 0, _, s => (.ok (), s)
  | turns + 1, bytes, s =>
      if bytes.isEmpty then (.ok (), s)
      else
        match s.device.reply s.calls s.received.size bytes.length with
        | .refused cause => (.error cause, { s with calls := s.calls + 1 })
        | .took 0 => (.error stalled, { s with calls := s.calls + 1 })
        | .took (n + 1) =>
            offer turns (bytes.drop (n + 1))
              { s with
                calls := s.calls + 1
                received := s.received ++ bytes.take (n + 1) }

/-- Writes a whole string.  Each turn shortens what is left, so as many turns as
    there are bytes are enough. -/
def writeAll (bytes : Bytes) (s : Sink) : Except IoError Unit × Sink :=
  offer bytes.length bytes s

end Sink

end Pdf
