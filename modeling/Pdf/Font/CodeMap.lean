import Pdf.Bytes
import Pdf.Action.Error

/-! # Code mappings — a 16-bit code for every 16-bit code

    A mapping is total: a source with fewer entries is filled up with zeros, and
    entries beyond the last code are dropped.  Zero means that a code leads
    nowhere, so an overlay replaces the entries of its base only where it is not
    zero. -/

namespace Pdf

/-- A code for every code. -/
structure CodeMap where
  table : Vector UInt16 65536
  deriving DecidableEq

namespace CodeMap

/-- The code that a code leads to. -/
def get (m : CodeMap) (code : UInt16) : UInt16 :=
  have : code.toNat < 65536 := code.toNat_lt
  m.table[code.toNat]

/-- The mapping with the entries of an array, and zero for every code beyond
    it. -/
def ofArray (entries : Array UInt16) : CodeMap :=
  ⟨Vector.ofFn fun i => entries.getD i 0⟩

/-- The mapping with another one laid over it. -/
def overlay (base top : CodeMap) : CodeMap :=
  ⟨Vector.zipWith (fun b t => if t = 0 then b else t) base.table top.table⟩

/-- The code of a line feed in a mapping from character identifiers to
    Unicode. -/
def lineFeedCode : UInt16 := 0xFF00

/-- The mapping with a line feed under its code. -/
def withLineFeed (m : CodeMap) : CodeMap :=
  ⟨m.table.set lineFeedCode.toNat 10 lineFeedCode.toNat_lt⟩

/-- The codes that lead somewhere, with the codes that they lead to. -/
def nonzero (m : CodeMap) : List (Nat × UInt16) :=
  (m.table.toList.zipIdx.filter (·.1 ≠ 0)).map fun (code, i) => (i, code)

/-- The mapping that big-endian 16-bit values spell; bytes behind the last one
    do not count. -/
def ofBytes (data : Bytes) : Except IoError CodeMap :=
  let bytes := data.toArray
  if bytes.size < 2 * 65536 then
    .error ⟨.unexpectedEof, "code mapping is truncated"⟩
  else
    .ok ⟨Vector.ofFn fun i =>
      ((bytes.getD (2 * i) 0).toNat * 256
        + (bytes.getD (2 * i + 1) 0).toNat).toUInt16⟩

/-! ## Look-up -/

theorem get_ofArray (entries : Array UInt16) (code : UInt16) :
    (ofArray entries).get code = entries.getD code.toNat 0 := by
  simp [get, ofArray]

/-- Where the upper mapping leads nowhere, the base shows through. -/
theorem get_overlay (base top : CodeMap) (code : UInt16) :
    (base.overlay top).get code
      = if top.get code = 0 then base.get code else top.get code := by
  rw [get, overlay, Vector.getElem_zipWith]
  rfl

theorem get_withLineFeed (m : CodeMap) (code : UInt16) :
    m.withLineFeed.get code
      = if code = lineFeedCode then 10 else m.get code := by
  simp only [get, withLineFeed, Vector.getElem_set, UInt16.toNat_inj, eq_comm]

end CodeMap

end Pdf
