import Pdf.Body.Content
import Pdf.Proofs.Filter.Chain

/-! # Leaves of contents — what encoding and sealing do to them

    Between an item and what is written for it stand the filters of a stream
    and the cipher.  Filters add names and a number to the dictionary of a
    stream and may drop what stood under these names before; a cipher replaces
    strings.  So a test that names and numbers pass, and that does not look
    into strings, is passed by a content if its item passes it. -/

namespace Pdf

variable {q : Object → Bool}

/-- An item as one object, without the data of a stream. -/
def Item.object : Item → Object
  | value o => o
  | stream s => .dictionary s.dict

/-- The references of an item are those of the object that stands for it. -/
theorem Item.refs_eq (item : Item) : item.refs = item.object.refs := by
  cases item with
  | value o => rfl
  | stream s => rfl

/-- A test of the leaves that coding passes is passed by what is encoded. -/
theorem Item.every_encode (hq : Object.PassesCoding q) {settings : Settings}
    {compressor : Compressor} {r : Ref} {item : Item} {c : Content}
    (h : item.encode settings compressor r = .ok c)
    (hitem : item.object.every q = true) : c.object.every q = true := by
  cases item with
  | value o =>
      rw [← Except.ok.inj h]
      exact hitem
  | stream s =>
      rw [encode] at h
      cases he : s.encode settings compressor with
      | error e =>
          rw [he] at h
          exact nomatch h
      | ok e =>
          rw [he] at h
          obtain ⟨f, rfl⟩ := Stream.exists_behind_of_encode he
          rw [← Except.ok.inj h]
          exact f.every_behind hq hitem

/-- Sealing strings keeps a test of the leaves that does not look into
    strings. -/
theorem Content.every_sealed (hq : Object.PassesCoding q)
    {f : Bytes → Bytes}
    (hf : ∀ form bytes, q (.string form (f bytes)) = q (.string form bytes))
    {c : Content} (h : c.object.every q = true) :
    (c.sealed f).object.every q = true := by
  cases c with
  | value o => exact (Object.every_mapStrings hf o).trans h
  | stream s =>
      have hdict : Dict.every q (s.dict.mapStrings f) = true :=
        (Object.every_mapStrings hf (.dictionary s.dict)).trans h
      exact Dict.every_insert _ hdict (hq.integer _)

end Pdf
