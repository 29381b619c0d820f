import Mathlib.Data.List.AList
import Mathlib.Data.Finset.Basic

/-!
# Registration metadata

The attributes that a client registers, in the encoding in which a server keeps them, and the words
by which they are found.

* `Xdr.readInt`, `Xdr.readBytes`: the items of the encoding.
* `RegInfo.decode`: the attributes, as far as they can be read.
* `Platform`: what the library supplies for text and for sets.
* `RegInfo.keywords`: the words of the searchable attributes.
-/

namespace Sst.Reg

/-- An opaque field. -/
abbrev Bytes := List UInt8

/-- A character string. -/
abbrev Text := List Char

/-! ## Decoding -/

namespace Xdr

/-- A big-endian 32-bit word. -/
def word (a b c d : UInt8) : BitVec 32 := a.toBitVec ++ b.toBitVec ++ c.toBitVec ++ d.toBitVec

/-- Read a 32-bit word; `none` past the end. -/
def readWord : Bytes → Option (BitVec 32 × Bytes)
  | a :: b :: c :: d :: l => some (word a b c d, l)
  | _ => none

/-- Read a signed integer. -/
def readInt (l : Bytes) : Option (ℤ × Bytes) := (readWord l).map fun (w, l) => (w.toInt, l)

/-- Read a counted string, which is padded to a multiple of four bytes. -/
def readBytes (l : Bytes) : Option (Bytes × Bytes) :=
  (readInt l).bind fun (len, l) =>
    if len < 0 then none
    else
      let padded := (len.toNat + 3) / 4 * 4
      if l.length < padded then none else some (l.take len.toNat, l.drop padded)

end Xdr

/-- The attributes by their tags. -/
abbrev RegInfo := AList fun _ : BitVec 32 => Bytes

/-- `SearchFlag`: the attribute is text for searches. -/
def searchFlag : BitVec 32 := 0x00010000#32

/-- What the library supplies: the characters of an UTF-8 string, the characters that are part of
words, and an order in which a set is enumerated. -/
structure Platform where
  fromUtf8 : Bytes → Text
  isWord : Char → Bool
  toList : Finset ℕ → List ℕ
  mem_toList : ∀ s p, p ∈ toList s ↔ p ∈ s
  nodup_toList : ∀ s, (toList s).Nodup

/-- Split a text at the characters that are not part of words. -/
def Platform.split (pf : Platform) (t : Text) : List Text :=
  (t.splitOnP fun c => !pf.isWord c).filter (· ≠ [])

namespace RegInfo

/-- Read `n` attributes, or as many as there are. -/
def readAttrs : ℕ → Bytes → RegInfo → RegInfo
  | 0, _, at' => at'
  | n + 1, l, at' =>
    match Xdr.readWord l with
    | none => at'
    | some (tag, l) =>
      match Xdr.readBytes l with
      | none => at'
      | some (attr, l) => readAttrs n l (at'.insert tag attr)

def decode (data : Bytes) : RegInfo :=
  match Xdr.readInt data with
  | none => ∅
  | some (nattrs, l) => if nattrs < 0 then ∅ else readAttrs nattrs.toNat l ∅

/-- The words of the searchable attributes; a word may occur more than once. -/
def keywords (pf : Platform) (info : RegInfo) : List Text :=
  info.entries.flatMap fun ⟨tag, value⟩ =>
    if tag &&& searchFlag ≠ 0#32 then pf.split (pf.fromUtf8 value) else []

end RegInfo

end Sst.Reg
