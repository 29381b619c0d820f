import Mathlib.Data.List.Basic

/-!
# Sealed messages

A message is encrypted by a keystream, and a trailer computed from it is attached.

* `xorStream ks l`: the bytes `l` under the keystream `ks`; **`xorStream_xorStream`**: twice is
  nothing.
* **`sealed_iff`**: which byte strings end with the trailer of what comes before it.
-/

namespace Sealing

/-! ## Keystreams -/

/-- The bytes, each with the byte of the keystream at its index. -/
def xorStream (ks : ℕ → UInt8) (l : List UInt8) : List UInt8 := l.mapIdx fun i b => b ^^^ ks i

@[simp] theorem length_xorStream (ks : ℕ → UInt8) (l : List UInt8) :
    (xorStream ks l).length = l.length := List.length_mapIdx

/-- **The same keystream restores the bytes.** -/
theorem xorStream_xorStream (ks : ℕ → UInt8) (l : List UInt8) :
    xorStream ks (xorStream ks l) = l := by
  refine List.ext_getElem (by rw [length_xorStream, length_xorStream]) fun i h1 h2 => ?_
  simp only [xorStream, List.getElem_mapIdx]
  rw [UInt8.xor_assoc, UInt8.xor_self, UInt8.xor_zero]

/-! ## Trailers -/

variable {α : Type*}

theorem take_append_trailer {q t : List α} {n : ℕ} (ht : t.length = n) :
    (q ++ t).take ((q ++ t).length - n) = q ∧ (q ++ t).drop ((q ++ t).length - n) = t := by
  have hlen : (q ++ t).length - n = q.length := by
    rw [List.length_append, ht, Nat.add_sub_cancel]
  rw [hlen]
  exact ⟨List.take_left, List.drop_left⟩

/-- **A message ends with the trailer of its body** exactly if it is a body with its trailer. -/
theorem sealed_iff {tag : List α → List α} {n : ℕ} (htag : ∀ q, (tag q).length = n) {m q : List α} :
    n ≤ m.length ∧ m.take (m.length - n) = q ∧ m.drop (m.length - n) = tag q ↔ m = q ++ tag q := by
  constructor
  · rintro ⟨-, h1, h2⟩
    rw [← h2, ← h1, List.take_append_drop]
  · intro h
    obtain ⟨h1, h2⟩ := take_append_trailer (htag q)
    rw [← h] at h1 h2
    refine ⟨?_, h1, h2⟩
    rw [h, List.length_append, htag q]
    exact Nat.le_add_left _ _

end Sealing
