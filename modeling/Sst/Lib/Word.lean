import Mathlib.Data.Int.Basic
import Mathlib.Tactic.Ring
import Mathlib.Tactic.Linarith
import Mathlib.Tactic.Positivity

/-!
# Two's complement words and truncated sequence numbers

* `wrap`: the signed value of the low `w` bits of an integer, the result of an assignment to a
  signed variable of `w` bits.
* `sdiff w s`: the difference of two `w`-bit words of which only the low `w - s` bits are
  significant, computed by shifting both left by `s` and the difference back with the sign.
* **`sdiff_eq`**: that difference is the signed value of the difference of the low `w - s` bits.
* **`sdiff_ofNat`**: it recovers the distance of two numbers less than half the range apart.
-/

namespace Word

/-! ## Signed variables -/

/-- The value of `x` after assignment to a signed variable of `w` bits. -/
def wrap (w : ℕ) (x : ℤ) : ℤ := Int.bmod x (2 ^ w)

theorem bmod_eq_of_half {w : ℕ} (hw : 0 < w) {x : ℤ} (h1 : -2 ^ (w - 1) ≤ x)
    (h2 : x < 2 ^ (w - 1)) : Int.bmod x (2 ^ w) = x := by
  obtain ⟨v, rfl⟩ : ∃ v, w = v + 1 := ⟨w - 1, by omega⟩
  have hp : ((2 ^ (v + 1) : ℕ) : ℤ) = 2 * 2 ^ v := by push_cast; ring
  rw [Nat.add_sub_cancel] at h1 h2
  apply Int.bmod_eq_of_le <;> rw [hp] <;> omega

theorem wrap_eq_self {w : ℕ} (hw : 0 < w) {x : ℤ} (h1 : -2 ^ (w - 1) ≤ x)
    (h2 : x < 2 ^ (w - 1)) : wrap w x = x :=
  bmod_eq_of_half hw h1 h2

@[simp] theorem wrap_zero (w : ℕ) : wrap w 0 = 0 := by simp [wrap]

@[simp] theorem wrap_add_wrap_left (w : ℕ) (x y : ℤ) : wrap w (wrap w x + y) = wrap w (x + y) :=
  Int.bmod_add_bmod

@[simp] theorem wrap_add_wrap_right (w : ℕ) (x y : ℤ) : wrap w (x + wrap w y) = wrap w (x + y) :=
  Int.add_bmod_bmod

@[simp] theorem wrap_sub_wrap_left (w : ℕ) (x y : ℤ) : wrap w (wrap w x - y) = wrap w (x - y) :=
  Int.bmod_sub_bmod

@[simp] theorem wrap_sub_wrap_right (w : ℕ) (x y : ℤ) : wrap w (x - wrap w y) = wrap w (x - y) :=
  Int.sub_bmod_bmod

@[simp] theorem wrap_wrap (w : ℕ) (x : ℤ) : wrap w (wrap w x) = wrap w x := Int.bmod_bmod ..

theorem wrap_sub_wrap_eq {w : ℕ} (hw : 0 < w) {x y : ℤ} (h1 : -2 ^ (w - 1) ≤ x - y)
    (h2 : x - y < 2 ^ (w - 1)) : wrap w (wrap w x - wrap w y) = x - y := by
  rw [wrap_sub_wrap_left, wrap_sub_wrap_right, wrap_eq_self hw h1 h2]

theorem wrap_eq_zero_iff {w : ℕ} {x : ℤ} : wrap w x = 0 ↔ ((2 ^ w : ℕ) : ℤ) ∣ x :=
  Int.dvd_iff_bmod_eq_zero.symm

/-- A natural number with a positive signed value is small, or beyond the range. -/
theorem wrap_pos {v k : ℕ} (h : 0 < wrap (v + 1) k) : k < 2 ^ v ∨ 2 ^ (v + 1) < k := by
  by_contra hk
  push Not at hk
  have hp : (2 : ℤ) ^ (v + 1) = 2 * 2 ^ v := by ring
  have hw : wrap (v + 1) ((k : ℤ) - 2 ^ (v + 1)) = wrap (v + 1) k := by
    have h0 : wrap (v + 1) (2 ^ (v + 1)) = 0 := wrap_eq_zero_iff.mpr (by push_cast; rfl)
    rw [← wrap_sub_wrap_right, h0, sub_zero]
  have hk' : (2 : ℤ) ^ v ≤ k ∧ (k : ℤ) ≤ 2 ^ (v + 1) := by exact_mod_cast hk
  have hs : wrap (v + 1) ((k : ℤ) - 2 ^ (v + 1)) = k - 2 ^ (v + 1) := by
    have h0 : (0 : ℤ) < 2 ^ v := by positivity
    refine wrap_eq_self (by omega) ?_ ?_ <;> rw [Nat.add_sub_cancel] <;> linarith
  linarith

theorem wrap_lt {w : ℕ} (hw : 0 < w) (x : ℤ) : wrap w x < 2 ^ (w - 1) := by
  obtain ⟨v, rfl⟩ : ∃ v, w = v + 1 := ⟨w - 1, by omega⟩
  have h := Int.bmod_lt (x := x) (m := 2 ^ (v + 1)) (by positivity)
  rw [wrap, Nat.add_sub_cancel]
  have hp : ((2 ^ (v + 1) : ℕ) : ℤ) = 2 * 2 ^ v := by push_cast; ring
  rw [hp] at h
  omega

theorem le_wrap {w : ℕ} (hw : 0 < w) (x : ℤ) : -2 ^ (w - 1) ≤ wrap w x := by
  obtain ⟨v, rfl⟩ : ∃ v, w = v + 1 := ⟨w - 1, by omega⟩
  have h := Int.le_bmod (x := x) (m := 2 ^ (v + 1)) (by positivity)
  rw [wrap, Nat.add_sub_cancel]
  have hp : ((2 ^ (v + 1) : ℕ) : ℤ) = 2 * 2 ^ v := by push_cast; ring
  rw [hp] at h
  omega

theorem ofInt_wrap {v w : ℕ} (hv : v ≤ w) (x : ℤ) :
    BitVec.ofInt v (wrap w x) = BitVec.ofInt v x := by
  have hd : ((2 ^ v : ℕ) : ℤ) ∣ ((2 ^ w : ℕ) : ℤ) := by exact_mod_cast pow_dvd_pow 2 hv
  have hm : wrap w x % (2 ^ v : ℕ) = x % (2 ^ v : ℕ) := by
    rw [← Int.emod_emod_of_dvd _ hd, wrap, Int.bmod_emod, Int.emod_emod_of_dvd _ hd]
  apply BitVec.eq_of_toNat_eq
  rw [BitVec.toNat_ofInt, BitVec.toNat_ofInt, hm]

/-- **An unsigned difference** is exact exactly if the subtrahend was converted without loss and is
not the greater. -/
theorem toNat_sub_ofInt_iff {w : ℕ} (a : BitVec w) {x y : ℤ} (hx : 0 ≤ x) (hxw : x < (2 ^ w : ℕ))
    (hy : 0 ≤ y) : ((a - BitVec.ofInt w x).toNat : ℤ) = a.toNat - y ↔ x = y ∧ y ≤ a.toNat := by
  obtain ⟨n, rfl⟩ := Int.eq_ofNat_of_zero_le hx
  have hn : n < 2 ^ w := Int.ofNat_lt.mp hxw
  have ha := a.isLt
  have hsub : (a - BitVec.ofInt w n).toNat =
      if n ≤ a.toNat then a.toNat - n else 2 ^ w - n + a.toNat := by
    rw [BitVec.ofInt_natCast, BitVec.toNat_sub, BitVec.toNat_ofNat, Nat.mod_eq_of_lt hn]
    split_ifs with hle
    · rw [show 2 ^ w - n + a.toNat = a.toNat - n + 2 ^ w by omega, Nat.add_mod_right,
        Nat.mod_eq_of_lt (by omega)]
    · exact Nat.mod_eq_of_lt (by omega)
  rw [hsub]
  split_ifs <;> omega

attribute [irreducible] wrap

/-! ## Truncated sequence numbers -/

/-- The difference of `a` and `b` on their low `w - s` bits, sign extended. -/
def sdiff {w : ℕ} (s : ℕ) (a b : BitVec w) : ℤ := ((a <<< s - b <<< s).sshiftRight s).toInt

theorem bmod_mul (v s : ℕ) (x : ℤ) :
    Int.bmod (x * 2 ^ s) (2 ^ (v + s)) = Int.bmod x (2 ^ v) * 2 ^ s := by
  have hpos : (0 : ℤ) < 2 ^ s := by positivity
  have hx : x * 2 ^ s =
      Int.bmod x (2 ^ v) * 2 ^ s + ((2 ^ (v + s) : ℕ) : ℤ) * Int.bdiv x (2 ^ v) := by
    have h := Int.bmod_eq_self_sub_mul_bdiv x (2 ^ v)
    rw [h]; push_cast; ring
  rw [hx, Int.add_mul_bmod_self_left]
  rcases Nat.eq_zero_or_pos v with rfl | hv
  · simp
  have h1 := Int.le_bmod (x := x) (m := 2 ^ v) (by positivity)
  have h2 := Int.bmod_lt (x := x) (m := 2 ^ v) (by positivity)
  obtain ⟨u, rfl⟩ : ∃ u, v = u + 1 := ⟨v - 1, by omega⟩
  have e1 : ((2 ^ (u + 1) : ℕ) : ℤ) = 2 * 2 ^ u := by push_cast; ring
  rw [e1] at h1 h2
  refine bmod_eq_of_half (by omega) ?_ ?_ <;>
    rw [show u + 1 + s - 1 = u + s by omega, pow_add (2 : ℤ) u s]
  · rw [← neg_mul]; exact mul_le_mul_of_nonneg_right (by omega) hpos.le
  · exact mul_lt_mul_of_pos_right (by omega) hpos

/-- **The shifted difference is the signed difference of the low bits.** -/
theorem sdiff_eq {w s : ℕ} (hs : s ≤ w) (a b : BitVec w) :
    sdiff s a b = Int.bmod ((a.toNat : ℤ) - b.toNat) (2 ^ (w - s)) := by
  have shl : ∀ c : BitVec w, (c <<< s).toInt = Int.bmod ((c.toNat : ℤ) * 2 ^ s) (2 ^ w) := by
    intro c
    rw [BitVec.toInt_shiftLeft, Int.natCast_shiftLeft, Int.shiftLeft_eq]
  obtain ⟨v, rfl⟩ : ∃ v, w = v + s := ⟨w - s, by omega⟩
  rw [sdiff, BitVec.toInt_sshiftRight, BitVec.toInt_sub, shl, shl, Int.bmod_sub_bmod,
    Int.sub_bmod_bmod, ← sub_mul, bmod_mul, Int.shiftRight_eq_div_pow, Nat.add_sub_cancel]
  push_cast
  exact Int.mul_ediv_cancel _ (by positivity)

/-- **Truncated words recover the distance of nearby numbers.** -/
theorem sdiff_ofNat {w s : ℕ} (hs : s < w) {m n : ℕ} {a : BitVec w}
    (ha : a.toNat % 2 ^ (w - s) = m % 2 ^ (w - s)) (h1 : -2 ^ (w - s - 1) ≤ (m : ℤ) - n)
    (h2 : (m : ℤ) - n < 2 ^ (w - s - 1)) : sdiff s a (BitVec.ofNat w n) = m - n := by
  rw [sdiff_eq hs.le, BitVec.toNat_ofNat]
  have key : Int.bmod ((a.toNat : ℤ) - (n % 2 ^ w : ℕ)) (2 ^ (w - s)) =
      Int.bmod ((m : ℤ) - n) (2 ^ (w - s)) := by
    have hn : (n % 2 ^ w) % 2 ^ (w - s) = n % 2 ^ (w - s) :=
      Nat.mod_mod_of_dvd _ (pow_dvd_pow 2 (by omega))
    rw [← Int.bmod_sub_bmod, ← Int.sub_bmod_bmod, ← Int.emod_bmod (a.toNat : ℤ),
      ← Int.emod_bmod ((n % 2 ^ w : ℕ) : ℤ), ← Int.natCast_emod, ← Int.natCast_emod, ha, hn,
      Int.natCast_emod, Int.natCast_emod, Int.emod_bmod, Int.emod_bmod, Int.bmod_sub_bmod,
      Int.sub_bmod_bmod]
  rw [key, bmod_eq_of_half (by omega) h1 h2]

theorem sdiff_lt {w s : ℕ} (hs : s < w) (a b : BitVec w) : sdiff s a b < 2 ^ (w - s - 1) := by
  rw [sdiff_eq hs.le]
  have h := Int.bmod_lt (x := (a.toNat : ℤ) - b.toNat) (m := 2 ^ (w - s)) (by positivity)
  obtain ⟨v, hv⟩ : ∃ v, w - s = v + 1 := ⟨w - s - 1, by omega⟩
  rw [hv] at h ⊢
  have e1 : ((2 ^ (v + 1) : ℕ) : ℤ) = 2 * 2 ^ v := by push_cast; ring
  rw [e1] at h
  rw [Nat.add_sub_cancel]
  omega

theorem le_sdiff {w s : ℕ} (hs : s < w) (a b : BitVec w) : -2 ^ (w - s - 1) ≤ sdiff s a b := by
  rw [sdiff_eq hs.le]
  have h := Int.le_bmod (x := (a.toNat : ℤ) - b.toNat) (m := 2 ^ (w - s)) (by positivity)
  obtain ⟨v, hv⟩ : ∃ v, w - s = v + 1 := ⟨w - s - 1, by omega⟩
  rw [hv] at h ⊢
  have e1 : ((2 ^ (v + 1) : ℕ) : ℤ) = 2 * 2 ^ v := by push_cast; ring
  rw [e1] at h
  rw [Nat.add_sub_cancel]
  omega

end Word
