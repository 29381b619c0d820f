import Mathlib.Data.Set.Insert

/-!
# Windows of recent numbers kept as a bit mask

A mask of `w` bits beside a highest number `top` records which of the `w` most recent numbers
belong to a set: bit `k` stands for `top - k`.

* `Marks mask top S`: the mask shows exactly the members of `S`.
* `and_one_shiftLeft_ne_zero`, `and_eq_right_iff`: the tests of one bit and of many.
* `getLsbD_low`: the mask of the lowest bits.
* **`Marks.roll`**, `Marks.jump`: a new highest number enters the set.
* **`Marks.mark`**: a number inside the window enters the set.
-/

namespace Window

variable {w : ℕ}

/-- Bit `k` of the mask is set exactly when `top - k` belongs to `S`. -/
def Marks (mask : BitVec w) (top : ℕ) (S : Set ℕ) : Prop :=
  ∀ k < w, mask.getLsbD k = true ↔ k ≤ top ∧ top - k ∈ S

theorem getLsbD_one_shiftLeft {k : ℕ} (hk : k < w) (i : ℕ) :
    (1#w <<< k).getLsbD i = decide (i = k) := by
  rw [← BitVec.twoPow_eq, BitVec.getLsbD_twoPow]
  by_cases h : k = i
  · subst h; simp [hk]
  · simp [h, Ne.symm h]

theorem and_one_shiftLeft_ne_zero {mask : BitVec w} {k : ℕ} (hk : k < w) :
    mask &&& (1#w <<< k) ≠ 0#w ↔ mask.getLsbD k = true := by
  rw [← BitVec.twoPow_eq, BitVec.and_twoPow]
  split_ifs with h
  · refine iff_of_true (fun h0 => ?_) h
    have := congrArg (fun v : BitVec w => v.getLsbD k) h0
    simp [hk] at this
  · simp [h]

theorem shiftLeft_add_one {mask : BitVec w} {d : ℕ} (hd : 0 < d) :
    mask <<< d + 1#w = mask <<< d ||| 1#w := by
  apply BitVec.add_eq_or_of_and_eq_zero
  ext i hi
  simp only [BitVec.getElem_and, BitVec.getElem_shiftLeft, BitVec.getElem_one,
    BitVec.getElem_zero]
  by_cases h : i = 0
  · subst h; simp [hd]
  · simp [h]

theorem getLsbD_low {k : ℕ} (hk : k < w) (i : ℕ) :
    (1#w <<< k - 1#w).getLsbD i = decide (i < k) := by
  have h1 : 1 ≤ 2 ^ k := Nat.one_le_two_pow
  have h2 : 2 ^ k < 2 ^ w := Nat.pow_lt_pow_right Nat.one_lt_two hk
  have e : 1#w <<< k - 1#w = BitVec.ofNat w (2 ^ k - 1) := by
    rw [← BitVec.twoPow_eq, BitVec.sub_eq_iff_eq_add]
    apply BitVec.eq_of_toNat_eq
    rw [BitVec.toNat_add, BitVec.toNat_twoPow_of_lt hk, BitVec.toNat_ofNat, BitVec.toNat_ofNat,
      ← Nat.add_mod, Nat.sub_add_cancel h1, Nat.mod_eq_of_lt h2]
  rw [e, BitVec.getLsbD_ofNat, Nat.testBit_two_pow_sub_one]
  by_cases hi : i < k
  · simp [hi, hi.trans hk]
  · simp [hi]

/-- All the bits of `m` are set. -/
theorem and_eq_right_iff {mask m : BitVec w} :
    mask &&& m = m ↔ ∀ i, m.getLsbD i = true → mask.getLsbD i = true := by
  constructor
  · intro h i hi
    rw [← h, BitVec.getLsbD_and, Bool.and_eq_true] at hi
    exact hi.1
  · intro h
    apply BitVec.eq_of_getLsbD_eq
    intro i _
    rw [BitVec.getLsbD_and]
    cases hm : m.getLsbD i with
    | true => rw [h i hm, Bool.and_true]
    | false => rw [Bool.and_false]

namespace Marks

variable {mask : BitVec w} {top : ℕ} {S : Set ℕ}

/-- **The highest number moves forward inside the window.** -/
theorem roll (h : Marks mask top S) (hS : ∀ n ∈ S, n ≤ top) {d : ℕ} (hd : 0 < d) :
    Marks (mask <<< d + 1#w) (top + d) (insert (top + d) S) := by
  intro k hk
  rw [shiftLeft_add_one hd, BitVec.getLsbD_or, BitVec.getLsbD_shiftLeft, BitVec.getLsbD_one,
    Set.mem_insert_iff]
  rcases Nat.eq_zero_or_pos k with rfl | hk0
  · simp [show 0 < w by omega]
  by_cases hkd : k < d
  · have hn : top + d - k ∉ S := fun hm => by have := hS _ hm; omega
    have hne : top + d - k ≠ top + d := by omega
    simp [hk, hkd, hn, hne]
    omega
  · have e : top + d - k = top - (k - d) := by omega
    have hne : top - (k - d) ≠ top + d := by omega
    have := h (k - d) (by omega)
    simp [hk, hkd, e, hne, this]
    omega

/-- The highest number moves forward by the whole window or more. -/
theorem jump (hw : 0 < w) (hS : ∀ n ∈ S, n ≤ top) {d : ℕ} (hd : w ≤ d) :
    Marks (1#w) (top + d) (insert (top + d) S) := by
  intro k hk
  rw [BitVec.getLsbD_one, Set.mem_insert_iff]
  rcases Nat.eq_zero_or_pos k with rfl | hk0
  · simp [hw]
  · have hn : top + d - k ∉ S := fun hm => by have := hS _ hm; omega
    have hne : top + d - k ≠ top + d := by omega
    simp [hn, hne, hw]
    omega

/-- **A number inside the window is marked.** -/
theorem mark (h : Marks mask top S) {k : ℕ} (hk : k < w) (hkt : k ≤ top) :
    Marks (mask ||| 1#w <<< k) top (insert (top - k) S) := by
  intro i hi
  rw [BitVec.getLsbD_or, getLsbD_one_shiftLeft hk, Set.mem_insert_iff, Bool.or_eq_true, h i hi,
    decide_eq_true_eq]
  constructor
  · rintro (⟨h1, h2⟩ | rfl)
    · exact ⟨h1, Or.inr h2⟩
    · exact ⟨hkt, Or.inl rfl⟩
  · rintro ⟨h1, h2 | h2⟩
    · exact Or.inr (by omega)
    · exact Or.inl ⟨h1, h2⟩

end Marks

end Window
