import Mathlib.Data.List.Basic
import Mathlib.Order.Nat

/-!
# Binary search for an insertion point

* `lowerBound before lo hi`: the loop that halves the range `lo, …, hi` at `(hi + lo) / 2`.
* **`lowerBound_spec`**: if `before` is true up to some index and false from it on, the loop finds
  that index.
* `pairwise_insertIdx`: inserting there keeps a list sorted.
-/

namespace Search

/-- The search loop, with `fuel` at least the length of the range. -/
def lowerBoundAux (before : ℕ → Bool) : ℕ → ℕ → ℕ → ℕ
  | 0, lo, _ => lo
  | fuel + 1, lo, hi =>
    if lo < hi then
      let mid := (hi + lo) / 2
      if before mid then lowerBoundAux before fuel (mid + 1) hi
      else lowerBoundAux before fuel lo mid
    else lo

/-- The first index of `lo, …, hi` that is not `before`. -/
def lowerBound (before : ℕ → Bool) (lo hi : ℕ) : ℕ := lowerBoundAux before (hi - lo) lo hi

theorem lowerBoundAux_spec {before : ℕ → Bool} {n : ℕ}
    (hmono : ∀ i j, i ≤ j → j < n → before j = true → before i = true) :
    ∀ fuel lo hi, hi - lo ≤ fuel → lo ≤ hi → hi ≤ n → (∀ i < lo, before i = true) →
      (∀ i, hi ≤ i → i < n → before i = false) →
      lowerBoundAux before fuel lo hi ≤ n ∧
        (∀ i < lowerBoundAux before fuel lo hi, before i = true) ∧
        ∀ i, lowerBoundAux before fuel lo hi ≤ i → i < n → before i = false := by
  intro fuel
  induction fuel with
  | zero =>
    intro lo hi hf hle hn hlo hhi
    have : lo = hi := by omega
    subst this
    exact ⟨hn, hlo, hhi⟩
  | succ fuel ih =>
    intro lo hi hf hle hn hlo hhi
    dsimp only [lowerBoundAux]
    have hmid : lo < hi → lo ≤ (hi + lo) / 2 ∧ (hi + lo) / 2 < hi := by omega
    split_ifs with h hm
    · obtain ⟨h1, h2⟩ := hmid h
      refine ih _ hi (by omega) (by omega) hn (fun i hi' => ?_) hhi
      exact hmono i _ (Nat.lt_succ_iff.mp hi') (by omega) hm
    · obtain ⟨h1, h2⟩ := hmid h
      refine ih lo _ (by omega) h1 (by omega) hlo fun i hi1 hi2 => ?_
      exact Bool.eq_false_iff.mpr fun hb => hm (hmono _ i hi1 hi2 hb)
    · have : lo = hi := by omega
      subst this
      exact ⟨hn, hlo, hhi⟩

/-- **The search finds the boundary** of a predicate that holds up to it and fails beyond. -/
theorem lowerBound_spec {before : ℕ → Bool} {n : ℕ}
    (hmono : ∀ i j, i ≤ j → j < n → before j = true → before i = true) :
    lowerBound before 0 n ≤ n ∧ (∀ i < lowerBound before 0 n, before i = true) ∧
      ∀ i, lowerBound before 0 n ≤ i → i < n → before i = false :=
  lowerBoundAux_spec hmono _ 0 n (Nat.le_refl _) (Nat.zero_le n) (Nat.le_refl _)
    (fun _ h => absurd h (Nat.not_lt_zero _)) fun _ h1 h2 => absurd h2 (Nat.not_lt.mpr h1)

/-- Insertion between the smaller and the larger elements keeps a list sorted. -/
theorem pairwise_insertIdx {α : Type*} {r : α → α → Prop} {l : List α} {k : ℕ} {a : α}
    (hl : l.Pairwise r) (h1 : ∀ b ∈ l.take k, r b a) (h2 : ∀ b ∈ l.drop k, r a b) :
    (l.take k ++ a :: l.drop k).Pairwise r := by
  rw [List.pairwise_append, List.pairwise_cons]
  rw [← List.take_append_drop k l, List.pairwise_append] at hl
  refine ⟨hl.1, ⟨h2, hl.2.1⟩, fun b hb c hc => ?_⟩
  rcases List.mem_cons.mp hc with rfl | hc
  · exact h1 b hb
  · exact hl.2.2 b hb c hc

end Search
