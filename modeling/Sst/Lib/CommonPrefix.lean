import Mathlib.Data.List.Basic
import Mathlib.Data.Nat.Notation
import Mathlib.Order.Basic
import Mathlib.Order.Lattice

/-!
# The length of a common prefix

* `commonPrefix l m`: on how many leading elements two lists agree.
* **`le_commonPrefix`**: what it is the greatest of.
* **`commonPrefix_trans`**: it is an ultrametric, so lists that agree for long are near.
* `lt_commonPrefix_of_bool`: two lists of bits that leave a third at one place agree there.
-/

namespace CommonPrefix

variable {α β : Type*} [DecidableEq α] {l m r : List α} {n : ℕ}

/-- The number of leading elements on which two lists agree. -/
def commonPrefix : List α → List α → ℕ
  | a :: l, b :: m => if a = b then commonPrefix l m + 1 else 0
  | _, _ => 0

@[simp] theorem commonPrefix_nil_left : commonPrefix [] l = 0 := by
  simp [commonPrefix]

@[simp] theorem commonPrefix_nil_right : commonPrefix l [] = 0 := by
  cases l <;> rfl

theorem commonPrefix_comm : commonPrefix l m = commonPrefix m l := by
  induction l generalizing m with
  | nil => simp
  | cons a l ih =>
    cases m with
    | nil => rfl
    | cons b m => simp only [commonPrefix, ih, eq_comm]

/-- **The common prefix** is the longest on which both lists agree. -/
theorem le_commonPrefix :
    n ≤ commonPrefix l m ↔ n ≤ l.length ∧ n ≤ m.length ∧ l.take n = m.take n := by
  induction n generalizing l m with
  | zero => simp
  | succ n ih =>
    cases l with
    | nil => simp
    | cons a l =>
      cases m with
      | nil => simp
      | cons b m =>
        simp only [commonPrefix, List.length_cons, List.take_succ_cons, List.cons.injEq,
          Nat.add_le_add_iff_right]
        split_ifs with hab
        · simp [hab, ih]
        · simp [hab]

theorem commonPrefix_le_left : commonPrefix l m ≤ l.length := (le_commonPrefix.mp le_rfl).1

/-- **Agreement is transitive.** -/
theorem commonPrefix_trans (h₁ : n ≤ commonPrefix l m) (h₂ : n ≤ commonPrefix m r) :
    n ≤ commonPrefix l r := by
  obtain ⟨hl, -, hlm⟩ := le_commonPrefix.mp h₁
  obtain ⟨-, hr, hmr⟩ := le_commonPrefix.mp h₂
  exact le_commonPrefix.mpr ⟨hl, hr, hlm.trans hmr⟩

theorem lt_commonPrefix :
    n < commonPrefix l m ↔ n ≤ commonPrefix l m ∧ n < l.length ∧ n < m.length ∧ l[n]? = m[n]? := by
  constructor
  · intro h
    obtain ⟨hl, hm, heq⟩ := le_commonPrefix.mp (Nat.succ_le_of_lt h)
    refine ⟨h.le, hl, hm, ?_⟩
    rw [← List.getElem?_take_of_lt (Nat.lt_succ_self n), heq,
      List.getElem?_take_of_lt (Nat.lt_succ_self n)]
  · rintro ⟨h, hl, hm, hn⟩
    obtain ⟨-, -, heq⟩ := le_commonPrefix.mp h
    refine Nat.lt_of_succ_le (le_commonPrefix.mpr ⟨hl, hm, ?_⟩)
    rw [List.take_add_one, List.take_add_one, heq, hn]

theorem eq_of_commonPrefix (h : commonPrefix l m = l.length) (hlen : l.length = m.length) :
    l = m := by
  obtain ⟨-, -, heq⟩ := le_commonPrefix.mp h.ge
  rwa [List.take_length, hlen, List.take_length] at heq

theorem commonPrefix_append (l' m' : List α) (h : l.length = m.length) :
    commonPrefix (l ++ l') (m ++ m') =
      if l = m then l.length + commonPrefix l' m' else commonPrefix l m := by
  induction l generalizing m with
  | nil =>
    obtain rfl := List.length_eq_zero_iff.mp h.symm
    simp
  | cons a l ih =>
    cases m with
    | nil => cases h
    | cons b m =>
      simp only [List.cons_append, commonPrefix, ih (Nat.succ.inj h), List.cons.injEq,
        List.length_cons]
      by_cases hab : a = b
      · by_cases hlm : l = m
        · simp [hab, hlm]
          omega
        · simp [hab, hlm]
      · simp [hab]

theorem commonPrefix_map (f g : β → α) (l : List β) :
    commonPrefix (l.map f) (l.map g) = l.findIdx fun i => f i ≠ g i := by
  induction l with
  | nil => rfl
  | cons a l ih =>
    rw [List.map_cons, List.map_cons, commonPrefix, List.findIdx_cons, ih]
    by_cases h : f a = g a <;> simp [h]

/-- **Two sequences of bits** that part from a third at one place go on together. -/
theorem lt_commonPrefix_of_bool {l m r : List Bool} (hm : commonPrefix l m = n)
    (hr : commonPrefix l r = n) (hl : n < l.length) (hml : n < m.length) (hrl : n < r.length) :
    n < commonPrefix m r := by
  have hne : ∀ k : List Bool, commonPrefix l k = n → n < k.length → k[n]? ≠ l[n]? := by
    intro k hk hkl heq
    have := lt_commonPrefix.mpr ⟨hk.ge, hl, hkl, heq.symm⟩
    omega
  have hle := commonPrefix_trans (commonPrefix_comm.trans hm).ge hr.ge
  refine lt_commonPrefix.mpr ⟨hle, hml, hrl, ?_⟩
  have h₁ := hne m hm hml
  have h₂ := hne r hr hrl
  rw [List.getElem?_eq_getElem hml, List.getElem?_eq_getElem hl, ne_eq, Option.some.injEq] at h₁
  rw [List.getElem?_eq_getElem hrl, List.getElem?_eq_getElem hl, ne_eq, Option.some.injEq] at h₂
  rw [List.getElem?_eq_getElem hml, List.getElem?_eq_getElem hrl, Option.some.injEq]
  revert h₁ h₂
  cases m[n] <;> cases l[n] <;> cases r[n] <;> simp

end CommonPrefix
