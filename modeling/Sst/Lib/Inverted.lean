import Mathlib.Data.List.AList
import Mathlib.Data.Finset.Basic

/-!
# Inverted indexes

A table that maps each key to the set of the items that have it, without entries for empty sets.

* `Inverted`: the table; `Inverted.items` reads it, `Inverted.touch` is a subscript that may insert
  an empty set.
* `Inverted.add`, `Inverted.drop`: an item gets or loses a key; `addAll`, `dropAll` a list of keys.
* **`Inverted.Exact`**: the table holds exactly a relation between keys and items, and
  `Exact.addAll`, `Exact.dropAll` keep it so.
-/

universe u v

/-- A map from keys to sets of items. -/
abbrev Inverted (κ : Type u) (ι : Type v) := AList fun _ : κ => Finset ι

namespace Inverted

variable {κ : Type u} {ι : Type v} [DecidableEq κ] [DecidableEq ι]

/-- The items of a key. -/
def items (t : Inverted κ ι) (k : κ) : Finset ι := (t.lookup k).getD ∅

/-- Make sure that there is an entry. -/
def touch (t : Inverted κ ι) (k : κ) : Inverted κ ι :=
  if (t.lookup k).isSome then t else t.insert k ∅

/-- An item gets a key. -/
def add (t : Inverted κ ι) (k : κ) (i : ι) : Inverted κ ι := t.insert k (insert i (t.items k))

/-- An item loses a key; no empty set is kept. -/
def drop (t : Inverted κ ι) (k : κ) (i : ι) : Inverted κ ι :=
  if (t.items k).erase i = ∅ then t.erase k else t.insert k ((t.items k).erase i)

/-- An item gets the keys of a list. -/
def addAll (t : Inverted κ ι) (l : List κ) (i : ι) : Inverted κ ι :=
    l.foldl (fun t k => t.add k i) t

/-- An item loses the keys of a list. -/
def dropAll (t : Inverted κ ι) (l : List κ) (i : ι) : Inverted κ ι :=
  l.foldl (fun t k => t.drop k i) t

/-- No entry is empty. -/
def Full (t : Inverted κ ι) : Prop := ∀ k s, t.lookup k = some s → s.Nonempty

/-- **The table holds exactly the relation `r`**, and no empty set. -/
def Exact (t : Inverted κ ι) (r : κ → ι → Prop) : Prop := t.Full ∧ ∀ k i, i ∈ t.items k ↔ r k i

variable {t : Inverted κ ι} {k k' : κ} {i j : ι} {l : List κ} {r : κ → ι → Prop}

omit [DecidableEq ι] in
theorem items_of_lookup {s : Finset ι} (h : t.lookup k = some s) : t.items k = s := by
  rw [Inverted.items, h, Option.getD_some]

omit [DecidableEq ι] in
theorem lookup_of_nonempty (h : (t.items k).Nonempty) : t.lookup k = some (t.items k) := by
  cases hs : t.lookup k with
  | none =>
    rw [Inverted.items, hs] at h
    exact absurd h Finset.not_nonempty_empty
  | some s => rw [items_of_lookup hs]

omit [DecidableEq ι] in
theorem touch_of_nonempty (h : (t.items k).Nonempty) : t.touch k = t := by
  rw [touch, lookup_of_nonempty h, Option.isSome_some, if_pos rfl]

/-! ## One key -/

theorem mem_items_add : j ∈ (t.add k i).items k' ↔ k' = k ∧ j = i ∨ j ∈ t.items k' := by
  rcases eq_or_ne k' k with rfl | hne
  · rw [add, items_of_lookup (AList.lookup_insert _), Finset.mem_insert]
    simp only [true_and]
  · rw [add, Inverted.items, AList.lookup_insert_ne hne]
    simp only [hne, false_and, false_or, Inverted.items]

theorem mem_items_drop : j ∈ (t.drop k i).items k' ↔ ¬ (k' = k ∧ j = i) ∧ j ∈ t.items k' := by
  unfold drop
  split
  · rename_i hempty
    rcases eq_or_ne k' k with rfl | hne
    · rw [Inverted.items, AList.lookup_erase]
      simp only [true_and, Option.getD_none, Finset.notMem_empty, false_iff]
      rw [← Ne, ← Finset.mem_erase, hempty]
      exact Finset.notMem_empty j
    · rw [Inverted.items, AList.lookup_erase_ne hne]
      simp only [hne, false_and, not_false_eq_true, true_and, Inverted.items]
  · rcases eq_or_ne k' k with rfl | hne
    · rw [items_of_lookup (AList.lookup_insert _), Finset.mem_erase]
      simp only [true_and, Ne]
    · rw [Inverted.items, AList.lookup_insert_ne hne]
      simp only [hne, false_and, not_false_eq_true, true_and, Inverted.items]

theorem Full.add (h : t.Full) : (t.add k i).Full := by
  intro k' s hs
  rcases eq_or_ne k' k with rfl | hne
  · rw [Inverted.add, AList.lookup_insert] at hs
    cases hs
    exact Finset.insert_nonempty i _
  · rw [Inverted.add, AList.lookup_insert_ne hne] at hs
    exact h k' s hs

theorem Full.drop (h : t.Full) : (t.drop k i).Full := by
  intro k' s hs
  unfold Inverted.drop at hs
  split at hs
  · rcases eq_or_ne k' k with rfl | hne
    · rw [AList.lookup_erase] at hs
      cases hs
    · rw [AList.lookup_erase_ne hne] at hs
      exact h k' s hs
  · rename_i hfull
    rcases eq_or_ne k' k with rfl | hne
    · rw [AList.lookup_insert] at hs
      cases hs
      exact Finset.nonempty_iff_ne_empty.2 hfull
    · rw [AList.lookup_insert_ne hne] at hs
      exact h k' s hs

/-! ## Lists of keys -/

theorem mem_items_addAll : j ∈ (t.addAll l i).items k ↔ k ∈ l ∧ j = i ∨ j ∈ t.items k := by
  induction l generalizing t with
  | nil => simp only [addAll, List.foldl_nil, List.not_mem_nil, false_and, false_or]
  | cons k' l ih =>
    change j ∈ ((t.add k' i).addAll l i).items k ↔ _
    rw [ih, mem_items_add, List.mem_cons, or_and_right, ← or_assoc, or_comm (a := k ∈ l ∧ j = i)]

theorem mem_items_dropAll : j ∈ (t.dropAll l i).items k ↔ ¬ (k ∈ l ∧ j = i) ∧ j ∈ t.items k := by
  induction l generalizing t with
  | nil => simp only [dropAll, List.foldl_nil, List.not_mem_nil, false_and, not_false_eq_true,
      true_and]
  | cons k' l ih =>
    change j ∈ ((t.drop k' i).dropAll l i).items k ↔ _
    rw [ih, mem_items_drop, List.mem_cons, or_and_right, not_or, ← and_assoc,
      and_comm (a := ¬ (k ∈ l ∧ j = i))]

theorem Full.addAll (h : t.Full) : (t.addAll l i).Full := by
  induction l generalizing t with
  | nil => exact h
  | cons k l ih => exact ih h.add

theorem Full.dropAll (h : t.Full) : (t.dropAll l i).Full := by
  induction l generalizing t with
  | nil => exact h
  | cons k l ih => exact ih h.drop

/-! ## Exact tables -/

namespace Exact

omit [DecidableEq ι] in
theorem empty : Exact (∅ : Inverted κ ι) fun _ _ => False :=
  ⟨fun _ _ h => (nomatch h), fun _ i => iff_of_false (Finset.notMem_empty i) id⟩

omit [DecidableEq ι] in
theorem congr {r' : κ → ι → Prop} (h : t.Exact r) (hr : ∀ k i, r k i ↔ r' k i) : t.Exact r' :=
  ⟨h.1, fun k i => (h.2 k i).trans (hr k i)⟩

/-- **An item is added with its keys.** -/
theorem addAll (h : t.Exact r) (l : List κ) (i : ι) :
    (t.addAll l i).Exact fun k j => k ∈ l ∧ j = i ∨ r k j :=
  ⟨h.1.addAll, fun k j => by rw [mem_items_addAll, h.2]⟩

/-- **An item loses keys.** -/
theorem dropAll (h : t.Exact r) (l : List κ) (i : ι) :
    (t.dropAll l i).Exact fun k j => ¬ (k ∈ l ∧ j = i) ∧ r k j :=
  ⟨h.1.dropAll, fun k j => by rw [mem_items_dropAll, h.2]⟩

omit [DecidableEq ι] in
theorem lookup_iff (h : t.Exact r) {s : Finset ι} :
    t.lookup k = some s ↔ s.Nonempty ∧ ∀ i, i ∈ s ↔ r k i := by
  constructor
  · intro hs
    refine ⟨h.1 k s hs, fun i => ?_⟩
    rw [← h.2, items_of_lookup hs]
  · rintro ⟨hne, hmem⟩
    have hs : t.items k = s := Finset.ext fun i => (h.2 k i).trans (hmem i).symm
    rw [← hs] at hne ⊢
    exact lookup_of_nonempty hne

end Exact

end Inverted
