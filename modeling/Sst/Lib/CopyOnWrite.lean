import Mathlib.Data.List.AList

/-!
# Implicit sharing

Handles point to cells, and several of them may point to one cell. A handle that is about to change
a cell it shares gets a copy of its own first, made by `copy`.

* `Heap`: the handles and the cells; `Heap.get`: what a handle stands for.
* `make`, `share`, `drop`, `detach`, `modify`: the operations.
* **`get_modify_of_ne`**: a change through one handle is not seen through another.
* **`get_modify_self`**: it is seen through that one, on the cell or on its copy.
-/

namespace CopyOnWrite

/-- Handles, each with the index of its cell, and the cells ever made. -/
structure Heap (ι δ : Type*) [DecidableEq ι] where
  handles : AList fun _ : ι => ℕ
  cells : List δ
  inside : ∀ x p, handles.lookup x = some p → p < cells.length

namespace Heap

variable {ι δ : Type*} [DecidableEq ι]

/-- A heap without handles. -/
def empty : Heap ι δ := ⟨∅, [], fun _ _ h => absurd h (Option.some_ne_none _).symm⟩

/-- What a handle stands for. -/
def get (h : Heap ι δ) (x : ι) : Option δ := (h.handles.lookup x).bind fun p => h.cells[p]?

/-- A handle is made to point to a new cell. -/
def make (h : Heap ι δ) (x : ι) (v : δ) : Heap ι δ where
  handles := h.handles.insert x h.cells.length
  cells := h.cells ++ [v]
  inside y p hy := by
    rw [List.length_append, List.length_singleton]
    by_cases hyx : y = x
    · subst hyx
      rw [AList.lookup_insert] at hy
      cases hy
      exact Nat.lt_succ_self _
    · rw [AList.lookup_insert_ne hyx] at hy
      exact Nat.lt_succ_of_lt (h.inside y p hy)

/-- The handle `y` is made to point where `x` points. -/
def share (h : Heap ι δ) (x y : ι) : Heap ι δ :=
  match hp : h.handles.lookup x with
  | none => h
  | some p =>
    { h with
      handles := h.handles.insert y p
      inside := fun z q hz => by
        by_cases hzy : z = y
        · subst hzy
          rw [AList.lookup_insert] at hz
          cases hz
          exact h.inside x p hp
        · rw [AList.lookup_insert_ne hzy] at hz
          exact h.inside z q hz }

/-- A handle goes. -/
def drop (h : Heap ι δ) (x : ι) : Heap ι δ :=
  { h with
    handles := h.handles.erase x
    inside := fun z q hz => by
      by_cases hzx : z = x
      · subst hzx
        rw [AList.lookup_erase] at hz
        cases hz
      · rw [AList.lookup_erase_ne hzx] at hz
        exact h.inside z q hz }

/-- Another handle points to the cell of `x`. -/
def shared (h : Heap ι δ) (x : ι) : Bool :=
  h.handles.entries.any fun e => e.1 ≠ x ∧ h.handles.lookup x = some e.2

/-- A handle that shares its cell gets a copy of it. -/
def detach (h : Heap ι δ) (copy : δ → δ) (x : ι) : Heap ι δ :=
  match h.get x with
  | none => h
  | some v => if h.shared x then h.make x (copy v) else h

/-- The cell of a handle is replaced. -/
def write (h : Heap ι δ) (x : ι) (v : δ) : Heap ι δ :=
  match h.handles.lookup x with
  | none => h
  | some p =>
    { h with
      cells := h.cells.set p v
      inside := fun z q hz => by
        rw [List.length_set]
        exact h.inside z q hz }

/-- A change through a handle: it detaches first. -/
def modify (h : Heap ι δ) (copy f : δ → δ) (x : ι) : Heap ι δ :=
  match (h.detach copy x).get x with
  | none => h
  | some v => (h.detach copy x).write x (f v)

/-! ## What handles stand for -/

variable {h : Heap ι δ} {copy f : δ → δ} {x y : ι} {v : δ}

theorem get_eq_some (hv : h.get x = some v) :
    ∃ p, h.handles.lookup x = some p ∧ h.cells[p]? = some v := Option.bind_eq_some_iff.mp hv

theorem get_make_self (h : Heap ι δ) (x : ι) (v : δ) : (h.make x v).get x = some v := by
  simp only [get, make, AList.lookup_insert, Option.bind_some, List.getElem?_concat_length]

theorem get_make_of_ne (h : Heap ι δ) (v : δ) (hne : y ≠ x) : (h.make x v).get y = h.get y := by
  simp only [get, make, AList.lookup_insert_ne hne]
  refine Option.bind_congr fun p hp => ?_
  exact List.getElem?_append_left (h.inside y p hp)

theorem get_share_self (hv : h.get x = some v) : (h.share x y).get y = some v := by
  obtain ⟨p, hp, hc⟩ := get_eq_some hv
  unfold share
  split
  · rename_i hn
    rw [hp] at hn
    cases hn
  · rename_i q hq
    rw [hp] at hq
    cases hq
    simp only [get, AList.lookup_insert, Option.bind_some, hc]

theorem get_share_of_ne (h : Heap ι δ) (x : ι) {z : ι} (hne : z ≠ y) :
    (h.share x y).get z = h.get z := by
  unfold share
  split
  · rfl
  · simp only [get, AList.lookup_insert_ne hne]

theorem get_drop_self (h : Heap ι δ) (x : ι) : (h.drop x).get x = none := by
  simp only [get, drop, AList.lookup_erase, Option.bind_none]

theorem get_drop_of_ne (h : Heap ι δ) (hne : y ≠ x) : (h.drop x).get y = h.get y := by
  simp only [get, drop, AList.lookup_erase_ne hne]

theorem ne_of_not_shared (hs : h.shared x = false) {p : ℕ} (hx : h.handles.lookup x = some p)
    (hne : y ≠ x) : h.handles.lookup y ≠ some p := by
  intro hy
  have hmem := AList.mem_lookup_iff.mp hy
  have := List.any_eq_false.mp hs ⟨y, p⟩ hmem
  exact this (decide_eq_true ⟨hne, hx⟩)

theorem get_detach_self (copy : δ → δ) (hv : h.get x = some v) :
    (h.detach copy x).get x = some (if h.shared x then copy v else v) := by
  simp only [detach, hv]
  split_ifs
  · exact get_make_self h x _
  · exact hv

theorem get_detach_of_ne (h : Heap ι δ) (copy : δ → δ) (hne : y ≠ x) :
    (h.detach copy x).get y = h.get y := by
  unfold detach
  split
  · rfl
  · split_ifs
    · exact get_make_of_ne h _ hne
    · rfl

/-- A handle to a new cell has it for itself. -/
theorem shared_make (h : Heap ι δ) (x : ι) (v : δ) : (h.make x v).shared x = false := by
  refine List.any_eq_false.mpr fun e he => ?_
  obtain ⟨y, p⟩ := e
  intro hd
  obtain ⟨hne, hx⟩ := of_decide_eq_true hd
  have hy : (h.make x v).handles.lookup y = some p := AList.mem_lookup_iff.mpr he
  simp only [make, AList.lookup_insert] at hx
  simp only [make, AList.lookup_insert_ne hne] at hy
  cases hx
  exact Nat.lt_irrefl _ (h.inside y _ hy)

theorem shared_detach (hv : h.get x = some v) : (h.detach copy x).shared x = false := by
  simp only [detach, hv]
  split_ifs with hs
  · exact shared_make h x _
  · exact Bool.eq_false_iff.mpr hs

theorem get_write_self {w : δ} (hv : h.get x = some v) : (h.write x w).get x = some w := by
  obtain ⟨p, hp, -⟩ := get_eq_some hv
  have hlt := h.inside x p hp
  unfold write
  split
  · rename_i hn
    rw [hp] at hn
    cases hn
  · rename_i q hq
    rw [hp] at hq
    cases hq
    simp only [get, hp, Option.bind_some, List.getElem?_set_self hlt]

/-- A write is not seen at a handle to another cell. -/
theorem get_write_of_ne (w : δ) (hs : h.shared x = false) (hne : y ≠ x) :
    (h.write x w).get y = h.get y := by
  unfold write
  split
  · rfl
  · rename_i p hp
    simp only [get]
    refine Option.bind_congr fun q hq => ?_
    have hpq : p ≠ q := fun he => ne_of_not_shared hs hp hne (he ▸ hq)
    exact List.getElem?_set_ne hpq

/-- **A change is seen at its handle,** on the cell or on a copy of it. -/
theorem get_modify_self (hv : h.get x = some v) :
    (h.modify copy f x).get x = some (f (if h.shared x then copy v else v)) := by
  have hd := get_detach_self copy hv
  simp only [modify, hd]
  exact get_write_self hd

/-- **A change is not seen at any other handle.** -/
theorem get_modify_of_ne (h : Heap ι δ) (copy f : δ → δ) (hne : y ≠ x) :
    (h.modify copy f x).get y = h.get y := by
  cases hv : h.get x with
  | none =>
    have hd : h.detach copy x = h := by simp only [detach, hv]
    simp only [modify, hd, hv]
  | some v =>
    have hd := get_detach_self copy hv
    simp only [modify, hd]
    rw [get_write_of_ne _ (shared_detach hv) hne, get_detach_of_ne h copy hne]

/-! ## What holds of every handle -/

/-- Everything that a handle stands for has the property `P`. -/
def All (P : δ → Prop) (h : Heap ι δ) : Prop := ∀ x v, h.get x = some v → P v

namespace All

variable {P : δ → Prop}

theorem empty : All P (Heap.empty : Heap ι δ) := fun _ _ h => absurd h (Option.some_ne_none _).symm

theorem make (hP : All P h) (hv : P v) (x : ι) : All P (h.make x v) := by
  intro y w hw
  by_cases hyx : y = x
  · subst hyx
    rw [get_make_self] at hw
    cases hw
    exact hv
  · rw [get_make_of_ne h v hyx] at hw
    exact hP y w hw

theorem share (hP : All P h) (x y : ι) : All P (h.share x y) := by
  intro z w hw
  by_cases hzy : z = y
  · subst hzy
    cases hx : h.get x with
    | none =>
      have hsame : (h.share x z).get z = h.get z := by
        unfold Heap.share
        split
        · rfl
        · rename_i p hp
          have hlt := h.inside x p hp
          rw [get, hp, Option.bind_some, List.getElem?_eq_getElem hlt] at hx
          cases hx
      rw [hsame] at hw
      exact hP z w hw
    | some v =>
      rw [get_share_self hx] at hw
      cases hw
      exact hP x _ hx
  · rw [get_share_of_ne h x hzy] at hw
    exact hP z w hw

theorem drop (hP : All P h) (x : ι) : All P (h.drop x) := by
  intro y w hw
  by_cases hyx : y = x
  · subst hyx
    rw [get_drop_self] at hw
    cases hw
  · rw [get_drop_of_ne h hyx] at hw
    exact hP y w hw

theorem detach (hP : All P h) (hcopy : ∀ v, P v → P (copy v)) (x : ι) :
    All P (h.detach copy x) := by
  unfold Heap.detach
  split
  · exact hP
  · rename_i v hv
    split_ifs
    · exact hP.make (hcopy v (hP x v hv)) x
    · exact hP

theorem modify (hP : All P h) (hcopy : ∀ v, P v → P (copy v)) (hf : ∀ v, P v → P (f v)) (x : ι) :
    All P (h.modify copy f x) := by
  intro y w hw
  by_cases hyx : y = x
  · subst hyx
    cases hv : h.get y with
    | none =>
      have hd : h.detach copy y = h := by simp only [Heap.detach, hv]
      simp only [Heap.modify, hd, hv] at hw
      cases hw
    | some v =>
      rw [get_modify_self hv] at hw
      cases hw
      refine hf _ ?_
      split_ifs
      · exact hcopy v (hP y v hv)
      · exact hP y v hv
  · rw [get_modify_of_ne h copy f hyx] at hw
    exact hP y w hw

end All

end Heap

end CopyOnWrite
