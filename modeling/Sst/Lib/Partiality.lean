import Mathlib.Data.List.Basic

/-!
# Partial results

* `Yields c I o`: a result, if there is one, meets `I`, and there is one if `c` holds.
* `Yields.bind`, `Yields.bind_any`, `Yields.map`: the rules for sequences.
* **`Yields.foldlM`**: the rule for loops.
-/

namespace Partiality

variable {α β σ : Type*} {c : Prop} {I : α → Prop} {J : β → Prop} {o : Option α}

/-- A result meets `I`; there is one if `c` holds. -/
structure Yields (c : Prop) (I : α → Prop) (o : Option α) : Prop where
  meets : ∀ a, o = some a → I a
  exists_of : c → ∃ a, o = some a

namespace Yields

theorem some {a : α} (h : I a) : Yields c I (some a) :=
  ⟨fun _ hb => Option.some.inj hb ▸ h, fun _ => ⟨a, rfl⟩⟩

theorem mono {I' : α → Prop} (h : Yields c I o) (hI : ∀ a, I a → I' a) : Yields c I' o :=
  ⟨fun a ha => hI a (h.meets a ha), h.exists_of⟩

theorem weaken {c' : Prop} (h : Yields c I o) (hc : c' → c) : Yields c' I o :=
  ⟨h.meets, fun hc' => h.exists_of (hc hc')⟩

theorem bind {f : α → Option β} (h : Yields c I o) (hf : ∀ a, I a → Yields c J (f a)) :
    Yields c J (o.bind f) := by
  cases o with
  | none => exact ⟨nofun, fun hc => by obtain ⟨a, ha⟩ := h.exists_of hc; cases ha⟩
  | some a => exact hf a (h.meets a rfl)

/-- Nothing is known of the first result, nor whether there is one. -/
theorem bind_any {f : α → Option β} (hf : ∀ a, Yields False J (f a)) :
    Yields False J (o.bind f) :=
  bind (I := fun _ => True) ⟨fun _ _ => trivial, False.elim⟩ fun a _ => hf a

theorem none : Yields False I none := ⟨nofun, False.elim⟩

theorem map {f : α → β} (h : Yields c I o) (hf : ∀ a, I a → J (f a)) : Yields c J (o.map f) := by
  cases o with
  | none => exact ⟨nofun, fun hc => by obtain ⟨a, ha⟩ := h.exists_of hc; cases ha⟩
  | some a => exact .some (hf a (h.meets a rfl))

theorem get (h : Yields c I o) (hc : c) : ∃ a, o = Option.some a ∧ I a := by
  obtain ⟨a, ha⟩ := h.exists_of hc
  exact ⟨a, ha, h.meets a ha⟩

theorem of_exists (h : ∃ a, o = Option.some a ∧ I a) : Yields c I o := by
  obtain ⟨a, rfl, ha⟩ := h
  exact .some ha

/-- **Loops.** -/
theorem foldlM {I : σ → Prop} {f : σ → α → Option σ} {l : List α}
    (hf : ∀ a ∈ l, ∀ s, I s → Yields c I (f s a)) {s : σ} (hs : I s) :
    Yields c I (l.foldlM f s) := by
  induction l generalizing s with
  | nil => exact .some hs
  | cons a l ih =>
    obtain ⟨ha, hl⟩ := List.forall_mem_cons.mp hf
    rw [List.foldlM_cons]
    exact (ha s hs).bind fun t ht => ih hl ht

end Yields

end Partiality
