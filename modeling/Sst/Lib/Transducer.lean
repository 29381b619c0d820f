import Mathlib.Data.List.Basic

/-!
# Transducers

A transducer reads letters one at a time, and emits some outputs at each.

* `run step s l`: the state after the letters `l`, and all that was emitted.
* **`run_append`**: reading on from where one stopped.
* `run_absorb`: a state that is never left and emits nothing.
* **`run_first`**: what the first output can be.
-/

namespace Transducer

variable {σ α β : Type*} {step : σ → α → σ × List β}

/-- The state after the letters `l`, and the outputs. -/
def run (step : σ → α → σ × List β) : σ → List α → σ × List β
  | s, [] => (s, [])
  | s, a :: l => ((run step (step s a).1 l).1, (step s a).2 ++ (run step (step s a).1 l).2)

@[simp] theorem run_nil (s : σ) : run step s [] = (s, []) := rfl

theorem run_cons (s : σ) (a : α) (l : List α) :
    run step s (a :: l) =
      ((run step (step s a).1 l).1, (step s a).2 ++ (run step (step s a).1 l).2) := rfl

theorem run_append (s : σ) (l₁ l₂ : List α) :
    run step s (l₁ ++ l₂) =
      ((run step (run step s l₁).1 l₂).1,
        (run step s l₁).2 ++ (run step (run step s l₁).1 l₂).2) := by
  induction l₁ generalizing s with
  | nil => rfl
  | cons a l₁ ih => rw [List.cons_append, run_cons, run_cons, ih, List.append_assoc]

theorem run_trans {s t u : σ} {l₁ l₂ : List α} {o₁ o₂ : List β} (h₁ : run step s l₁ = (t, o₁))
    (h₂ : run step t l₂ = (u, o₂)) : run step s (l₁ ++ l₂) = (u, o₁ ++ o₂) := by
  rw [run_append, h₁, h₂]

/-- A state that every letter leaves as it is. -/
theorem run_absorb {s : σ} (h : ∀ a, step s a = (s, [])) (l : List α) : run step s l = (s, []) := by
  induction l with
  | nil => rfl
  | cons a l ih => rw [run_cons, h, ih, List.append_nil]

/-- **The first output.** If from the states in `P` a letter emits nothing and leads to `P`, or
emits an output in `Q` first, then a run from `P` emits nothing or an output in `Q` first. -/
theorem run_first {P : σ → Prop} {Q : β → Prop}
    (h : ∀ s a, P s → (step s a).2 = [] ∧ P (step s a).1 ∨ ∃ o ∈ (step s a).2.head?, Q o) {s : σ}
    (hs : P s) (l : List α) {b : β} {rest : List β} (hb : (run step s l).2 = b :: rest) : Q b := by
  induction l generalizing s with
  | nil => cases hb
  | cons a l ih =>
    rw [run_cons] at hb
    rcases h s a hs with ⟨h1, h2⟩ | ⟨o, ho, hq⟩
    · rw [h1, List.nil_append] at hb
      exact ih h2 hb
    · cases hout : (step s a).2 with
      | nil =>
        rw [hout] at ho
        cases ho
      | cons o' out =>
        rw [hout] at ho hb
        cases ho
        cases hb
        exact hq

end Transducer
