import Mathlib.Data.List.Basic
import Mathlib.Order.Basic

/-!
# Machines and their runs

A machine takes one partial step for each label; the label carries every choice of the
environment, so that a run is determined by its list of labels.

* `Machine.run`: the state after a list of labels, if every step is possible.
* `Machine.Reach m C`: the states reached by runs whose steps all meet the condition `C`.
* **`Machine.Reach.invariant`**: what holds initially and is kept by each step holds throughout.
* `Machine.Meets m C s l`: every step of the run of `l` from `s` meets `C`.
* **`Machine.meets_or_of`**, `Machine.meets_or`: a run meets a condition throughout, or leaves the
  invariant for good.
-/

namespace Transition

/-- A machine: an initial state and a partial step. -/
structure Machine (σ ι : Type*) where
  init : σ
  step : σ → ι → Option σ

variable {σ ι : Type*}

namespace Machine

/-- The state after the labels `l`, starting from `s`. -/
def run (m : Machine σ ι) : σ → List ι → Option σ
  | s, [] => some s
  | s, i :: l => (m.step s i).bind fun t => m.run t l

/-- The states reached by runs each of whose steps meets `C`. -/
inductive Reach (m : Machine σ ι) (C : σ → ι → Prop) : σ → Prop
  | init : Reach m C m.init
  | step {s t : σ} {i : ι} : Reach m C s → C s i → m.step s i = some t → Reach m C t

/-- The machine, started in another state. -/
def startAt (m : Machine σ ι) (s : σ) : Machine σ ι := { m with init := s }

/-- The condition met by every step. -/
def always (_ : σ) (_ : ι) : Prop := True

variable {m : Machine σ ι} {C D : σ → ι → Prop}

@[simp] theorem run_nil (s : σ) : m.run s [] = some s := rfl

theorem run_cons (s : σ) (i : ι) (l : List ι) :
    m.run s (i :: l) = (m.step s i).bind fun t => m.run t l := rfl

theorem run_append (s : σ) (l₁ l₂ : List ι) :
    m.run s (l₁ ++ l₂) = (m.run s l₁).bind fun t => m.run t l₂ := by
  induction l₁ generalizing s with
  | nil => rfl
  | cons i l₁ ih =>
    rw [List.cons_append, run_cons, run_cons]
    cases h : m.step s i with
    | none => rfl
    | some t => exact ih t

theorem run_concat {s u : σ} {l : List ι} {i : ι} (h : m.run s (l ++ [i]) = some u) :
    ∃ t, m.run s l = some t ∧ m.step t i = some u := by
  rw [run_append] at h
  cases ht : m.run s l with
  | none => rw [ht] at h; cases h
  | some t =>
    rw [ht] at h
    refine ⟨t, rfl, ?_⟩
    cases hu : m.step t i with
    | none => simp [run_cons, hu] at h
    | some v => simpa [run_cons, hu] using h

theorem run_concat_of {s t u : σ} {l : List ι} {i : ι} (h : m.run s l = some t)
    (hi : m.step t i = some u) : m.run s (l ++ [i]) = some u := by
  rw [run_append, h, Option.bind_some, run_cons, hi, Option.bind_some, run_nil]

namespace Reach

/-- **The invariant rule.** -/
theorem invariant {P : σ → Prop} (h0 : P m.init)
    (hs : ∀ s t i, Reach m C s → P s → C s i → m.step s i = some t → P t) {s : σ}
    (h : Reach m C s) : P s := by
  induction h with
  | init => exact h0
  | step hr hc ht ih => exact hs _ _ _ hr ih hc ht

theorem mono (hCD : ∀ s i, C s i → D s i) {s : σ} (h : Reach m C s) : Reach m D s := by
  induction h with
  | init => exact .init
  | step _ hc ht ih => exact .step ih (hCD _ _ hc) ht

theorem trans {s t : σ} (h : Reach m C s) (h' : Reach (m.startAt s) C t) : Reach m C t := by
  induction h' with
  | init => exact h
  | step _ hc ht ih => exact ih.step hc ht

theorem extend {s t : σ} {l : List ι} (h : Reach m C s) (hl : ∀ i ∈ l, ∀ u, C u i)
    (hr : m.run s l = some t) : Reach m C t := by
  induction l generalizing s with
  | nil => rw [run_nil] at hr; cases hr; exact h
  | cons i l ih =>
    rw [run_cons] at hr
    cases hi : m.step s i with
    | none => rw [hi] at hr; cases hr
    | some u =>
      rw [hi] at hr
      exact ih (h.step (hl i List.mem_cons_self s) hi)
        (fun j hj => hl j (List.mem_cons_of_mem _ hj)) hr

end Reach

/-- Every step of the run of `l` from `s` meets `C`. -/
def Meets (m : Machine σ ι) (C : σ → ι → Prop) : σ → List ι → Prop
  | _, [] => True
  | s, i :: l => C s i ∧ ∀ t, m.step s i = some t → m.Meets C t l

theorem run_invariant {P : σ → Prop} (hP : ∀ s t i, P s → m.step s i = some t → P t) {s t : σ}
    {l : List ι} (hs : P s) (hr : m.run s l = some t) : P t := by
  induction l generalizing s with
  | nil => rw [run_nil] at hr; cases hr; exact hs
  | cons i l ih =>
    rw [run_cons, Option.bind_eq_some_iff] at hr
    obtain ⟨u, hu, hr⟩ := hr
    exact ih (hP _ _ _ hs hu) hr

namespace Meets

theorem mono (hCD : ∀ s i, C s i → D s i) {s : σ} {l : List ι} (h : m.Meets C s l) :
    m.Meets D s l := by
  induction l generalizing s with
  | nil => trivial
  | cons i l ih => exact ⟨hCD _ _ h.1, fun t ht => ih (h.2 t ht)⟩

theorem and {s : σ} {l : List ι} (h : m.Meets C s l) (h' : m.Meets D s l) :
    m.Meets (fun s i => C s i ∧ D s i) s l := by
  induction l generalizing s with
  | nil => trivial
  | cons i l ih => exact ⟨⟨h.1, h'.1⟩, fun t ht => ih (h.2 t ht) (h'.2 t ht)⟩

/-- What the steps that meet `C` keep, holds at the end of a run of such steps. -/
theorem invariant {P : σ → Prop} (hP : ∀ s t i, P s → C s i → m.step s i = some t → P t)
    {s t : σ} {l : List ι} (h : m.Meets C s l) (hs : P s) (hr : m.run s l = some t) : P t := by
  induction l generalizing s with
  | nil => rw [run_nil] at hr; cases hr; exact hs
  | cons i l ih =>
    rw [run_cons, Option.bind_eq_some_iff] at hr
    obtain ⟨u, hu, hr⟩ := hr
    exact ih (h.2 u hu) (hP _ _ _ hs h.1 hu) hr

end Meets

/-- **The rule of exact conditions**, for runs that meet `D`. Steps that meet `C` keep `I`, the
others lead from `I` to `B`, and `B` is not left: a run from `I` meets `C` throughout and ends in
`I`, or ends in `B`. -/
theorem meets_or_of {I B : σ → Prop}
    (hI : ∀ s t i, I s → D s i → C s i → m.step s i = some t → I t)
    (hN : ∀ s t i, I s → D s i → ¬C s i → m.step s i = some t → B t)
    (hB : ∀ s t i, B s → m.step s i = some t → B t) {s t : σ} {l : List ι} (hs : I s)
    (hd : m.Meets D s l) (hr : m.run s l = some t) :
    m.Meets C s l ∧ I t ∨ ¬m.Meets C s l ∧ B t := by
  induction l generalizing s with
  | nil => rw [run_nil] at hr; cases hr; exact .inl ⟨trivial, hs⟩
  | cons i l ih =>
    rw [run_cons, Option.bind_eq_some_iff] at hr
    obtain ⟨u, hu, hr⟩ := hr
    by_cases hc : C s i
    · rcases ih (hI _ _ _ hs hd.1 hc hu) (hd.2 u hu) hr with ⟨h1, h2⟩ | ⟨h1, h2⟩
      · refine .inl ⟨⟨hc, fun v hv => ?_⟩, h2⟩
        cases hu.symm.trans hv
        exact h1
      · exact .inr ⟨fun h => h1 (h.2 u hu), h2⟩
    · exact .inr ⟨fun h => hc h.1, run_invariant hB (hN _ _ _ hs hd.1 hc hu) hr⟩

theorem meets_always (s : σ) (l : List ι) : m.Meets always s l := by
  induction l generalizing s with
  | nil => trivial
  | cons i l ih => exact ⟨trivial, fun t _ => ih t⟩

/-- **The rule of exact conditions** for all runs. -/
theorem meets_or {I B : σ → Prop} (hI : ∀ s t i, I s → C s i → m.step s i = some t → I t)
    (hN : ∀ s t i, I s → ¬C s i → m.step s i = some t → B t)
    (hB : ∀ s t i, B s → m.step s i = some t → B t) {s t : σ} {l : List ι} (hs : I s)
    (hr : m.run s l = some t) : m.Meets C s l ∧ I t ∨ ¬m.Meets C s l ∧ B t :=
  meets_or_of (D := always) (fun s t i hs _ => hI s t i hs) (fun s t i hs _ => hN s t i hs) hB hs
    (meets_always s l) hr

theorem reach_of_run {s : σ} {l : List ι} (h : m.run m.init l = some s) : Reach m always s :=
  Reach.init.extend (fun _ _ _ => trivial) h

end Machine

end Transition
