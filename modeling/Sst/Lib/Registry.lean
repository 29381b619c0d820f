import Mathlib.Logic.Function.Basic

/-!
# Registries

Owners are entered under keys in a table, and every owner also records the key it was entered
under.

* `Paired table key`: the table and the records agree.
* `Paired.insert`, `Paired.erase`: entering an owner and taking it out keep them so.
* **`Paired.existsUnique`**: an owner with a key is found under that key and no other.
-/

namespace Registry

variable {κ φ : Type*} {table : κ → Option φ} {key : φ → Option κ}

/-- The table leads from each recorded key to its owner, and from no other key to anyone. -/
def Paired (table : κ → Option φ) (key : φ → Option κ) : Prop :=
  ∀ k f, table k = some f ↔ key f = some k

namespace Paired

theorem empty : Paired (fun _ : κ => (none : Option φ)) fun _ => none :=
  fun _ _ => iff_of_false (Option.some_ne_none _).symm (Option.some_ne_none _).symm

theorem owner_unique (h : Paired table key) {f g : φ} {k : κ} (hf : key f = some k)
    (hg : key g = some k) : f = g :=
  Option.some.inj (((h k f).mpr hf).symm.trans ((h k g).mpr hg))

/-- **An owner with a key is in the table exactly once.** -/
theorem existsUnique (h : Paired table key) {f : φ} {k : κ} (hf : key f = some k) :
    ∃! k', table k' = some f := by
  refine ⟨k, (h k f).mpr hf, fun k' hk' => ?_⟩
  exact Option.some.inj (((h k' f).mp hk').symm.trans hf)

variable [DecidableEq κ] [DecidableEq φ]

/-- An owner without a key is entered under a free key. -/
theorem insert (h : Paired table key) {f : φ} {k : κ} (hk : table k = none) (hf : key f = none) :
    Paired (Function.update table k (some f)) (Function.update key f (some k)) := by
  intro k' f'
  by_cases h1 : k' = k <;> by_cases h2 : f' = f
  · subst h1 h2
    rw [Function.update_self, Function.update_self]
    exact iff_of_true rfl rfl
  · subst h1
    rw [Function.update_self, Function.update_of_ne h2, ← h k' f', hk]
    exact iff_of_false (fun e => h2 (Option.some.inj e).symm) (Option.some_ne_none _).symm
  · subst h2
    rw [Function.update_self, Function.update_of_ne h1, h k' f', hf]
    exact iff_of_false (Option.some_ne_none _).symm fun e => h1 (Option.some.inj e).symm
  · rw [Function.update_of_ne h1, Function.update_of_ne h2]
    exact h k' f'

/-- An owner is taken out under the key it recorded. -/
theorem erase (h : Paired table key) {f : φ} {k : κ} (hf : key f = some k) :
    Paired (Function.update table k none) (Function.update key f none) := by
  intro k' f'
  by_cases h1 : k' = k <;> by_cases h2 : f' = f
  · subst h1 h2
    rw [Function.update_self, Function.update_self]
    exact iff_of_false (Option.some_ne_none _).symm (Option.some_ne_none _).symm
  · subst h1
    rw [Function.update_self, Function.update_of_ne h2]
    exact iff_of_false (Option.some_ne_none _).symm fun e => h2 (h.owner_unique e hf)
  · subst h2
    rw [Function.update_self, Function.update_of_ne h1, h k' f', hf]
    exact iff_of_false (fun e => h1 (Option.some.inj e).symm) (Option.some_ne_none _).symm
  · rw [Function.update_of_ne h1, Function.update_of_ne h2]
    exact h k' f'

end Paired

end Registry
