import Sst.KeyHost.Kept

/-!
# After cancel

`cancel` removes an initiator from the tables but does not stop its timer.

* `KeyHost.Still`: an initiator in no table, whose timer does not run.
* `KeyHost.still_of_run`: it stays so in every run; `KeyHost.timeout_log`: a timer that expires.
* **`cancel_final`**: an initiator does nothing more after `cancel` exactly if its timer does not
  run.
-/

namespace Sst.Key

open Symbolic Transition

namespace KeyHost

variable {w w' : KeyHost} {k : ℕ} {x : Attempt} {r : Rand}

/-- The initiator is in no table, its timer does not run, and it has done no more. -/
def Still (w : KeyHost) (k : ℕ) (l : List Signal) : Prop :=
  Named w.objs k fun x => x.registered = false ∧ x.txtimer = false ∧ x.log = l

theorem Kept.still (h : Kept w w') {l : List Signal} (hs : Still w k l) : Still w' k l := by
  obtain ⟨x, hx, hr, ht, hl⟩ := hs
  obtain ⟨y, hy, hxy⟩ := h.old k x hx
  obtain ⟨ht', hl'⟩ := hxy.inert hr ht
  exact ⟨y, hy, hxy.registered hr, ht', hl'.trans hl⟩

/-- **Every run** leaves such an initiator alone. -/
theorem still_of_run {hostIdent : ℕ} {target : Ident} {c : ℕ → Config} (hw : Sound w)
    {l : List Signal} (hs : Still w k l) {ops : List Op}
    (hr : (keyHost hostIdent target c).run w ops = some w') : Still w' k l := by
  have hboth : Sound w' ∧ Still w' k l := by
    refine Machine.run_invariant (P := fun v => Sound v ∧ Still v k l) ?_ ⟨hw, hs⟩ hr
    rintro u v op ⟨hu, hk⟩ hstep
    exact ⟨(hu.step hstep).1, (step_kept hu.tables hstep).still hk⟩
  exact hboth.2

/-- A timer that expires for the last time emits `completed`. -/
theorem timeout_log (hx : w.objs[k]? = some x) :
    ∃ w' y, w.retransmit k x true r = some w' ∧ w'.objs[k]? = some y ∧
      y.log = .completed false :: x.log := by
  have hended : Ended (w.modify k fun x => { x with
      state := .done
      txtimer := false
      log := .completed false :: x.log }) k (.completed false :: x.log) :=
    ⟨_, modify_get hx _, rfl, rfl⟩
  obtain ⟨y, hy, -, hl⟩ := (completed_path k).ended hended
  exact ⟨_, y, if_pos rfl, hy, hl⟩

end KeyHost

/-- **Cancel is final** for an initiator whose timer does not run, and only for such an initiator:
in every run after `cancel` it sends nothing, does not arm or start its flow and does not emit
`completed`. -/
theorem cancel_final {hostIdent : ℕ} {target : Ident} {c : ℕ → Config} {w w' : KeyHost}
    (h : (keyHost hostIdent target c).Reach Machine.always w) {k : ℕ} {x : Attempt}
    (hx : w.objs[k]? = some x) (hs : (keyHost hostIdent target c).step w (.cancel k) = some w') :
    (∀ ops v, (keyHost hostIdent target c).run w' ops = some v →
      ∃ y, v.objs[k]? = some y ∧ y.log = x.log) ↔ x.txtimer = false := by
  have hstep : w.step target (.cancel k) = some w' := hs
  have hw' := ((KeyHost.sound_of_reach h).step hstep).1
  -- the initiator is not deleted
  have hlive : w.live k (fun _ => true) = true ∧ w' = w.cancel k := by
    change (if w.live k fun _ => true then some (w.cancel k) else none) = some w' at hstep
    split_ifs at hstep with hl
    cases hstep
    exact ⟨hl, rfl⟩
  obtain ⟨hl, rfl⟩ := hlive
  have hget := KeyHost.cancel_get hx
  constructor
  · intro hall
    by_contra ht
    rw [Bool.not_eq_false] at ht
    have hdel : (!x.deleted) = true := by
      unfold KeyHost.live at hl
      rw [hx] at hl
      exact (Bool.and_eq_true _ _ ▸ hl).1
    obtain ⟨v, y, hv, hy, hlog⟩ := KeyHost.timeout_log (r := ⟨0, 0, 0⟩) hget
    have hstep : (keyHost hostIdent target c).step (w.cancel k) (.timeout k true ⟨0, 0, 0⟩) =
        some v := by
      have hl' : (w.cancel k).live k (·.txtimer) = true := by
        unfold KeyHost.live
        rw [hget]
        exact Bool.and_eq_true _ _ ▸ ⟨hdel, ht⟩
      change (if (w.cancel k).live k (·.txtimer) then
        (w.cancel k).objs[k]?.bind fun x => (w.cancel k).retransmit k x true ⟨0, 0, 0⟩
        else none) = some v
      rw [if_pos hl', hget]
      exact hv
    have hrun : (keyHost hostIdent target c).run (w.cancel k) [.timeout k true ⟨0, 0, 0⟩] =
        some v := by
      rw [Machine.run_cons, hstep]
      rfl
    obtain ⟨z, hz, hzl⟩ := hall _ v hrun
    obtain rfl : y = z := Option.some.inj (hy.symm.trans hz)
    exact absurd (hlog.symm.trans hzl) (List.cons_ne_self _ _)
  · intro ht ops v hr
    obtain ⟨y, hy, -, -, hlog⟩ := KeyHost.still_of_run hw' ⟨_, hget, rfl, ht, rfl⟩ hr
    exact ⟨y, hy, hlog⟩

/-- An initiator that is cancelled while it waits for an answer, and whose timer then expires. -/
theorem cancel_not_final : ∃ (w w' v : KeyHost) (x y : Attempt) (m : Message),
    (keyHost 1 .null fun _ => toHost2).run (keyHost 1 .null fun _ => toHost2).init
      [.create ⟨7, 0, 1, .ip 7, 0, 5, 3⟩ ⟨1, 1, 1⟩] = some w ∧
    (keyHost 1 .null fun _ => toHost2).step w (.cancel 0) = some w' ∧
    (keyHost 1 .null fun _ => toHost2).run w'
      [.timeout 0 false ⟨1, 1, 1⟩, .timeout 0 true ⟨1, 1, 1⟩] = some v ∧
    w.objs[0]? = some x ∧ v.objs[0]? = some y ∧ y.deleted = false ∧
    y.log = .completed false :: .sent m :: x.log :=
  ⟨_, _, _, _, _, _, rfl, rfl, rfl, rfl, rfl, rfl, rfl⟩

/-- An initiator for an address that is answered, and cancelled afterwards. -/
theorem cancel_final_answered : ∃ w w' x, w.objs[0]? = some x ∧ x.txtimer = false ∧
    (keyHost 1 .null fun _ => toHost2).step w (.cancel 0) = some w' ∧
    ∀ ops v, (keyHost 1 .null fun _ => toHost2).run w' ops = some v →
      ∃ y, v.objs[0]? = some y ∧ y.log = x.log := by
  have hrun : ∃ w w' x, (keyHost 1 .null fun _ => toHost2).run
      (keyHost 1 .null fun _ => toHost2).init answeredTwice = some w ∧ w.objs[0]? = some x ∧
      x.txtimer = false ∧ (keyHost 1 .null fun _ => toHost2).step w (.cancel 0) = some w' :=
    ⟨_, _, _, rfl, rfl, rfl, rfl⟩
  obtain ⟨w, w', x, hw, hx, ht, hs⟩ := hrun
  exact ⟨w, w', x, hx, ht, hs, (cancel_final (Machine.reach_of_run hw) hx hs).2 ht⟩

end Sst.Key
