import Sst.KeyHost.Steps

/-!
# Completion

An initiator completes once, whatever responses arrive, in whatever order and however often.

* `Attempt.Settled`: what an initiator has done, by its state.
* `Attempt.Act.settled`, `KeyHost.Micro.settled`: one action, one step.
* **`single_completion`**: every run.
-/

namespace Sst.Key

open Symbolic Transition

/-- The signal is `completed`. -/
def Signal.isCompleted : Signal → Bool
  | .completed _ => true
  | _ => false

/-- Only messages were sent. -/
def OnlySent (l : List Signal) : Prop := ∀ s ∈ l, ∃ m, s = .sent m

/-- **What an initiator has done**: it sends until it is done; then it emitted `completed` last,
right after it started its flow or with a failure, and its timer does not run. -/
inductive Attempt.Settled (x : Attempt) : Prop
  | going (hs : x.state ≠ .done) (hl : OnlySent x.log)
  | succeeded (hs : x.state = .done) (ht : x.txtimer = false) (l : List Signal) (hl : OnlySent l)
      (he : x.log = .completed true :: .started :: .armed :: l)
  | failed (hs : x.state = .done) (ht : x.txtimer = false) (l : List Signal) (hl : OnlySent l)
      (he : x.log = .completed false :: l)

namespace Attempt

variable {x y : Attempt}

theorem Settled.onlySent (h : x.Settled) (hd : x.state ≠ .done) : OnlySent x.log := by
  cases h with
  | going _ hl => exact hl
  | succeeded hs => exact absurd hs hd
  | failed hs => exact absurd hs hd

theorem Settled.txtimer (h : x.Settled) (hd : x.state = .done) : x.txtimer = false := by
  cases h with
  | going hs => exact absurd hd hs
  | succeeded _ ht => exact ht
  | failed _ ht => exact ht

theorem Settled.congr (h : x.Settled) (hs : y.state = x.state) (hl : y.log = x.log)
    (ht : x.state = .done → x.txtimer = false → y.txtimer = false) : y.Settled := by
  cases h with
  | going hd h => exact .going (hs ▸ hd) (hl ▸ h)
  | succeeded hd htx l h he => exact .succeeded (hs.trans hd) (ht hd htx) l h (hl.trans he)
  | failed hd htx l h he => exact .failed (hs.trans hd) (ht hd htx) l h (hl.trans he)

theorem Settled.sent (h : x.Settled) (hd : x.state ≠ .done) (hs : y.state ≠ .done) {m : Message}
    (hl : y.log = .sent m :: x.log) : y.Settled := by
  refine .going hs ?_
  rw [hl]
  exact List.forall_mem_cons.2 ⟨⟨m, rfl⟩, h.onlySent hd⟩

/-- **One action.** -/
theorem Act.settled (ha : x.Act y) (h : x.Settled) : y.Settled := by
  cases ha with
  | tune hi hs he hl ht => exact h.congr hs hl ht
  | sendI1 hd hi hs he m hl hm => exact h.sent hd (by rw [hs]; decide) hl
  | sendDhI2 hd hr hi hs he d hl => exact h.sent hd (by rw [hs]; decide) hl
  | finish hd hi hs he ht hl => exact .succeeded hs ht _ (h.onlySent hd) hl
  | fail hd hi hs he ht hl => exact .failed hs ht _ (h.onlySent hd) hl
  | remove he hr h' =>
    subst h'
    exact h.congr rfl rfl fun _ h => h

theorem Act.done (ha : x.Act y) (hd : x.state = .done) : y.state = .done ∧ y.log = x.log := by
  cases ha with
  | tune hi hs he hl => exact ⟨hs.trans hd, hl⟩
  | sendI1 h => exact absurd hd h
  | sendDhI2 h => exact absurd hd h
  | finish h => exact absurd hd h
  | fail h => exact absurd hd h
  | remove he hr h' =>
    subst h'
    exact ⟨hd, rfl⟩

/-! ## What a settled initiator has done -/

theorem countP_onlySent {l : List Signal} (h : OnlySent l) {P : Signal → Bool}
    (hP : ∀ m, P (.sent m) = false) : l.countP P = 0 := by
  rw [List.countP_eq_zero]
  intro s hs
  obtain ⟨m, rfl⟩ := h s hs
  rw [hP]
  exact Bool.false_ne_true

theorem not_mem_onlySent {l : List Signal} (h : OnlySent l) {s : Signal} (hs : ∀ m, s ≠ .sent m) :
    s ∉ l := by
  intro hm
  obtain ⟨m, rfl⟩ := h s hm
  exact hs m rfl

/-- A settled initiator has done nothing twice. -/
theorem Settled.once (h : x.Settled) : x.log.countP (·.isCompleted) ≤ 1 ∧
    x.log.count .armed ≤ 1 ∧ x.log.count .started ≤ 1 ∧
    (.started ∈ x.log ↔ .completed true ∈ x.log) := by
  have hc : ∀ l, OnlySent l → l.countP (·.isCompleted) = 0 ∧ l.count .armed = 0 ∧
      l.count .started = 0 := fun l hl =>
    ⟨countP_onlySent hl fun _ => rfl, countP_onlySent hl fun _ => rfl,
      countP_onlySent hl fun _ => rfl⟩
  have hn : ∀ l, OnlySent l → .started ∉ l ∧ ∀ b, .completed b ∉ l := fun l hl =>
    ⟨not_mem_onlySent hl nofun, fun b => not_mem_onlySent hl nofun⟩
  cases h with
  | going hs hl =>
    obtain ⟨h1, h2, h3⟩ := hc _ hl
    exact ⟨h1.le.trans zero_le_one, h2.le.trans zero_le_one, h3.le.trans zero_le_one,
      ⟨fun h => absurd h (hn _ hl).1, fun h => absurd h ((hn _ hl).2 true)⟩⟩
  | succeeded hs ht l hl he =>
    obtain ⟨h1, h2, h3⟩ := hc l hl
    rw [he]
    refine ⟨?_, ?_, ?_, ⟨fun _ => List.mem_cons_self, fun _ => by simp⟩⟩
    · simp only [List.countP_cons, h1]
      decide
    · simp [h2]
    · simp [h3]
  | failed hs ht l hl he =>
    obtain ⟨h1, h2, h3⟩ := hc l hl
    obtain ⟨h4, h5⟩ := hn l hl
    rw [he]
    refine ⟨?_, ?_, ?_, ⟨fun h => ?_, fun h => ?_⟩⟩
    · simp only [List.countP_cons, h1]
      decide
    · simp [h2]
    · simp [h3]
    · exact absurd ((List.mem_cons.1 h).resolve_left nofun) h4
    · exact absurd ((List.mem_cons.1 h).resolve_left nofun) (h5 true)

theorem Settled.done (h : x.Settled) {b : Bool} (hb : .completed b ∈ x.log) : x.state = .done := by
  cases h with
  | going hs hl => exact absurd hb (not_mem_onlySent hl nofun)
  | succeeded hs => exact hs
  | failed hs => exact hs

end Attempt

namespace KeyHost

variable {w w' : KeyHost} {k : ℕ} {x : Attempt}

/-! ## One step -/

/-- The initiator is done, and has done no more. -/
def Ended (w : KeyHost) (k : ℕ) (l : List Signal) : Prop :=
  Named w.objs k fun x => x.state = .done ∧ x.log = l

/-- **Elementary steps** keep the initiators settled. -/
theorem Micro.settled (hm : Micro w w') (h : ∀ x ∈ w.objs, x.Settled) :
    ∀ x ∈ w'.objs, x.Settled := by
  cases hm with
  | frame h' initors up => exact h
  | act k x y hx ha =>
    intro z hz
    rcases List.mem_or_eq_of_mem_set hz with hz | rfl
    · exact h z hz
    · exact ha.settled (h x (List.mem_of_getElem? hx))
  | cancel k =>
    intro z hz
    unfold KeyHost.cancel at hz
    cases hx : w.objs[k]? with
    | none =>
      rw [hx] at hz
      exact h z hz
    | some x =>
      rw [hx] at hz
      rcases List.mem_or_eq_of_mem_set hz with hz | rfl
      · exact h z hz
      · exact (h x (List.mem_of_getElem? hx)).congr rfl rfl fun _ h => h
  | create x y hx hi hs he m hl =>
    intro z hz
    rcases List.mem_append.1 hz with hz | hz
    · exact h z hz
    · rw [List.mem_singleton.1 hz]
      refine .going (by rw [hs]; decide) ?_
      rw [hl]
      exact List.forall_mem_singleton.2 ⟨m, rfl⟩
  | unknown =>
    intro z hz
    rcases List.mem_append.1 hz with hz | hz
    · exact h z hz
    · rw [List.mem_singleton.1 hz]
      exact .failed rfl rfl [] (fun _ hs => absurd hs List.not_mem_nil) rfl

theorem Path.settled (hp : Path w w') (h : ∀ x ∈ w.objs, x.Settled) : ∀ x ∈ w'.objs, x.Settled :=
  hp.invariant (fun _ _ hm => hm.settled) h

/-- **Elementary steps** leave an initiator that is done alone. -/
theorem Micro.ended (hm : Micro w w') {l : List Signal} (h : Ended w k l) : Ended w' k l := by
  cases hm with
  | frame h' initors up => exact h
  | act j x y hx ha =>
    refine Named.set h hx fun _ hP => ?_
    obtain ⟨h1, h2⟩ := ha.done hP.1
    exact ⟨h1, h2.trans hP.2⟩
  | cancel j =>
    unfold KeyHost.cancel
    cases hx : w.objs[j]? with
    | none => exact h
    | some x => exact Named.set h hx fun _ hP => hP
  | create x y hx hi => exact Named.append h y
  | unknown => exact Named.append h _

theorem Path.ended (hp : Path w w') {l : List Signal} (h : Ended w k l) : Ended w' k l :=
  hp.invariant (fun _ _ hm => hm.ended) h

/-! ## Runs -/

/-- The tables and what the initiators have done. -/
structure Sound (w : KeyHost) : Prop where
  tables : Tables w
  settled : ∀ x ∈ w.objs, x.Settled

theorem Sound.step (hw : Sound w) {target : Ident} {op : Op} (h : w.step target op = some w') :
    Sound w' ∧ ∀ k l, Ended w k l → Ended w' k l := by
  rcases step_cases hw.tables (fun x hx => (hw.settled x hx).txtimer) h with
    hp | ⟨j, m, src, r, a, -, rfl⟩ | ⟨j, f, rfl, -⟩
  · exact ⟨⟨hp.tables hw.tables, hp.settled hw.settled⟩, fun _ _ => hp.ended⟩
  · exact ⟨⟨⟨hw.tables.chks, hw.tables.nhis, hw.tables.eps⟩, hw.settled⟩, fun _ _ h => h⟩
  · exact ⟨⟨⟨hw.tables.chks, hw.tables.nhis, hw.tables.eps⟩, hw.settled⟩, fun _ _ h => h⟩

variable {hostIdent : ℕ} {target : Ident} {c : ℕ → Config}

theorem sound_of_reach {C : KeyHost → Op → Prop} (h : (keyHost hostIdent target c).Reach C w) :
    Sound w :=
  h.invariant ⟨⟨nofun, nofun, fun _ _ hk => absurd hk List.not_mem_nil⟩,
    fun _ hx => absurd hx List.not_mem_nil⟩ fun _ _ _ _ ih _ hs => (ih.step hs).1

/-- **Every run** leaves an initiator that is done alone. -/
theorem ended_of_run (hw : Sound w) {k : ℕ} {l : List Signal} (h : Ended w k l) (ops : List Op)
    (hr : (keyHost hostIdent target c).run w ops = some w') : Ended w' k l := by
  induction ops generalizing w with
  | nil =>
    cases hr
    exact h
  | cons op ops ih =>
    rw [Machine.run_cons] at hr
    obtain ⟨v, hv, hr⟩ := Option.bind_eq_some_iff.1 hr
    obtain ⟨h1, h2⟩ := hw.step hv
    exact ih h1 (h2 k l h) hr

end KeyHost

/-- **Single completion.** In every run, an initiator emits `completed` at most once and arms and
starts its flow at most once; it has started its flow exactly if it emitted `completed(true)`; and
after `completed` it stays done and does nothing more, in every continuation of the run. -/
theorem single_completion {hostIdent : ℕ} {target : Ident} {c : ℕ → Config} {w : KeyHost}
    (h : (keyHost hostIdent target c).Reach Machine.always w) {k : ℕ} {x : Attempt}
    (hx : w.objs[k]? = some x) :
    x.log.countP (·.isCompleted) ≤ 1 ∧ x.log.count .armed ≤ 1 ∧ x.log.count .started ≤ 1 ∧
    (.started ∈ x.log ↔ .completed true ∈ x.log) ∧
    ∀ b, .completed b ∈ x.log → x.state = .done ∧
      ∀ ops w', (keyHost hostIdent target c).run w ops = some w' →
        ∃ y, w'.objs[k]? = some y ∧ y.state = .done ∧ y.log = x.log := by
  have hw := KeyHost.sound_of_reach h
  have hs := hw.settled x (List.mem_of_getElem? hx)
  obtain ⟨h1, h2, h3, h4⟩ := hs.once
  refine ⟨h1, h2, h3, h4, fun b hb => ⟨hs.done hb, fun ops w' hr => ?_⟩⟩
  exact KeyHost.ended_of_run hw ⟨x, hx, hs.done hb, rfl⟩ ops hr

/-- An initiator for an address, which is answered twice. -/
def answeredTwice : List KeyHost.Op :=
  [.create ⟨7, 0, 1, .ip 7, 0, 5, 3⟩ ⟨1, 1, 1⟩,
    .receive [.chkR1 ⟨5, 6, 2, [], []⟩] 7 [0] ⟨1, 1, 1⟩,
    .receive [.chkR1 ⟨5, 8, 2, [], []⟩] 7 [0] ⟨1, 1, 1⟩]

theorem single_completion_answeredTwice : ∃ (w : KeyHost) (x : Attempt), w.objs[0]? = some x ∧
    .completed true ∈ x.log ∧ x.log.count .started ≤ 1 := by
  have hrun : ∃ w, (keyHost 1 .null fun _ => toHost2).run (keyHost 1 .null fun _ => toHost2).init
      answeredTwice = some w ∧ ∃ x, w.objs[0]? = some x ∧ .completed true ∈ x.log :=
    ⟨_, rfl, _, rfl, by decide⟩
  obtain ⟨w, hw, x, hx, hc⟩ := hrun
  exact ⟨w, x, hx, hc, (single_completion (Machine.reach_of_run hw) hx).2.2.1⟩

end Sst.Key
