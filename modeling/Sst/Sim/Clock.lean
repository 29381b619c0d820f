import Sst.Sim.State

/-!
# The clock of the simulator

* `Same s m n`: two packets that took the same direction of a link.
* `Clock s`: the timers are in the order of their wake times, and none is overdue; packets on one
  direction of a link are in the order in which they were sent.
* **`Clock.startTimer`**, **`Clock.stopTimer`**, **`Clock.fire`**: the timer engine keeps it.
* **`Clock.run_late`**: a time to wake that does not fit fails an assertion in the next round.
-/

namespace Sst.Sim

open Simulator

variable {s : Simulator} {t u : Timer} {usecs : ℕ}

/-- Two packets that took the same direction of a link. -/
def Same (s : Simulator) (m n : ℕ) : Prop :=
  ∃ P Q, s.passages m = some P ∧ s.passages n = some Q ∧ P.link = Q.link ∧ P.dir = Q.dir

/-- A timer may go before another. -/
def Tie (s : Simulator) (a b : Timer) : Prop :=
  ∀ m n, a = .packet m → b = .packet n → Same s m n → m ≤ n

/-- The timers are in order, and none is overdue. -/
structure Clock (s : Simulator) : Prop where
  nonneg : 0 ≤ s.cur
  nodup : s.timers.Nodup
  active : ∀ t, t ∈ s.timers ↔ 0 ≤ s.wake t
  sorted : s.timers.Pairwise fun a b => s.wake a ≤ s.wake b ∧ Tie s a b
  now : ∀ t ∈ s.timers, s.cur ≤ s.wake t

/-! ## Stopping -/

theorem stopTimer_wake :
    (s.stopTimer t).wake u = if u = t ∧ 0 ≤ s.wake t then -1 else s.wake u := by
  unfold stopTimer
  split_ifs with h h'
  · omega
  · rfl
  · rename_i hut
    exact (Function.update_apply ..).trans (if_pos hut.1)
  · rename_i hut
    exact Function.update_of_ne (fun heq => hut ⟨heq, not_lt.mp h⟩) ..

theorem mem_stopTimer (h : Clock s) : u ∈ (s.stopTimer t).timers ↔ u ∈ s.timers ∧ u ≠ t := by
  unfold stopTimer
  split_ifs with hwake
  · refine ⟨fun hu => ⟨hu, fun heq => ?_⟩, And.left⟩
    have := (h.active u).mp hu
    rw [heq] at this
    omega
  · simp

@[simp] theorem stopTimer_cur : (s.stopTimer t).cur = s.cur := by
  unfold stopTimer; split_ifs <;> rfl

@[simp] theorem stopTimer_passages : (s.stopTimer t).passages = s.passages := by
  unfold stopTimer; split_ifs <;> rfl

theorem stopTimer_sublist : (s.stopTimer t).timers.Sublist s.timers := by
  unfold stopTimer
  split_ifs
  · exact List.Sublist.refl _
  · exact List.filter_sublist

theorem tie_congr {s' : Simulator} (h : s'.passages = s.passages) {a b : Timer} :
    Tie s' a b ↔ Tie s a b := by
  unfold Tie Same
  rw [h]

/-- The clock does not depend on hosts, packets and what was received. -/
theorem Clock.congr {s' : Simulator} (hc : Clock s) (hcur : s'.cur = s.cur)
    (hts : s'.timers = s.timers)
    (hw : s'.wake = s.wake) (hp : s'.passages = s.passages) : Clock s' := by
  refine ⟨hcur ▸ hc.nonneg, hts ▸ hc.nodup, ?_, ?_, ?_⟩
  · rw [hts, hw]
    exact hc.active
  · rw [hts, hw]
    exact hc.sorted.imp fun {a b} hab => ⟨hab.1, (tie_congr hp).mpr hab.2⟩
  · rw [hts, hw, hcur]
    exact hc.now

theorem Clock.stopTimer (h : Clock s) (t : Timer) : Clock (s.stopTimer t) := by
  have hwake : ∀ u ∈ (s.stopTimer t).timers, (s.stopTimer t).wake u = s.wake u := fun u hu => by
    rw [stopTimer_wake, if_neg fun heq => ((mem_stopTimer h).mp hu).2 heq.1]
  refine ⟨by rw [stopTimer_cur]; exact h.nonneg, h.nodup.sublist stopTimer_sublist, fun u => ?_, ?_,
    fun u hu => ?_⟩
  · rw [mem_stopTimer h, stopTimer_wake]
    have hu := h.active u
    have ht := h.active t
    split_ifs with heq
    · obtain ⟨rfl, -⟩ := heq
      simp
    · rw [hu]
      refine ⟨And.left, fun hle => ⟨hle, fun hut => heq ⟨hut, hut ▸ hle⟩⟩⟩
  · refine ((h.sorted.sublist stopTimer_sublist).imp_of_mem fun {a b} ha hb hab => ?_)
    rw [hwake a ha, hwake b hb, tie_congr stopTimer_passages]
    exact hab
  · rw [hwake u hu, stopTimer_cur]
    exact h.now u ((mem_stopTimer h).mp hu).1

/-! ## Starting -/

theorem mem_startTimer (h : Clock s) :
    u ∈ (s.startTimer t usecs).timers ↔ u = t ∨ u ∈ s.timers := by
  change u ∈ Priority.insertBehind _ _ _ ↔ _
  rw [Priority.mem_insertBehind, mem_stopTimer h]
  tauto

theorem startTimer_wake :
    (s.startTimer t usecs).wake u =
      if u = t then Word.wrap 64 (s.cur + usecs) else s.wake u := by
  unfold startTimer
  dsimp only
  rw [Function.update_apply, stopTimer_cur]
  split_ifs with hut
  · rfl
  · rw [stopTimer_wake, if_neg fun heq => hut heq.1]

theorem Clock.wrap_eq (h : Clock s) (hfit : s.cur + usecs < 2 ^ 63) :
    Word.wrap 64 (s.cur + usecs) = s.cur + usecs :=
  Word.wrap_eq_self (by decide) (by have := h.nonneg; omega) hfit

@[simp] theorem startTimer_cur : (s.startTimer t usecs).cur = s.cur := stopTimer_cur

@[simp] theorem startTimer_passages : (s.startTimer t usecs).passages = s.passages :=
  stopTimer_passages

/-- **A timer is started**: it goes behind those that wake no later. -/
theorem Clock.startTimer (h : Clock s) (hfit : s.cur + usecs < 2 ^ 63)
    (hbehind : ∀ u ∈ s.timers, s.wake u ≤ s.cur + usecs → Tie s u t)
    (hahead : ∀ u ∈ s.timers, s.cur + usecs < s.wake u → Tie s t u) :
    Clock (s.startTimer t usecs) := by
  have hstop := h.stopTimer t
  have hwrap := h.wrap_eq hfit
  have hnot : t ∉ (s.stopTimer t).timers := fun ht => ((mem_stopTimer h).mp ht).2 rfl
  have hold : ∀ u ∈ (s.stopTimer t).timers, u ∈ s.timers ∧ u ≠ t ∧
      (s.stopTimer t).wake u = s.wake u := fun u hu => by
    obtain ⟨hu, hne⟩ := (mem_stopTimer h).mp hu
    exact ⟨hu, hne, by rw [stopTimer_wake, if_neg fun heq => hne heq.1]⟩
  refine ⟨by rw [startTimer_cur]; exact h.nonneg, Priority.nodup_insertBehind hstop.nodup hnot,
    fun u => ?_, ?_, fun u hu => ?_⟩
  · have hnonneg := h.nonneg
    rw [mem_startTimer h, startTimer_wake, hwrap]
    split_ifs with hut
    · exact iff_of_true (.inl hut) (by omega)
    · rw [← h.active u]
      simp [hut]
  · refine Priority.pairwise_insertBehind (hstop.sorted.imp_of_mem fun {a b} ha hb hab => ?_)
      (fun b hb hle => ?_) (fun b hb hgt => ?_) (hstop.sorted.imp fun {a b} hab hb => ?_)
    · obtain ⟨-, hna, hwa⟩ := hold a ha
      obtain ⟨-, hnb, hwb⟩ := hold b hb
      rw [startTimer_wake, startTimer_wake, if_neg hna, if_neg hnb, ← hwa, ← hwb,
        tie_congr startTimer_passages, ← tie_congr stopTimer_passages]
      exact hab
    · obtain ⟨hb, hnb, hwb⟩ := hold b hb
      rw [decide_eq_true_eq, hwb, stopTimer_cur, hwrap] at hle
      rw [startTimer_wake, startTimer_wake, if_neg hnb, if_pos rfl, hwrap,
        tie_congr startTimer_passages]
      exact ⟨hle, hbehind b hb hle⟩
    · obtain ⟨hb, hnb, hwb⟩ := hold b hb
      rw [decide_eq_false_iff_not, hwb, stopTimer_cur, hwrap, not_le] at hgt
      rw [startTimer_wake, startTimer_wake, if_neg hnb, if_pos rfl, hwrap,
        tie_congr startTimer_passages]
      exact ⟨hgt.le, hahead b hb hgt⟩
    · rw [decide_eq_true_eq] at hb ⊢
      exact hab.1.trans hb
  · have hnow := h.now u
    rw [startTimer_wake, startTimer_cur, hwrap]
    split_ifs with hut
    · omega
    · exact hnow (((mem_startTimer h).mp hu).resolve_left hut)

theorem Clock.startApp (h : Clock s) (n : ℕ) (hfit : s.cur + usecs < 2 ^ 63) :
    Clock (s.startTimer (.app n) usecs) :=
  h.startTimer hfit (fun _ _ _ _ _ _ hb => by cases hb) fun _ _ _ _ _ ha => by cases ha

/-- **A time to wake that does not fit** is behind the clock: the next round fails. -/
theorem Clock.run_late (h : Clock s) (hcur : s.cur < 2 ^ 63) (hmax : usecs < 2 ^ 64)
    (hlate : 2 ^ 63 ≤ s.cur + usecs) : (s.startTimer t usecs).run = none := by
  have hwrap : Word.wrap 64 (s.cur + usecs) = s.cur + usecs - 2 ^ 64 := by
    rw [Word.wrap, ← Int.sub_bmod_right]
    exact Word.bmod_eq_of_half (by decide) (by omega) (by omega)
  have htimers : (s.startTimer t usecs).timers = t :: (s.stopTimer t).timers := by
    change Priority.insertBehind _ _ _ = _
    rw [Priority.insertBehind]
    cases hts : (s.stopTimer t).timers with
    | nil => rfl
    | cons u timers =>
      -- The timers of the others are not in the past.
      have hu := (h.stopTimer t).now u (hts ▸ List.mem_cons_self)
      rw [stopTimer_cur] at hu
      rw [stopTimer_cur, hwrap, List.takeWhile_cons_of_neg, List.dropWhile_cons_of_neg]
      · rfl
      all_goals
        rw [decide_eq_true_eq]
        omega
  unfold run
  rw [htimers]
  dsimp only
  rw [if_pos]
  rw [startTimer_wake, if_pos rfl, startTimer_cur, hwrap]
  omega

/-! ## Firing -/

/-- The first timer is taken. -/
def fired (s : Simulator) (next : Timer) (timers : List Timer) : Simulator :=
  { s with timers := timers, cur := s.wake next, wake := Function.update s.wake next (-1) }

/-- **The first timer fires**: the clock goes forward to it. -/
theorem Clock.fire (h : Clock s) {timers : List Timer} (hs : s.timers = t :: timers) :
    s.cur ≤ s.wake t ∧ Clock (fired s t timers) := by
  have hmem : t ∈ s.timers := hs ▸ List.mem_cons_self
  have hnow := h.now t hmem
  have hnd := h.nodup
  have hsort := h.sorted
  rw [hs] at hnd hsort
  obtain ⟨hnot, hnd⟩ := List.nodup_cons.mp hnd
  obtain ⟨hhead, hsort⟩ := List.pairwise_cons.mp hsort
  have hwake : ∀ u, (fired s t timers).wake u = if u = t then -1 else s.wake u := fun u =>
    Function.update_apply ..
  refine ⟨hnow, h.nonneg.trans hnow, hnd, fun u => ?_, ?_, fun u hu => ?_⟩
  · rw [hwake]
    have hu := h.active u
    rw [hs, List.mem_cons] at hu
    split_ifs with hut
    · exact iff_of_false (fun hin => hnot (hut ▸ hin)) (by omega)
    · rw [← hu]
      simp [hut, fired]
  · refine hsort.imp_of_mem fun {a b} ha hb hab => ?_
    rw [hwake, hwake, if_neg (fun heq : a = t => hnot (heq ▸ ha)),
      if_neg (fun heq : b = t => hnot (heq ▸ hb))]
    exact hab
  · rw [hwake, if_neg (fun heq : u = t => hnot (heq ▸ hu))]
    exact (hhead u hu).1

end Sst.Sim
