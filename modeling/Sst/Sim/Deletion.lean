import Sst.Sim.Arrival

/-!
# Packets and hosts are deleted

* **`reap_spec`**: the pending deletion of a packet.
* **`orphan_spec`**: the end of a host; the packets on their way to it are missed.
-/

namespace Sst.Sim

open Simulator Partiality

variable {s t : Simulator} {h n : ℕ}

/-! ## Packets -/

theorem Sound.delete (hs : Sound s []) (hc : Clock s) {p : SimPacket}
    (hpn : s.packets n = some p) (hdy : p.dying = true)
    (hqueue : ∀ k host, t.hosts k = some host → ∀ m ∈ host.pqueue,
      m ≠ n ∧ ∃ P q, s.passages m = some P ∧ s.packets m = some q ∧ q.dsth = some k)
    (hstay : ∀ m P q k, s.passages m = some P → s.packets m = some q → q.dsth = some k → m ≠ n →
      ∃ host, t.hosts k = some host ∧ m ∈ host.pqueue)
    (ht : t = { s.stopTimer (.packet n) with
      packets := Function.update s.packets n none, hosts := t.hosts }) : Sound t [] := by
  obtain ⟨hp, hq, hr, hf⟩ := hs
  have hrest : (s.stopTimer (.packet n)).nextPacket = s.nextPacket ∧
      (s.stopTimer (.packet n)).links = s.links ∧
      (s.stopTimer (.packet n)).received = s.received ∧
      (s.stopTimer (.packet n)).missed = s.missed := by
    unfold stopTimer
    split_ifs <;> exact ⟨rfl, rfl, rfl, rfl⟩
  obtain ⟨hnext, hlinks, hreceived, hmissed⟩ := hrest
  have hnext : t.nextPacket = s.nextPacket := by rw [ht, ← hnext]
  have hlinks : t.links = s.links := by rw [ht, ← hlinks]
  have hreceived : t.received = s.received := by rw [ht, ← hreceived]
  have hmissed : t.missed = s.missed := by rw [ht, ← hmissed]
  have hpassages : t.passages = s.passages := by rw [ht]; exact stopTimer_passages
  have hpackets : ∀ m q, t.packets m = some q → m ≠ n ∧ s.packets m = some q := fun m q hm => by
    rw [ht] at hm
    dsimp only at hm
    rw [Function.update_apply] at hm
    split_ifs at hm with hmn
    exact ⟨hmn, hm⟩
  have hother : ∀ m, m ≠ n → t.packets m = s.packets m := fun m hmn => by
    rw [ht]
    exact Function.update_of_ne hmn ..
  have htimers : ∀ m, Timer.packet m ∈ t.timers ↔ Timer.packet m ∈ s.timers ∧ m ≠ n := fun m => by
    rw [ht]
    refine (mem_stopTimer hc).trans ?_
    rw [ne_eq, Timer.packet.injEq]
  have hwake : ∀ m, m ≠ n → t.wake (.packet m) = s.wake (.packet m) := fun m hmn => by
    rw [ht]
    refine stopTimer_wake.trans (if_neg fun heq => hmn (Timer.packet.inj heq.1))
  refine ⟨⟨?_, ?_, ?_, ?_⟩,
    ⟨fun m q hm => ?_, fun m hm => ?_, fun m P q k hP hm hk => ?_, fun k host hk m hm => ?_⟩,
    ⟨fun r hrm => ?_, fun r hrm hin => ?_, fun r hrm m hm hsame => ?_, ?_⟩,
    ⟨fun m P hP => ?_, fun m P q hP hm hqd => ?_⟩⟩
  · rw [hnext, hpassages]
    exact hp.recorded
  · rw [hpassages]
    exact hp.within
  · rw [hpassages, hlinks]
    exact hp.arrival
  · rw [hpassages]
    exact hp.spaced
  · rw [hnext]
    exact hq.fresh m q (hpackets m q hm).2
  · obtain ⟨hm, hmn⟩ := (htimers m).mp hm
    rw [hpassages, hother m hmn, hwake m hmn]
    exact hq.flying m hm
  · obtain ⟨hmn, hm⟩ := hpackets m q hm
    rw [hpassages] at hP
    exact ⟨(hq.dest m P q k hP hm hk).1, hstay m P q k hP hm hk hmn⟩
  · obtain ⟨hmn, P, q, hP, hqm, hqk⟩ := hqueue k host hk m hm
    rw [hpassages]
    exact ⟨P, q, hP, (hother m hmn).trans hqm, hqk⟩
  · rw [hreceived] at hrm
    rw [hpassages, show t.cur = s.cur by rw [ht]; exact stopTimer_cur]
    exact hr.exact r hrm
  · rw [hreceived] at hrm
    exact hr.spent r hrm ((htimers _).mp hin).1
  · rw [hreceived] at hrm
    exact hr.ahead r hrm m ((htimers m).mp hm).1 ((same_congr hpassages).mp hsame)
  · rw [hreceived]
    exact hr.fifo.imp fun {a b} hab => ⟨hab.1, fun hsame => hab.2 ((same_congr hpassages).mp hsame)⟩
  · rw [hpassages] at hP
    rw [htimers, hreceived, hmissed]
    obtain hfl | hrest := hf.fate m P hP
    · by_cases hmn : m = n
      · rw [hmn] at hP ⊢
        exact .inr ((hf.dying n P p hP hpn hdy).imp_right .inl)
      · exact .inl ⟨hfl, hmn⟩
    · exact .inr hrest
  · rw [hpassages] at hP
    rw [hreceived, hmissed]
    exact hf.dying m P q hP (hpackets m q hm).2 hqd

/-- **The pending deletion of a packet**: it is done if its host is there. -/
theorem reap_spec (hs : Sound s []) (hc : Clock s) :
    Yields (∃ p, s.packets n = some p ∧ p.dying = true ∧
        ∀ h, p.dsth = some h → ∃ host, s.hosts h = some host)
      (fun t => Sound t [] ∧ Clock t) (s.reap n) := by
  have hstop : ∀ k, (s.stopTimer (.packet n)).hosts k = s.hosts k := fun k => by
    unfold stopTimer
    split_ifs <;> rfl
  unfold reap
  cases hpn : s.packets n with
  | none => exact ⟨nofun, fun hp => by obtain ⟨p, hp, -⟩ := hp; cases hp⟩
  | some p =>
    rw [Option.bind_some]
    cases hdy : p.dying with
    | false =>
      refine ⟨nofun, fun hp => ?_⟩
      obtain ⟨q, hq, hqd, -⟩ := hp
      cases hq
      rw [hdy] at hqd
      cases hqd
    | true =>
      rw [Bool.not_true, if_neg Bool.false_ne_true]
      dsimp only
      cases hdsth : p.dsth with
      | none =>
        refine .some ⟨hs.delete hc hpn hdy (fun k host hk m hm => ?_)
          (fun m P q k hP hm hk hmn => ?_) rfl, (hc.stopTimer (.packet n)).congr rfl rfl rfl rfl⟩
        · obtain ⟨P, q, hP, hqm, hqk⟩ := hs.queued.queue k host ((hstop k).symm.trans hk) m hm
          refine ⟨fun hmn => ?_, P, q, hP, hqm, hqk⟩
          rw [hmn, hpn] at hqm
          cases hqm
          rw [hdsth] at hqk
          cases hqk
        · obtain ⟨-, host, hhost, hmem⟩ := hs.queued.dest m P q k hP hm hk
          exact ⟨host, (hstop k).trans hhost, hmem⟩
      | some h =>
        dsimp only
        cases hhost : s.hosts h with
        | none =>
          refine ⟨nofun, fun hp => ?_⟩
          obtain ⟨q, hq, -, hqh⟩ := hp
          cases hq
          obtain ⟨host, hq⟩ := hqh h hdsth
          rw [hhost] at hq
          cases hq
        | some host =>
          have hmod : ∀ (u : Simulator) k, u.hosts = (s.stopTimer (.packet n)).hosts →
              (u.modHost h fun host =>
                { host with pqueue := host.pqueue.filter (· ≠ n) }).hosts k =
              (s.modHost h fun host =>
                { host with pqueue := host.pqueue.filter (· ≠ n) }).hosts k := by
            intro u k hu
            rw [modHost_hosts, modHost_hosts, hu, hstop, hstop]
          refine .some ⟨hs.delete hc hpn hdy (fun k host hk m hm => ?_)
            (fun m P q k hP hm hk hmn => ?_) rfl,
            (hc.stopTimer (.packet n)).congr rfl rfl rfl rfl⟩
          · exact hs.queued.leave hpn hdsth ((hmod _ k rfl).symm.trans hk) hm
          · obtain ⟨host, hhost, hmem⟩ := hs.queued.stay hP hm hk hmn
            exact ⟨host, (hmod _ k rfl).trans hhost, hmem⟩

/-! ## Hosts -/

/-- **The end of a host**: the packets on their way to it are missed. -/
theorem orphan_spec (hs : Sound s []) (hc : Clock s) {host : SimHost}
    (hhost : s.hosts h = some host) (hlinks : host.links = []) :
    ∃ t, s.orphan h = some t ∧ Sound t [] ∧ Clock t ∧ t.links = s.links ∧
      t.hosts = Function.update s.hosts h none := by
  have hq := hs.queued
  have hpqueue : (host.pqueue.any fun m => (s.packets m).bind SimPacket.dsth ≠ some h) = false := by
    rw [List.any_eq_false]
    intro m hm
    obtain ⟨-, p, -, hp, hph⟩ := hq.queue h host hhost m hm
    rw [hp, Option.bind_some, hph]
    simp
  unfold orphan
  rw [hhost, Option.bind_some, if_neg (not_not.mpr hlinks), hpqueue, if_neg Bool.false_ne_true]
  refine ⟨_, rfl, ?_, hc.congr rfl rfl rfl rfl, rfl, rfl⟩
  generalize ht : ({ s with
    hosts := Function.update s.hosts h none
    packets := fun m =>
      if host.pqueue.contains m then
        (s.packets m).map fun p => { p with dsth := none, dying := true }
      else s.packets m
    missed := host.pqueue ++ s.missed
    gone := h :: s.gone } : Simulator) = t
  have hpackets : ∀ m, t.packets m = if m ∈ host.pqueue then
      (s.packets m).map fun p => { p with dsth := none, dying := true } else s.packets m :=
    fun m => by rw [← ht]; simp only [List.contains_iff_mem]
  have hmissed : t.missed = host.pqueue ++ s.missed := by rw [← ht]
  have hhosts : t.hosts = Function.update s.hosts h none := by rw [← ht]
  obtain ⟨hp, hq, hr, hf⟩ := hs
  refine ⟨by rw [← ht]; exact ⟨hp.recorded, hp.within, hp.arrival, hp.spaced⟩,
    ⟨fun m q hm => ?_, fun m hm => ?_, fun m P q k hP hm hk => ?_, fun k host' hk m hm => ?_⟩,
    by rw [← ht]; exact ⟨hr.exact, hr.spent, hr.ahead, hr.fifo⟩,
    ⟨fun m P hP => ?_, fun m P q hP hm hdy => ?_⟩⟩
  · have hnext : t.nextPacket = s.nextPacket := by rw [← ht]
    rw [hnext]
    rw [hpackets] at hm
    split_ifs at hm
    · obtain ⟨q', hq', -⟩ := Option.map_eq_some_iff.mp hm
      exact hq.fresh m q' hq'
    · exact hq.fresh m q hm
  · have hm' : Timer.packet m ∈ s.timers := by rw [← ht] at hm; exact hm
    obtain ⟨P, p, hP, hpm, hw, hbuf, hdst⟩ := hq.flying m hm'
    have hP' : t.passages m = some P := by rw [← ht]; exact hP
    have hw' : t.wake (.packet m) = P.arr := by rw [← ht]; exact hw
    rw [hpackets, hpm]
    split_ifs
    · exact ⟨P, _, hP', rfl, hw', hbuf, hdst⟩
    · exact ⟨P, p, hP', rfl, hw', hbuf, hdst⟩
  · rw [hpackets] at hm
    split_ifs at hm with hmem
    · obtain ⟨q', -, rfl⟩ := Option.map_eq_some_iff.mp hm
      cases hk
    · obtain ⟨hPk, host', hhost', hmem'⟩ :=
        hq.dest m P q k (by rw [← ht] at hP; exact hP) hm hk
      refine ⟨hPk, host', ?_, hmem'⟩
      rw [hhosts, Function.update_of_ne fun hkh => hmem ?_]
      · exact hhost'
      · rw [hkh, hhost] at hhost'
        exact Option.some.inj hhost' ▸ hmem'
  · rw [hhosts, Function.update_apply] at hk
    split_ifs at hk with hkh
    obtain ⟨P, p, hP, hpm, hpk⟩ := hq.queue k host' hk m hm
    rw [hpackets, if_neg fun hmem => hkh ?_]
    · exact ⟨P, p, by rw [← ht]; exact hP, hpm, hpk⟩
    · obtain ⟨-, p', -, hpm', hph⟩ := hq.queue h host hhost m hmem
      rw [hpm] at hpm'
      cases hpm'
      exact Option.some.inj (hpk.symm.trans hph)
  · have hP' : s.passages m = some P := by rw [← ht] at hP; exact hP
    rw [hmissed]
    rw [show t.timers = s.timers by rw [← ht], show t.received = s.received by rw [← ht]]
    exact (hf.fate m P hP').imp_right (Or.imp_right (Or.imp_left (List.mem_append_right _)))
  · have hP' : s.passages m = some P := by rw [← ht] at hP; exact hP
    rw [hmissed, show t.received = s.received by rw [← ht]]
    rw [hpackets] at hm
    split_ifs at hm with hmem
    · exact .inr (List.mem_append_left _ hmem)
    · exact (hf.dying m P q hP' hm hdy).imp_right (List.mem_append_right _)

end Sst.Sim
