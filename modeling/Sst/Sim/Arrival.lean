import Sst.Sim.Departure

/-!
# Packets arrive

* `Due s n`: the timer of the packet `n` has fired.
* `Sound.fire`: the traffic stays sound, but for the packet that is due.
* **`arrive_spec`**: a packet that is due is received, or missed.
-/

namespace Sst.Sim

open Simulator Partiality

variable {s t : Simulator} {h n : ℕ}

/-- The timer of the packet `n` has fired. -/
structure Due (s : Simulator) (n : ℕ) : Prop where
  passage : ∃ P p, s.passages n = some P ∧ s.packets n = some p ∧ s.cur = P.arr ∧
    p.buf = P.data ∧ p.dst = P.dst
  idle : Timer.packet n ∉ s.timers
  inactive : s.wake (.packet n) < 0
  last : ∀ r ∈ s.received, r.packet ≠ n ∧ (Same s r.packet n → r.packet < n)
  next : ∀ m, Timer.packet m ∈ s.timers → Same s n m → n < m

/-- **A timer of a packet fires.** -/
theorem Sound.fire (hs : Sound s []) (hc : Clock s) {timers : List Timer}
    (hts : s.timers = .packet n :: timers) :
    Sound (fired s (.packet n) timers) [n] ∧ Due (fired s (.packet n) timers) n := by
  obtain ⟨hp, hq, hr, hf⟩ := hs
  have hmem : Timer.packet n ∈ s.timers := hts ▸ List.mem_cons_self
  have hin : ∀ u ∈ timers, u ∈ s.timers := fun u hu => hts ▸ List.mem_cons_of_mem _ hu
  have hcur := (hc.fire hts).1
  have hnd := hc.nodup
  have hsort := hc.sorted
  rw [hts] at hnd hsort
  have hnot := (List.nodup_cons.mp hnd).1
  have hne : ∀ m, Timer.packet m ∈ timers → m ≠ n := fun m hm heq => hnot (heq ▸ hm)
  have hwake : ∀ u, u ≠ Timer.packet n →
      (fired s (.packet n) timers).wake u = s.wake u := fun u hu => Function.update_of_ne hu ..
  obtain ⟨P, p, hP, hpk, hw, hbuf, hdst⟩ := hq.flying n hmem
  refine ⟨⟨⟨hp.recorded, hp.within, hp.arrival, hp.spaced⟩,
    ⟨hq.fresh, fun m hm => ?_, hq.dest, hq.queue⟩,
    ⟨fun r hrm => ?_, fun r hrm hm => hr.spent r hrm (hin _ hm),
      fun r hrm m hm => hr.ahead r hrm m (hin _ hm), hr.fifo⟩, ⟨fun m Q hQ => ?_, hf.dying⟩⟩,
    ⟨⟨P, p, hP, hpk, hw, hbuf, hdst⟩, hnot, ?_, fun r hrm => ⟨fun heq => ?_, fun hsame => ?_⟩,
      fun m hm hsame => ?_⟩⟩
  · rw [hwake _ fun heq => hne m hm (Timer.packet.inj heq)]
    exact hq.flying m (hin _ hm)
  · obtain ⟨Q, hQ, htime, hhost, hdata, hle⟩ := hr.exact r hrm
    exact ⟨Q, hQ, htime, hhost, hdata, hle.trans hcur⟩
  · obtain hm | hrest := hf.fate m Q hQ
    · rw [hts, List.mem_cons, Timer.packet.injEq] at hm
      obtain rfl | hm := hm
      · exact .inr (.inr (.inr (List.mem_singleton_self _)))
      · exact .inl hm
    · exact .inr (hrest.imp_right (Or.imp_right nofun))
  · rw [show (fired s (.packet n) timers).wake _ = -1 from Function.update_self ..]
    omega
  · exact hr.spent r hrm (heq ▸ hmem)
  · exact hr.ahead r hrm n hmem hsame
  · have hle := ((List.pairwise_cons.mp hsort).1 _ hm).2 n m rfl rfl hsame
    exact lt_of_le_of_ne hle (hne m hm).symm

/-! ## A packet that is due -/

theorem modPacket_packets (f : SimPacket → SimPacket) (m : ℕ) :
    (s.modPacket n f).packets m = if m = n then (s.packets n).map f else s.packets m :=
  Function.update_apply ..

theorem Sound.miss (hs : Sound s [n]) : Sound (s.miss n) [] := by
  obtain ⟨hp, hq, hr, hf⟩ := hs
  have hpk : ∀ m p, (s.miss n).packets m = some p → ∃ p', s.packets m = some p' ∧
      p.dsth = p'.dsth ∧ (p.dying = true → m = n ∨ p'.dying = true) := fun m p hm => by
    rw [show (s.miss n).packets m = _ from modPacket_packets _ m] at hm
    split_ifs at hm with hmn
    · obtain ⟨p', hp', rfl⟩ := Option.map_eq_some_iff.mp hm
      exact ⟨p', hmn ▸ hp', rfl, fun _ => .inl hmn⟩
    · exact ⟨p, hm, rfl, .inr⟩
  have hkeep : ∀ m p, s.packets m = some p → ∃ p', (s.miss n).packets m = some p' ∧
      p'.dsth = p.dsth ∧ p'.buf = p.buf ∧ p'.dst = p.dst := fun m p hm => by
    rw [show (s.miss n).packets m = _ from modPacket_packets _ m]
    split_ifs with hmn
    · exact ⟨{ p with dying := true }, by rw [← hmn, hm]; rfl, rfl, rfl, rfl⟩
    · exact ⟨p, hm, rfl, rfl, rfl⟩
  refine ⟨⟨hp.recorded, hp.within, hp.arrival, hp.spaced⟩,
    ⟨fun m p hm => ?_, fun m hm => ?_, fun m P p k hP hm hk => ?_, fun k host hk m hm => ?_⟩,
    ⟨hr.exact, hr.spent, hr.ahead, hr.fifo⟩, ⟨fun m P hP => ?_, fun m P p hP hm hdy => ?_⟩⟩
  · obtain ⟨p', hp', -⟩ := hpk m p hm
    exact hq.fresh m p' hp'
  · obtain ⟨P, p, hP, hp, hw, hbuf, hdst⟩ := hq.flying m hm
    obtain ⟨p', hp', -, hbuf', hdst'⟩ := hkeep m p hp
    exact ⟨P, p', hP, hp', hw, hbuf'.trans hbuf, hdst'.trans hdst⟩
  · obtain ⟨p', hp', hdsth, -⟩ := hpk m p hm
    exact hq.dest m P p' k hP hp' (hdsth ▸ hk)
  · obtain ⟨P, p, hP, hp, hpd⟩ := hq.queue k host hk m hm
    obtain ⟨p', hp', hdsth, -⟩ := hkeep m p hp
    exact ⟨P, p', hP, hp', hdsth.trans hpd⟩
  · obtain hfl | hrc | hms | hl := hf.fate m P hP
    · exact .inl hfl
    · exact .inr (.inl hrc)
    · exact .inr (.inr (.inl (List.mem_cons_of_mem _ hms)))
    · exact .inr (.inr (.inl (List.mem_cons.mpr (.inl (List.mem_singleton.mp hl)))))
  · obtain ⟨p', hp', -, hor⟩ := hpk m p hm
    obtain heq | hdy' := hor hdy
    · exact .inr (List.mem_cons.mpr (.inl heq))
    · exact (hf.dying m P p' hP hp' hdy').imp_right (List.mem_cons_of_mem _)

/-- The state after the packet `n` is received by the socket `sock` of the host `h`. -/
def receive (s : Simulator) (n h sock : ℕ) (buf : List UInt8) : Simulator :=
  let s := s.modHost h fun host => { host with pqueue := host.pqueue.filter (· ≠ n) }
  let s := s.modPacket n fun p => { p with dsth := none, dying := true }
  { s with received := s.received ++ [⟨n, h, sock, buf, s.cur⟩] }

theorem Queued.leave (hq : Queued s) {p : SimPacket} (hp : s.packets n = some p)
    (hdsth : p.dsth = some h) {k m : ℕ} {host : SimHost}
    (hk : (s.modHost h fun host => { host with pqueue := host.pqueue.filter (· ≠ n) }).hosts k =
      some host) (hm : m ∈ host.pqueue) :
    m ≠ n ∧ ∃ P q, s.passages m = some P ∧ s.packets m = some q ∧ q.dsth = some k := by
  rw [modHost_hosts] at hk
  split_ifs at hk with hkh
  · obtain ⟨host', hhost', rfl⟩ := Option.map_eq_some_iff.mp hk
    obtain ⟨hm, hne⟩ := List.mem_filter.mp hm
    exact ⟨of_decide_eq_true hne, hkh ▸ hq.queue h host' hhost' m hm⟩
  · obtain ⟨P, q, hP, hq', hqk⟩ := hq.queue k host hk m hm
    refine ⟨fun hmn => hkh ?_, P, q, hP, hq', hqk⟩
    rw [hmn, hp] at hq'
    cases hq'
    exact Option.some.inj (hqk.symm.trans hdsth)

theorem Queued.stay (hq : Queued s) {m k : ℕ} {P : Passage} {q : SimPacket}
    (hP : s.passages m = some P) (hm : s.packets m = some q) (hk : q.dsth = some k) (hmn : m ≠ n) :
    ∃ host, (s.modHost h fun host => { host with pqueue := host.pqueue.filter (· ≠ n) }).hosts k =
      some host ∧ m ∈ host.pqueue := by
  obtain ⟨-, host, hhost, hmem⟩ := hq.dest m P q k hP hm hk
  rw [modHost_hosts]
  split_ifs with hkh
  · exact ⟨_, by rw [← hkh, hhost]; rfl, List.mem_filter.mpr ⟨hmem, decide_eq_true hmn⟩⟩
  · exact ⟨host, hhost, hmem⟩

theorem Sound.receive (hs : Sound s [n]) (hd : Due s n) {p : SimPacket} (hpn : s.packets n = some p)
    (hdsth : p.dsth = some h) (sock : ℕ) : Sound (receive s n h sock p.buf) [] := by
  obtain ⟨hp, hq, hr, hf⟩ := hs
  obtain ⟨P, p', hP, hpn', hcur, hbuf, -⟩ := hd.passage
  rw [hpn] at hpn'
  cases hpn'
  obtain ⟨hPh, -⟩ := hq.dest n P p h hP hpn hdsth
  have hpackets : ∀ m, (Sim.receive s n h sock p.buf).packets m =
      if m = n then some { p with dsth := none, dying := true } else s.packets m := fun m => by
    refine (modPacket_packets _ m).trans ?_
    rw [show (modHost s h _).packets = s.packets from rfl, hpn]
    rfl
  refine ⟨⟨hp.recorded, hp.within, hp.arrival, hp.spaced⟩,
    ⟨fun m q hm => ?_, fun m hm => ?_, fun m Q q k hQ hm hk => ?_, fun k host hk m hm => ?_⟩,
    ⟨fun r hrm => ?_, fun r hrm hin => ?_, fun r hrm m hm hsame => ?_, ?_⟩,
    ⟨fun m Q hQ => ?_, fun m Q q hQ hm hdy => ?_⟩⟩
  · rw [hpackets] at hm
    split_ifs at hm with hmn
    · exact hmn ▸ hq.fresh n p hpn
    · exact hq.fresh m q hm
  · rw [hpackets, if_neg fun hmn : m = n => hd.idle (hmn ▸ hm)]
    exact hq.flying m hm
  · rw [hpackets] at hm
    split_ifs at hm with hmn
    · cases hm
      cases hk
    · exact ⟨(hq.dest m Q q k hQ hm hk).1, hq.stay hQ hm hk hmn⟩
  · obtain ⟨hmn, Q, q, hQ, hqm, hqk⟩ := hq.leave hpn hdsth hk hm
    exact ⟨Q, q, hQ, by rw [hpackets, if_neg hmn]; exact hqm, hqk⟩
  · obtain hrm | hrm := List.mem_append.mp hrm
    · exact hr.exact r hrm
    · cases List.mem_singleton.mp hrm
      exact ⟨P, hP, hcur, hPh.symm, hbuf, hcur.ge⟩
  · obtain hrm | hrm := List.mem_append.mp hrm
    · exact hr.spent r hrm hin
    · cases List.mem_singleton.mp hrm
      exact hd.idle hin
  · obtain hrm | hrm := List.mem_append.mp hrm
    · exact hr.ahead r hrm m hm hsame
    · cases List.mem_singleton.mp hrm
      exact hd.next m hm hsame
  · refine List.pairwise_append.mpr ⟨hr.fifo, List.pairwise_singleton .., fun r hrm r' hr' => ?_⟩
    cases List.mem_singleton.mp hr'
    exact hd.last r hrm
  · have hmem : ∀ r ∈ s.received, r ∈ (Sim.receive s n h sock p.buf).received := fun r hrm =>
      List.mem_append_left _ hrm
    obtain hfl | ⟨r, hrm, hrn⟩ | hms | hl := hf.fate m Q hQ
    · exact .inl hfl
    · exact .inr (.inl ⟨r, hmem r hrm, hrn⟩)
    · exact .inr (.inr (.inl hms))
    · exact .inr (.inl ⟨_, List.mem_append_right _ (List.mem_singleton_self _),
        (List.mem_singleton.mp hl).symm⟩)
  · rw [hpackets] at hm
    split_ifs at hm with hmn
    · exact .inl ⟨_, List.mem_append_right _ (List.mem_singleton_self _), hmn.symm⟩
    · refine (hf.dying m Q q hQ hm hdy).imp_left ?_
      rintro ⟨r, hrm, hrn⟩
      exact ⟨r, List.mem_append_left _ hrm, hrn⟩

/-- **A packet that is due arrives**: it is received, or missed. -/
theorem arrive_spec (hs : Sound s [n]) (hc : Clock s) (hd : Due s n) :
    ∃ t, s.arrive n = some t ∧ Sound t [] ∧ Clock t := by
  obtain ⟨P, p, hP, hpn, -⟩ := hd.passage
  have hmiss : Sound (s.miss n) [] ∧ Clock (s.miss n) :=
    ⟨hs.miss, hc.congr rfl rfl rfl rfl⟩
  unfold arrive
  rw [hpn, Option.bind_some]
  cases hdsth : p.dsth with
  | none => exact ⟨_, rfl, hmiss⟩
  | some k =>
    obtain ⟨-, host, hhost, hmem⟩ := hs.queued.dest n P p k hP hpn hdsth
    dsimp only
    rw [hhost, Option.bind_some, List.contains_iff_mem.mpr hmem,
      stopTimer_of_inactive hd.inactive]
    cases hsock : host.socks p.dst.port with
    | none => exact ⟨_, rfl, hmiss⟩
    | some sock => exact ⟨_, rfl, hs.receive hd hpn hdsth sock, hc.congr rfl rfl rfl rfl⟩

end Sst.Sim
