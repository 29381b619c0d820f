import Sst.Sim.Frames

/-!
# Packets depart

* `departure_within`: the bounds of a departure.
* `Departs s t l w P`: what the departure of a packet changes.
* **`accept_departs`**: a packet that is accepted departs.
* **`Sound.depart`**, **`Sound.refuse`**: the traffic stays sound.
* **`newPacket_spec`**: a packet departs or is refused, unless its time does not fit the clock.
-/

namespace Sst.Sim

open Simulator Partiality

variable {s t : Simulator} {h l : ℕ} {w : Bool}

theorem wireTime_nonneg (size : ℕ) (p : LinkParams) : 0 ≤ wireTime size p :=
  Int.ediv_nonneg (by positivity) p.rate_pos.le

/-- A packet departs into the direction `!w` of the link `l`, to the host `h`. -/
structure Departs (s t : Simulator) (l : ℕ) (w : Bool) (P : Passage) : Prop where
  route : P.link = l ∧ P.dir = !w
  sent : P.sent = s.cur
  within : P.Within
  after : (s.links l).arrival (!w) + wireTime P.data.length P.params ≤ P.arr
  future : s.cur ≤ P.arr
  cur : t.cur = s.cur
  timers : ∀ u, u ∈ t.timers ↔ u = .packet s.nextPacket ∨ u ∈ s.timers
  wake : ∀ u, t.wake u = if u = .packet s.nextPacket then P.arr else s.wake u
  packets : ∃ src, t.packets = Function.update s.packets s.nextPacket
    (some { src, dst := P.dst, dsth := some P.host, buf := P.data })
  nextPacket : t.nextPacket = s.nextPacket + 1
  passages : t.passages = Function.update s.passages s.nextPacket (some P)
  received : t.received = s.received
  missed : t.missed = s.missed
  arrival : ∀ k d, (t.links k).arrival d =
    if k = l ∧ d = !w then P.arr else (s.links k).arrival d
  hosts : ∀ k, t.hosts k = if k = P.host then
    (s.hosts P.host).map fun host => { host with pqueue := host.pqueue ++ [s.nextPacket] }
    else s.hosts k

theorem Departs.same {P : Passage} (hd : Departs s t l w P) {m k : ℕ} (hm : m ≠ s.nextPacket)
    (hk : k ≠ s.nextPacket) : Same t m k ↔ Same s m k := by
  unfold Same
  rw [hd.passages, Function.update_of_ne hm, Function.update_of_ne hk]

theorem stopTimer_of_inactive {u : Timer} (hu : s.wake u < 0) : s.stopTimer u = s := if_pos hu

/-- The packet that is to come has no timer. -/
theorem Sound.no_timer (hc : Clock s) (hs : Sound s []) {m : ℕ} (hm : s.nextPacket ≤ m) :
    Timer.packet m ∉ s.timers ∧ s.wake (.packet m) < 0 := by
  have hnot : Timer.packet m ∉ s.timers := fun hin => by
    obtain ⟨P, -, hP, -⟩ := hs.queued.flying m hin
    exact absurd (hs.passages.recorded m P hP) hm.not_gt
  exact ⟨hnot, not_le.mp fun hle => hnot ((hc.active _).mpr hle)⟩

/-- The bounds of a departure that is not dropped. -/
theorem departure_within {size : ℕ} {arr : ℤ}
    (hdep : s.departure l w size = some (arr, false)) :
    s.cur + ((s.links l).params !w).delay + wireTime size ((s.links l).params !w) ≤ arr ∧
      arr ≤ s.cur + ((s.links l).params !w).delay + ((s.links l).params !w).qlen +
        wireTime size ((s.links l).params !w) ∧
      (s.links l).arrival (!w) + wireTime size ((s.links l).params !w) ≤ arr ∧ arr < 2 ^ 63 := by
  unfold departure at hdep
  dsimp only at hdep
  split_ifs at hdep with hfit
  rw [Option.some.injEq, Prod.mk.injEq, decide_eq_false_iff_not, not_lt] at hdep
  obtain ⟨rfl, hle⟩ := hdep
  rw [decide_eq_false_iff_not, not_lt, not_or, not_and, not_le, not_le] at hfit
  have := le_max_left (s.cur + ((s.links l).params !w).delay) ((s.links l).arrival !w)
  have := le_max_right (s.cur + ((s.links l).params !w).delay) ((s.links l).arrival !w)
  have := hfit.2 hle
  omega

/-- **A packet that is accepted departs.** -/
theorem accept_departs (hc : Clock s) (hs : Sound s []) (src dst : Endpoint) {data : List UInt8}
    {arr : ℤ} (hdep : s.departure l w data.length = some (arr, false)) :
    ∃ P, P.host = h ∧ Departs s (s.accept l (!w) h ⟨src, dst, some h, data, false⟩ arr) l w P ∧
      Clock (s.accept l (!w) h ⟨src, dst, some h, data, false⟩ arr) := by
  unfold accept addPacket
  dsimp only
  obtain ⟨hearly, hlate, hafter, hend⟩ := departure_within hdep
  have hwire := wireTime_nonneg data.length ((s.links l).params !w)
  have hdelay := ((s.links l).params !w).delay_nonneg
  obtain ⟨hnot, hinactive⟩ := hs.no_timer hc le_rfl
  set P : Passage := ⟨l, !w, h, dst, data, (s.links l).params !w, s.cur, arr⟩ with hP
  refine ⟨P, rfl, ?_⟩
  -- The state before the timer of the packet is started.
  generalize hs₁ : modHost _ h _ = s₁
  have hcur : s₁.cur = s.cur := by rw [← hs₁]; rfl
  have htimers : s₁.timers = s.timers := by rw [← hs₁]; rfl
  have hwake : s₁.wake = s.wake := by rw [← hs₁]; rfl
  have hpassages : s₁.passages = Function.update s.passages s.nextPacket (some P) := by
    rw [← hs₁]
    rfl
  have hold : ∀ m, Timer.packet m ∈ s.timers → m ≠ s.nextPacket := fun m hm heq =>
    hnot (heq ▸ hm)
  have hsame : ∀ m k, m ≠ s.nextPacket → k ≠ s.nextPacket → Same s₁ m k → Same s m k := by
    intro m k hm hk hmk
    unfold Same at hmk
    rwa [hpassages, Function.update_of_ne hm, Function.update_of_ne hk] at hmk
  have hc₁ : Clock s₁ := by
    refine ⟨hcur ▸ hc.nonneg, htimers ▸ hc.nodup, ?_, ?_, ?_⟩
    · rw [htimers, hwake]
      exact hc.active
    · rw [htimers, hwake]
      refine hc.sorted.imp_of_mem fun {a b} ha hb hab => ⟨hab.1, fun m k hma hkb hmk => ?_⟩
      exact hab.2 m k hma hkb (hsame m k (hold m (hma ▸ ha)) (hold k (hkb ▸ hb)) hmk)
    · rw [htimers, hwake, hcur]
      exact hc.now
  have harr : s₁.cur + ((arr - s.cur).toNat : ℤ) = arr := by
    rw [hcur, Int.toNat_of_nonneg (by omega)]
    omega
  have hfit : s₁.cur + ((arr - s.cur).toNat : ℤ) < 2 ^ 63 := harr.trans_lt hend
  have hwrap := hc₁.wrap_eq hfit
  have hstop : s₁.stopTimer (.packet s.nextPacket) = s₁ :=
    stopTimer_of_inactive (by rw [hwake]; exact hinactive)
  refine ⟨?_, hc₁.startTimer hfit (fun u hu _ m k hmu hk hmk => ?_)
    fun u hu hlt m k hm hku hmk => ?_⟩
  · refine ⟨⟨rfl, rfl⟩, rfl, ⟨hearly, hlate⟩, hafter, ?_, ?_, fun u => ?_, fun u => ?_, ⟨src, ?_⟩,
      ?_, ?_, ?_, ?_, fun k d => ?_, fun k => ?_⟩
    · change s.cur ≤ arr
      omega
    · rw [startTimer_cur, hcur]
    · rw [mem_startTimer hc₁, htimers]
    · rw [startTimer_wake, hwrap, harr, hwake]
    · unfold startTimer
      rw [hstop, ← hs₁]
      rfl
    · unfold startTimer
      rw [hstop, ← hs₁]
      rfl
    · rw [startTimer_passages, hpassages]
    · unfold startTimer
      rw [hstop, ← hs₁]
      rfl
    · unfold startTimer
      rw [hstop, ← hs₁]
      rfl
    · unfold startTimer
      rw [hstop, ← hs₁]
      dsimp only [modHost]
      rw [Function.update_apply]
      split_ifs with hk hkd hkd
      · rw [hkd.2]
        exact Function.update_self ..
      · dsimp only
        rw [Function.update_of_ne fun hdw => hkd ⟨hk, hdw⟩, hk]
      · exact absurd hkd.1 hk
      · rfl
    · unfold startTimer
      rw [hstop, ← hs₁]
      exact modHost_hosts _ k
  · cases hk
    obtain ⟨Q, -, hQ, -⟩ := hmk
    rw [hpassages, Function.update_apply] at hQ
    split_ifs at hQ with hm
    · exact hm.le
    · exact (hs.passages.recorded m Q hQ).le
  · -- A packet that wakes later took another way.
    cases hm
    rw [htimers] at hu
    subst hku
    obtain ⟨Q, -, hQ, -, hQw, -⟩ := hs.queued.flying k hu
    obtain ⟨P', Q', hP', hQ', hl, hd⟩ := hmk
    rw [hpassages, Function.update_self] at hP'
    rw [hpassages, Function.update_of_ne (hold k hu), hQ] at hQ'
    cases hP'
    cases hQ'
    have hle := hs.passages.arrival k Q hQ
    rw [← hl, ← hd] at hle
    rw [harr, hwake, hQw] at hlt
    have : (s.links l).arrival (!w) ≤ arr := by omega
    exact absurd (hle.trans this) hlt.not_ge

/-- **A packet departs.** -/
theorem Sound.depart {P : Passage} (hs : Sound s []) (hd : Departs s t l w P)
    (hhost : ∃ host, s.hosts P.host = some host) : Sound t [] := by
  obtain ⟨hp, hq, hr, hf⟩ := hs
  obtain ⟨src, hpackets⟩ := hd.packets
  have hnone : s.passages s.nextPacket = none := by
    by_contra hne
    obtain ⟨Q, hQ⟩ := Option.ne_none_iff_exists'.mp hne
    exact lt_irrefl _ (hp.recorded _ Q hQ)
  have hold : ∀ m Q, s.passages m = some Q → m ≠ s.nextPacket := fun m Q hQ heq => by
    rw [heq, hnone] at hQ
    cases hQ
  have hflying : ∀ m, Timer.packet m ∈ s.timers → m ≠ s.nextPacket := fun m hm => by
    obtain ⟨Q, -, hQ, -⟩ := hq.flying m hm
    exact hold m Q hQ
  have hpassages : ∀ m Q, t.passages m = some Q →
      m = s.nextPacket ∧ Q = P ∨ s.passages m = some Q := fun m Q hQ => by
    rw [hd.passages, Function.update_apply] at hQ
    split_ifs at hQ with hm
    · exact .inl ⟨hm, (Option.some.inj hQ).symm⟩
    · exact .inr hQ
  have hkeep : ∀ m Q, s.passages m = some Q → t.passages m = some Q := fun m Q hQ => by
    rw [hd.passages, Function.update_of_ne (hold m Q hQ)]
    exact hQ
  refine ⟨⟨fun m Q hQ => ?_, fun m Q hQ => ?_, fun m Q hQ => ?_,
      fun m k Q R hQ hR hl hdir hmk => ?_⟩,
    ⟨fun m p hm => ?_, fun m hm => ?_, fun m Q p k hQ hm hk => ?_, fun k host' hk m hm => ?_⟩,
    ⟨fun r hrm => ?_, fun r hrm hin => ?_, fun r hrm m hm hsame => ?_, ?_⟩,
    ⟨fun m Q hQ => ?_, fun m Q p hQ hm hdy => ?_⟩⟩
  · rw [hd.nextPacket]
    obtain ⟨rfl, -⟩ | hQ := hpassages m Q hQ
    · exact Nat.lt_succ_self _
    · exact (hp.recorded m Q hQ).trans (Nat.lt_succ_self _)
  · obtain ⟨-, rfl⟩ | hQ := hpassages m Q hQ
    · exact hd.within
    · exact hp.within m Q hQ
  · rw [hd.arrival]
    obtain ⟨-, rfl⟩ | hQ := hpassages m Q hQ
    · rw [if_pos hd.route]
    · have hle := hp.arrival m Q hQ
      split_ifs with hlink
      · have := hd.after
        have := wireTime_nonneg P.data.length P.params
        rw [hlink.1, hlink.2] at hle
        omega
      · exact hle
  · obtain ⟨rfl, rfl⟩ | hR := hpassages k R hR
    · obtain ⟨rfl, -⟩ | hQ := hpassages m Q hQ
      · exact absurd hmk (lt_irrefl _)
      · have hle := hp.arrival m Q hQ
        rw [hl, hdir, hd.route.1, hd.route.2] at hle
        have := hd.after
        omega
    · obtain ⟨rfl, -⟩ | hQ := hpassages m Q hQ
      · exact absurd hmk (hp.recorded k R hR).not_gt
      · exact hp.spaced m k Q R hQ hR hl hdir hmk
  · rw [hd.nextPacket]
    rw [hpackets, Function.update_apply] at hm
    split_ifs at hm with hmn
    · omega
    · have := hq.fresh m p hm
      omega
  · rw [hd.wake, hd.passages, hpackets]
    obtain heq | hm := (hd.timers _).mp hm
    · cases heq
      rw [if_pos rfl, Function.update_self, Function.update_self]
      exact ⟨P, _, rfl, rfl, rfl, rfl, rfl⟩
    · have hne := hflying m hm
      rw [if_neg (fun heq => hne (Timer.packet.inj heq)), Function.update_of_ne hne,
        Function.update_of_ne hne]
      exact hq.flying m hm
  · rw [hpackets] at hm
    rw [hd.hosts]
    obtain ⟨rfl, rfl⟩ | hQ := hpassages m Q hQ
    · rw [Function.update_self] at hm
      cases hm
      cases hk
      obtain ⟨host, hhost⟩ := hhost
      refine ⟨rfl, _, by rw [if_pos rfl, hhost]; rfl, ?_⟩
      exact List.mem_append_right _ (List.mem_singleton_self _)
    · rw [Function.update_of_ne (hold m Q hQ)] at hm
      obtain ⟨hQk, host, hhost', hmem⟩ := hq.dest m Q p k hQ hm hk
      refine ⟨hQk, ?_⟩
      split_ifs with hkP
      · rw [hkP] at hhost'
        exact ⟨_, by rw [hhost']; rfl, List.mem_append_left _ hmem⟩
      · exact ⟨host, hhost', hmem⟩
  · rw [hd.hosts] at hk
    rw [hpackets]
    -- What was queued before is still on its way.
    have hbefore : ∀ host, s.hosts k = some host → m ∈ host.pqueue →
        ∃ Q p, t.passages m = some Q ∧ Function.update s.packets s.nextPacket
          (some { src, dst := P.dst, dsth := some P.host, buf := P.data }) m = some p ∧
          p.dsth = some k := fun host hhost hmem => by
      obtain ⟨Q, p, hQ, hp, hpk⟩ := hq.queue k host hhost m hmem
      rw [Function.update_of_ne (hold m Q hQ)]
      exact ⟨Q, p, hkeep m Q hQ, hp, hpk⟩
    split_ifs at hk with hkP
    · obtain ⟨host, hhost', rfl⟩ := Option.map_eq_some_iff.mp hk
      obtain hm | hm := List.mem_append.mp hm
      · exact hbefore host (hkP ▸ hhost') hm
      · rw [List.mem_singleton.mp hm, hd.passages, Function.update_self, Function.update_self, hkP]
        exact ⟨P, _, rfl, rfl, rfl⟩
    · exact hbefore host' hk hm
  · rw [hd.received] at hrm
    obtain ⟨Q, hQ, htime, hhost, hbuf, hle⟩ := hr.exact r hrm
    exact ⟨Q, hkeep _ Q hQ, htime, hhost, hbuf, hle.trans_eq hd.cur.symm⟩
  · rw [hd.received] at hrm
    obtain ⟨Q, hQ, -⟩ := hr.exact r hrm
    obtain heq | hin := (hd.timers _).mp hin
    · exact hold _ Q hQ (Timer.packet.inj heq)
    · exact hr.spent r hrm hin
  · rw [hd.received] at hrm
    obtain ⟨Q, hQ, -⟩ := hr.exact r hrm
    obtain heq | hm := (hd.timers _).mp hm
    · rw [Timer.packet.inj heq]
      exact hp.recorded _ Q hQ
    · exact hr.ahead r hrm m hm ((hd.same (hold _ Q hQ) (hflying m hm)).mp hsame)
  · rw [hd.received]
    refine hr.fifo.imp_of_mem fun {a b} ha hb hab => ⟨hab.1, fun hsame => hab.2 ?_⟩
    obtain ⟨Q, hQ, -⟩ := hr.exact a ha
    obtain ⟨R, hR, -⟩ := hr.exact b hb
    exact (hd.same (hold _ Q hQ) (hold _ R hR)).mp hsame
  · rw [hd.timers, hd.received, hd.missed]
    obtain ⟨rfl, -⟩ | hQ := hpassages m Q hQ
    · exact .inl (.inl rfl)
    · exact (hf.fate m Q hQ).imp_left .inr
  · rw [hd.received, hd.missed]
    rw [hpackets] at hm
    obtain ⟨rfl, -⟩ | hQ := hpassages m Q hQ
    · rw [Function.update_self] at hm
      cases hm
      cases hdy
    · rw [Function.update_of_ne (hold m Q hQ)] at hm
      exact hf.dying m Q p hQ hm hdy

/-- **A packet is refused**: it has no passage. -/
theorem Sound.refuse (hs : Sound s []) (p : SimPacket) : Sound (s.refuse p) [] := by
  obtain ⟨hp, hq, hr, hf⟩ := hs
  have hpackets : ∀ m P, s.passages m = some P → (s.refuse p).packets m = s.packets m :=
    fun m P hP => Function.update_of_ne (hp.recorded m P hP).ne ..
  refine ⟨⟨fun m P hP => (hp.recorded m P hP).trans (Nat.lt_succ_self _), hp.within, hp.arrival,
      hp.spaced⟩,
    ⟨fun m q hm => ?_, fun m hm => ?_, fun m P q k hP hm hk => ?_, fun k host hk m hm => ?_⟩,
    ⟨hr.exact, hr.spent, hr.ahead, hr.fifo⟩, ⟨hf.fate, fun m P q hP hm hdy => ?_⟩⟩
  · rw [show (s.refuse p).packets m = _ from Function.update_apply ..] at hm
    split_ifs at hm with hmn
    · exact hmn ▸ Nat.lt_succ_self _
    · exact (hq.fresh m q hm).trans (Nat.lt_succ_self _)
  · obtain ⟨P, q, hP, hqm, hrest⟩ := hq.flying m hm
    exact ⟨P, q, hP, (hpackets m P hP).trans hqm, hrest⟩
  · exact hq.dest m P q k hP ((hpackets m P hP).symm.trans hm) hk
  · obtain ⟨P, q, hP, hqm, hqk⟩ := hq.queue k host hk m hm
    exact ⟨P, q, hP, (hpackets m P hP).trans hqm, hqk⟩
  · exact hf.dying m P q hP ((hpackets m P hP).symm.trans hm) hdy

/-- **A packet departs or is refused**, unless its time does not fit the clock. -/
theorem newPacket_spec (hc : Clock s) (hs : Sound s []) (hhost : ∃ host, s.hosts h = some host)
    (src dst : Endpoint) (data : List UInt8) (lost : Bool) :
    Yields (lost = true ∨ s.departure l w data.length ≠ none) (fun t => Sound t [] ∧ Clock t)
      (s.newPacket l w h src dst data lost) := by
  have hrefuse : ∀ p, Sound (s.refuse p) [] ∧ Clock (s.refuse p) := fun p =>
    ⟨hs.refuse p, hc.congr rfl rfl rfl rfl⟩
  unfold newPacket
  dsimp only
  cases lost with
  | true => exact .some (hrefuse _)
  | false =>
    rw [if_neg Bool.false_ne_true]
    cases hdep : s.departure l w data.length with
    | none => exact ⟨nofun, fun hor => hor.elim nofun (absurd rfl)⟩
    | some x =>
      obtain ⟨arr, drop⟩ := x
      refine .some ?_
      cases drop with
      | true => exact hrefuse _
      | false =>
        obtain ⟨P, hP, hd, hct⟩ := accept_departs (h := h) hc hs src dst hdep
        exact ⟨hs.depart hd (hP ▸ hhost), hct⟩

end Sst.Sim
