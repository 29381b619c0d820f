import Sst.Sim.Wiring

/-!
# Packets and their hosts

A packet that its link refused points to its host until it is deleted, but the host does not know
it.

* `Anchored s`: the hosts to which packets point are there.
* `Label.Spares`: a host is not deleted while a packet that it does not know points to it.
* **`Anchored.step`**: the packets stay anchored by steps that spare hosts.
-/

namespace Sst.Sim

open Simulator Partiality

variable {s t : Simulator} {h l n : ℕ}

/-- The packets point to hosts that are there. -/
def Anchored (s : Simulator) : Prop :=
  ∀ n p h, s.packets n = some p → p.dsth = some h → ∃ host, s.hosts h = some host

/-- No host is deleted to which a packet points that is not in its queue. -/
def Label.Spares (s : Simulator) : Label → Prop
  | .deleteHost h => ∀ n p host, s.packets n = some p → p.dsth = some h →
    s.hosts h = some host → n ∈ host.pqueue
  | _ => True

namespace Anchored

theorem congr (ha : Anchored s)
    (hpackets : ∀ n p h, t.packets n = some p → p.dsth = some h →
      ∃ p', s.packets n = some p' ∧ p'.dsth = some h)
    (hhosts : ∀ h host, s.hosts h = some host → ∃ host', t.hosts h = some host') :
    Anchored t := by
  intro n p h hn hh
  obtain ⟨p', hn', hh'⟩ := hpackets n p h hn hh
  obtain ⟨host, hhost⟩ := ha n p' h hn' hh'
  exact hhosts h host hhost

theorem alike (ha : Anchored s) (h : Alike s t) : Anchored t := by
  refine ha.congr (fun n p k hn hk => ⟨p, by rw [← h.packets]; exact hn, hk⟩) fun k host hk => ?_
  obtain ⟨host', hk', -⟩ := h.kept k host hk
  exact ⟨host', hk'⟩

theorem same (ha : Anchored s) (hpackets : t.packets = s.packets) (hhosts : t.hosts = s.hosts) :
    Anchored t :=
  ha.congr (fun _ p _ hn hk => ⟨p, hpackets ▸ hn, hk⟩) fun _ host hk => ⟨host, hhosts ▸ hk⟩

theorem modHost (ha : Anchored s) (f : SimHost → SimHost) : Anchored (s.modHost h f) := by
  refine ha.congr (fun _ p _ hn hk => ⟨p, hn, hk⟩) fun k host hk => ?_
  rw [modHost_hosts]
  split_ifs with hkh
  · exact ⟨f host, by rw [← hkh, hk]; rfl⟩
  · exact ⟨host, hk⟩

theorem modPacket (ha : Anchored s) {f : SimPacket → SimPacket}
    (hf : ∀ p h, (f p).dsth = some h → p.dsth = some h) : Anchored (s.modPacket n f) := by
  refine ha.congr (fun m p k hm hk => ?_) fun k host hk => ⟨host, hk⟩
  rw [modPacket_packets] at hm
  split_ifs at hm with hmn
  · obtain ⟨p', hp', rfl⟩ := Option.map_eq_some_iff.mp hm
    exact ⟨p', hmn ▸ hp', hf p' k hk⟩
  · exact ⟨p, hm, hk⟩

theorem stopTimer (ha : Anchored s) (u : Timer) : Anchored (s.stopTimer u) := by
  unfold Simulator.stopTimer
  split_ifs
  · exact ha
  · exact ha.same rfl rfl

/-! ## Packets come and go -/

theorem addPacket (ha : Anchored s) {p : SimPacket}
    (hp : ∀ h, p.dsth = some h → ∃ host, s.hosts h = some host) : Anchored (s.addPacket p) := by
  intro m q k hm hk
  rw [show (s.addPacket p).packets m = _ from Function.update_apply ..] at hm
  split_ifs at hm
  · cases hm
    exact hp k hk
  · exact ha m q k hm hk

theorem newPacket (ha : Anchored s) (hhost : ∃ host, s.hosts h = some host) (w : Bool)
    (src dst : Endpoint) (data : List UInt8) (lost : Bool) :
    Yields False Anchored (s.newPacket l w h src dst data lost) := by
  have hpoint : ∀ k, some h = some k → ∃ host, s.hosts k = some host := fun k hk => by
    rw [← Option.some.inj hk]
    exact hhost
  unfold Simulator.newPacket
  dsimp only
  split_ifs
  · exact .some (ha.addPacket hpoint)
  refine Yields.map (I := fun _ => True) ⟨fun _ _ => trivial, False.elim⟩ fun x _ => ?_
  split_ifs
  · exact ha.addPacket hpoint
  · have hadd := ha.addPacket (p := ⟨src, dst, some h, data, false⟩) hpoint
    unfold accept
    refine Anchored.same (s := Simulator.stopTimer _ _) (stopTimer (modHost ?_ _) _) rfl rfl
    exact hadd.same rfl rfl

theorem arrive (ha : Anchored s) : Yields False Anchored (s.arrive n) := by
  have hmiss : ∀ u : Simulator, Anchored u → Anchored (u.miss n) := fun u hu => by
    refine (hu.modPacket (n := n) (f := fun p => { p with dying := true }) ?_).same rfl rfl
    exact fun _ _ hk => hk
  refine Yields.bind_any fun p => ?_
  split
  · exact .some (hmiss s ha)
  refine Yields.bind_any fun host => ?_
  split_ifs
  · exact .some (hmiss s ha)
  dsimp only
  split
  · exact .some (hmiss _ (ha.stopTimer _))
  · refine .some (same (modPacket (modHost (ha.stopTimer _) _) ?_) rfl rfl)
    exact nofun

theorem reap (ha : Anchored s) : Yields False Anchored (s.reap n) := by
  have hdelete : Anchored { s.stopTimer (.packet n) with
      packets := Function.update s.packets n none } := by
    refine congr (ha.stopTimer (.packet n)) (fun m p k hm hk => ?_) fun k host hk => ⟨host, hk⟩
    dsimp only at hm
    rw [Function.update_apply] at hm
    split_ifs at hm
    refine ⟨p, ?_, hk⟩
    unfold Simulator.stopTimer
    split_ifs <;> exact hm
  refine Yields.bind_any fun p => ?_
  split_ifs
  · exact .none
  dsimp only
  split
  · exact .some hdelete
  · refine Yields.map (I := fun _ => True) ⟨fun _ _ => trivial, False.elim⟩ fun _ _ => ?_
    exact modHost hdelete _

theorem orphan (ha : Anchored s) (hspare : (Label.deleteHost h).Spares s) :
    Yields False Anchored (s.orphan h) := by
  unfold Simulator.orphan
  cases hhost : s.hosts h with
  | none => exact .none
  | some host =>
    rw [Option.bind_some]
    split_ifs
    · exact .none
    · exact .none
    refine .some fun m p k hm hk => ?_
    dsimp only at hm ⊢
    split_ifs at hm with hmem
    · obtain ⟨p', -, rfl⟩ := Option.map_eq_some_iff.mp hm
      cases hk
    · obtain ⟨host', hhost'⟩ := ha m p k hm hk
      refine ⟨host', ?_⟩
      rw [Function.update_of_ne fun hkh => hmem ?_]
      · exact hhost'
      · rw [hkh] at hk
        exact List.contains_iff_mem.mpr (hspare m p host hm hk hhost)

theorem deleteHost (ha : Anchored s) (hspare : (Label.deleteHost h).Spares s) :
    Yields False Anchored (s.deleteHost h) := by
  refine Yields.bind_any fun host => (alike_unplugAll _).bind fun t hst => ?_
  refine orphan (ha.alike hst) fun m p host' hm hk hhost' => ?_
  obtain hnil | ⟨host, hhost, heq⟩ := hst.came h host' hhost'
  · rw [hst.packets] at hm
    obtain ⟨host, hhost⟩ := ha m p h hm hk
    obtain ⟨host'', hhost'', heq⟩ := hst.kept h host hhost
    rw [hhost'] at hhost''
    cases hhost''
    exact heq ▸ hspare m p host hm hk hhost
  · rw [hst.packets] at hm
    exact heq ▸ hspare m p host hm hk hhost

/-- **The packets stay anchored.** -/
theorem step (ha : Anchored s) (hc : Clock s) {i : Label} (hi : i.Spares s) :
    Yields False Anchored (s.step i) := by
  cases i with
  | startTimer n usecs =>
    dsimp only [Simulator.step]
    split_ifs
    · exact .none
    · exact .some (ha.alike (alike_startTimer hc usecs))
  | stopTimer n => exact .some (ha.alike (alike_stopTimer hc))
  | send h port srcaddr dst data lost =>
    refine Yields.bind_any fun host => Yields.bind_any fun sock => Yields.bind_any fun l =>
      Yields.bind_any fun w => ?_
    split_ifs
    · exact .none
    split
    · exact .some ha
    · next dsth _ =>
      cases hhost : s.hosts dsth with
      | none => exact .none
      | some host => exact ha.newPacket ⟨host, hhost⟩ w _ dst data lost
  | run =>
    dsimp only [Simulator.step]
    unfold Simulator.run
    split
    · exact .none
    split_ifs
    · exact .none
    dsimp only
    split
    · exact .some (ha.same rfl rfl)
    · exact arrive (ha.same rfl rfl)
  | reap n => exact ha.reap
  | newHost h =>
    dsimp only [Simulator.step]
    split_ifs with hh
    · exact .none
    rw [Bool.or_eq_true, not_or, Bool.not_eq_true, Option.isSome_eq_false_iff,
      Option.isNone_iff_eq_none] at hh
    exact .some (ha.alike (alike_newHost hh.1))
  | deleteHost h => exact ha.deleteHost hi
  | bind h port sock =>
    refine Yields.bind_any fun host => ?_
    split_ifs
    · exact .none
    · exact .some (ha.modHost _)
  | unbind h port => exact .some (ha.modHost _)
  | connect l downHost downAddr upHost upAddr =>
    exact ⟨fun t ht => ha.alike (alike_connect ht), False.elim⟩
  | disconnect l => exact alike_disconnect.mono fun _ ht => ha.alike ht
  | setLinkParams l down up => exact .some (ha.same rfl rfl)

end Anchored

end Sst.Sim
