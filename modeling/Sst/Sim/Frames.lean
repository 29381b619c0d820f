import Sst.Lib.Partiality
import Sst.Sim.Traffic

/-!
# Steps of the simulator that are not about packets

* `alike_modHost`, `alike_setLink`: changes of a host or a link.
* `alike_disconnect`, `alike_connect`: links.
* `alike_startTimer`, `alike_stopTimer`, `alike_fired`: timers of the program under simulation.
-/

namespace Sst.Sim

open Simulator Partiality

variable {s t : Simulator} {h l n : ℕ}

theorem modHost_hosts (f : SimHost → SimHost) (k : ℕ) :
    (s.modHost h f).hosts k = if k = h then (s.hosts h).map f else s.hosts k :=
  Function.update_apply ..

/-- A change of a host that leaves its queue. -/
theorem alike_modHost (f : SimHost → SimHost) (hf : ∀ host, (f host).pqueue = host.pqueue) :
    Alike s (s.modHost h f) := by
  refine { Alike.refl s with kept := fun k host hk => ?_, came := fun k host' hk => ?_ }
  · rw [modHost_hosts]
    split_ifs with hkh
    · exact ⟨f host, by rw [← hkh, hk]; rfl, hf host⟩
    · exact ⟨host, hk, rfl⟩
  · rw [modHost_hosts] at hk
    split_ifs at hk with hkh
    · obtain ⟨host, hhost, rfl⟩ := Option.map_eq_some_iff.mp hk
      exact .inr ⟨host, hkh ▸ hhost, hf host⟩
    · exact .inr ⟨host', hk, rfl⟩

/-- A change of a link that leaves its arrival times. -/
theorem alike_setLink (lk : SimLink) (harr : lk.arrival = (s.links l).arrival) :
    Alike s { s with links := Function.update s.links l lk } := by
  refine { Alike.refl s with arrival := fun k => ?_ }
  dsimp only
  rw [Function.update_apply]
  split_ifs with hkl
  · rw [harr, hkl]
  · rfl

theorem alike_detach (w : Bool) : Yields False (Alike s) (s.detach l w) := by
  unfold detach
  split
  · exact .some (.refl s)
  · next k _ =>
    refine Yields.bind_any fun host => ?_
    split_ifs
    · exact .none
    · refine .some (.trans (alike_modHost _ ?_) (alike_setLink _ ?_))
      · exact fun _ => rfl
      · rfl

theorem alike_disconnect : Yields False (Alike s) (s.disconnect l) :=
  (alike_detach false).bind fun _ ht => (alike_detach true).mono fun _ hu => ht.trans hu

theorem alike_unplug (addr : Address) : Yields False (Alike s) (s.unplug h addr) :=
  Yields.bind_any fun _ => Yields.bind_any fun _ => alike_disconnect

theorem alike_unplugAll (addrs : List Address) :
    Yields False (Alike s) (addrs.foldlM (unplug h) s) :=
  .foldlM (fun _ _ _ ht => (alike_unplug _).mono fun _ hu => ht.trans hu) (.refl s)

theorem alike_connect {downHost upHost : ℕ} {downAddr upAddr : Address}
    (hs : s.connect l downHost downAddr upHost upAddr = some t) : Alike s t := by
  unfold connect at hs
  split_ifs at hs
  obtain ⟨d, -, hs⟩ := Option.bind_eq_some_iff.mp hs
  obtain ⟨u, -, hs⟩ := Option.bind_eq_some_iff.mp hs
  split_ifs at hs
  cases hs
  refine .trans (.trans (alike_setLink _ ?_) (alike_modHost _ ?_)) (alike_modHost _ ?_)
  · rfl
  · exact fun _ => rfl
  · exact fun _ => rfl

theorem alike_newHost (hnone : s.hosts h = none) :
    Alike s { s with hosts := Function.update s.hosts h (some {}) } := by
  refine { Alike.refl s with
    kept := fun k host hk => ⟨host, ?_, rfl⟩, came := fun k host' hk => ?_ }
  · dsimp only
    rw [Function.update_of_ne (fun heq => ?_)]
    · exact hk
    · rw [heq, hnone] at hk
      cases hk
  · dsimp only at hk
    rw [Function.update_apply] at hk
    split_ifs at hk
    · cases hk
      exact .inl rfl
    · exact .inr ⟨host', hk, rfl⟩

/-! ## Timers -/

theorem alike_startTimer (hc : Clock s) (usecs : ℕ) : Alike s (s.startTimer (.app n) usecs) := by
  have hrest : Alike s { s.startTimer (.app n) usecs with
      timers := s.timers, wake := s.wake, cur := s.cur } := by
    unfold Simulator.startTimer Simulator.stopTimer
    dsimp only
    split_ifs <;> exact .refl s
  refine { hrest with cur := startTimer_cur.ge, timers := fun m => ?_, wake := fun m => ?_ }
  · rw [mem_startTimer hc]
    simp
  · rw [startTimer_wake, if_neg (by simp)]

theorem alike_stopTimer (hc : Clock s) : Alike s (s.stopTimer (.app n)) := by
  have hrest : Alike s { s.stopTimer (.app n) with
      timers := s.timers, wake := s.wake, cur := s.cur } := by
    unfold Simulator.stopTimer
    split_ifs <;> exact .refl s
  refine { hrest with cur := stopTimer_cur.ge, timers := fun m => ?_, wake := fun m => ?_ }
  · rw [mem_stopTimer hc]
    simp
  · rw [stopTimer_wake, if_neg (by simp)]

theorem alike_fired (hc : Clock s) {timers : List Timer} (hs : s.timers = .app n :: timers) :
    Alike s (fired s (.app n) timers) := by
  refine { Alike.refl s with cur := (hc.fire hs).1, timers := fun m => ?_, wake := fun m => ?_ }
  · change _ ∈ timers ↔ _
    rw [hs]
    simp
  · unfold fired
    dsimp only
    rw [Function.update_of_ne (by simp)]

end Sst.Sim
