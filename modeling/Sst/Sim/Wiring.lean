import Sst.Sim.Deletion

/-!
# The wiring of the simulator

* `Wired s`: a link is at the addresses of its ends, and a host has at an address the link of which
  it is an end there.
* **`Wired.disconnect`**: a link is disconnected from its hosts, with no failed assertion.
* **`unplugAll_spec`**: a host is detached from all of its links.
* **`Wired.connect`**: a link is connected.
-/

namespace Sst.Sim

open Simulator

variable {s t : Simulator} {h l : ℕ} {w : Bool}

/-- The links and the hosts agree. -/
structure Wired (s : Simulator) : Prop where
  apart : ∀ l h, (s.links l).hosts false = some h → (s.links l).hosts true ≠ some h
  plugged : ∀ l w h, (s.links l).hosts w = some h → ∃ host, s.hosts h = some host ∧
    ((s.links l).addrs w, l) ∈ host.links
  used : ∀ h host x, s.hosts h = some host → x ∈ host.links → ∃ w,
    (s.links x.2).hosts w = some h ∧ (s.links x.2).addrs w = x.1
  keys : ∀ h host, s.hosts h = some host → (host.links.map Prod.fst).Nodup

theorem wired_init : Wired {} := ⟨nofun, nofun, nofun, nofun⟩

theorem Wired.congr (hw : Wired s) (hends : ∀ l, (t.links l).hosts = (s.links l).hosts)
    (haddrs : ∀ l, (t.links l).addrs = (s.links l).addrs)
    (hkept : ∀ h host, s.hosts h = some host → ∃ host', t.hosts h = some host' ∧
      host'.links = host.links)
    (hcame : ∀ h host', t.hosts h = some host' → host'.links = [] ∨
      ∃ host, s.hosts h = some host ∧ host'.links = host.links) : Wired t := by
  refine ⟨fun l h hl => ?_, fun l w h hl => ?_, fun h host' x hh hx => ?_, fun h host' hh => ?_⟩
  · rw [hends] at hl ⊢
    exact hw.apart l h hl
  · rw [hends] at hl
    obtain ⟨host, hhost, hmem⟩ := hw.plugged l w h hl
    obtain ⟨host', hhost', heq⟩ := hkept h host hhost
    exact ⟨host', hhost', by rw [haddrs, heq]; exact hmem⟩
  · rw [hends, haddrs]
    obtain hnil | ⟨host, hhost, heq⟩ := hcame h host' hh
    · rw [hnil] at hx
      cases hx
    · exact hw.used h host x hhost (heq ▸ hx)
  · obtain hnil | ⟨host, hhost, heq⟩ := hcame h host' hh
    · rw [hnil]
      exact List.nodup_nil
    · rw [heq]
      exact hw.keys h host hhost

theorem Wired.end_unique (hw : Wired s) {w' : Bool} (hl : (s.links l).hosts w = some h)
    (hl' : (s.links l).hosts w' = some h) : w = w' := by
  cases w <;> cases w'
  · rfl
  · exact absurd hl' (hw.apart l h hl)
  · exact absurd hl (hw.apart l h hl')
  · rfl

theorem Wired.which (hw : Wired s) (hl : (s.links l).hosts w = some h) :
    (s.links l).which h = some w := by
  unfold SimLink.which
  cases w
  · rw [if_neg (hw.apart l h hl), if_pos hl]
  · rw [if_pos hl]

theorem lookup_of_mem {links : List (Address × ℕ)} (hkeys : (links.map Prod.fst).Nodup)
    {x : Address × ℕ} (hx : x ∈ links) : links.lookup x.1 = some x.2 := by
  induction links with
  | nil => cases hx
  | cons y links ih =>
    obtain ⟨hnot, hkeys⟩ := List.nodup_cons.mp hkeys
    obtain rfl | hx := List.mem_cons.mp hx
    · exact List.lookup_cons_self
    · rw [List.lookup_cons, beq_eq_false_iff_ne.mpr fun heq => hnot ?_]
      · exact ih hkeys hx
      · exact heq ▸ List.mem_map_of_mem hx

theorem mem_of_lookup {links : List (Address × ℕ)} {a : Address}
    (hx : links.lookup a = some l) : (a, l) ∈ links := by
  induction links with
  | nil => cases hx
  | cons y links ih =>
    rw [List.lookup_cons] at hx
    cases hay : a == y.1 with
    | true =>
      rw [hay] at hx
      rw [← Option.some.inj hx, eq_of_beq hay]
      exact List.mem_cons_self
    | false =>
      rw [hay] at hx
      exact List.mem_cons_of_mem _ (ih hx)

/-! ## Disconnecting -/

/-- The host without the link `l`. -/
def SimHost.without (host : SimHost) (l : ℕ) : SimHost :=
  { host with links := host.links.filter fun x => x.2 ≠ l }

/-- At the end `w` of a link, its address and itself say the same. -/
theorem Wired.filter_eq (hw : Wired s) {host : SimHost} (hl : (s.links l).hosts w = some h)
    (hhost : s.hosts h = some host) :
    (host.links.filter fun x => x.1 ≠ (s.links l).addrs w) = (host.without l).links := by
  refine List.filter_congr fun x hx => ?_
  obtain ⟨w', hw', haddr⟩ := hw.used h host x hhost hx
  obtain ⟨host', hhost', hmem⟩ := hw.plugged l w h hl
  rw [hhost] at hhost'
  cases hhost'
  refine decide_eq_decide.mpr (not_congr ⟨fun heq => ?_, fun heq => ?_⟩)
  · have hx' := lookup_of_mem (hw.keys h host hhost) hx
    have hl' := lookup_of_mem (hw.keys h host hhost) hmem
    rw [heq, hl'] at hx'
    exact (Option.some.inj hx').symm
  · rw [heq] at hw' haddr
    rw [hw.end_unique hl hw']
    exact haddr.symm

theorem Wired.without_eq (hw : Wired s) {host : SimHost} (hl : ∀ w, (s.links l).hosts w ≠ some h)
    (hhost : s.hosts h = some host) : host.without l = host := by
  unfold SimHost.without
  rw [List.filter_eq_self.mpr fun x hx => ?_]
  obtain ⟨w, hw, -⟩ := hw.used h host x hhost hx
  exact decide_eq_true fun heq => hl w (heq ▸ hw)

theorem Wired.detach (hw : Wired s) : ∃ t, s.detach l w = some t ∧ Wired t ∧
    (t.links l).hosts = Function.update (s.links l).hosts w none ∧
    ∀ k, t.hosts k = if (s.links l).hosts w = some k then (s.hosts k).map (·.without l)
      else s.hosts k := by
  unfold Simulator.detach
  cases hl : (s.links l).hosts w with
  | none =>
    refine ⟨s, rfl, hw, ?_, fun k => by rw [if_neg nofun]⟩
    rw [← hl, Function.update_eq_self]
  | some h =>
    obtain ⟨host, hhost, hmem⟩ := hw.plugged l w h hl
    dsimp only
    rw [hhost, Option.bind_some, lookup_of_mem (hw.keys h host hhost) hmem,
      if_neg (not_not.mpr rfl)]
    refine ⟨_, rfl, ?_⟩
    generalize ht : ({ s.modHost h _ with links := _ } : Simulator) = t
    have hhosts : ∀ k, t.hosts k = if some h = some k then (s.hosts k).map (·.without l)
        else s.hosts k := fun k => by
      rw [← ht]
      refine (modHost_hosts _ k).trans ?_
      split_ifs with hkh hhk hhk
      · rw [hkh, hhost, Option.map_some, Option.map_some, hw.filter_eq hl hhost]
        rfl
      · exact absurd (congrArg some hkh.symm) hhk
      · exact absurd (Option.some.inj hhk).symm hkh
      · rfl
    have hends : ∀ k w', (t.links k).hosts w' =
        if k = l ∧ w' = w then none else (s.links k).hosts w' := fun k w' => by
      rw [← ht]
      dsimp only
      rw [Function.update_apply]
      split_ifs with hkl hww hww
      · rw [hww.2]
        exact Function.update_self ..
      · refine (Function.update_of_ne (fun heq => hww ⟨hkl, heq⟩) ..).trans ?_
        rw [hkl]
        rfl
      · exact absurd hww.1 hkl
      · rfl
    have haddrs : ∀ k, (t.links k).addrs = (s.links k).addrs := fun k => by
      rw [← ht]
      dsimp only
      rw [Function.update_apply]
      split_ifs with hkl
      · rw [hkl]
        rfl
      · rfl
    refine ⟨⟨fun k j hj => ?_, fun k w' j hj => ?_, fun j host' x hj hx => ?_,
      fun j host' hj => ?_⟩, ?_, hhosts⟩
    · rw [hends] at hj ⊢
      split_ifs at hj ⊢ with hww
      · exact nofun
      · exact hw.apart k j hj
    · rw [hends] at hj
      split_ifs at hj with hww
      obtain ⟨host', hhost', hmem'⟩ := hw.plugged k w' j hj
      rw [hhosts, haddrs]
      split_ifs with hhj
      · refine ⟨host'.without l, by rw [hhost']; rfl, List.mem_filter.mpr ⟨hmem', ?_⟩⟩
        refine decide_eq_true fun hkl => hww ⟨hkl, ?_⟩
        dsimp only at hkl
        rw [hkl, ← Option.some.inj hhj] at hj
        exact (hw.end_unique hl hj).symm
      · exact ⟨host', hhost', hmem'⟩
    · rw [hhosts] at hj
      split_ifs at hj with hhj
      · obtain ⟨host'', hhost'', rfl⟩ := Option.map_eq_some_iff.mp hj
        obtain ⟨hx, hne⟩ := List.mem_filter.mp hx
        obtain ⟨w', hw', haddr⟩ := hw.used j host'' x hhost'' hx
        refine ⟨w', ?_, by rw [haddrs]; exact haddr⟩
        rw [hends, if_neg fun heq => of_decide_eq_true hne heq.1]
        exact hw'
      · obtain ⟨w', hw', haddr⟩ := hw.used j host' x hj hx
        refine ⟨w', ?_, by rw [haddrs]; exact haddr⟩
        rw [hends, if_neg fun heq => hhj ?_]
        · exact hw'
        · rw [← hl, ← heq.1, ← heq.2]
          exact hw'
    · rw [hhosts] at hj
      split_ifs at hj
      · obtain ⟨host'', hhost'', rfl⟩ := Option.map_eq_some_iff.mp hj
        exact (hw.keys j host'' hhost'').sublist (List.filter_sublist.map _)
      · exact hw.keys j host' hj
    · funext w'
      rw [hends, Function.update_apply]
      simp only [true_and]

/-- **A link is disconnected from its hosts.** -/
theorem Wired.disconnect (hw : Wired s) (l : ℕ) : ∃ t, s.disconnect l = some t ∧ Wired t ∧
    ∀ k, t.hosts k = (s.hosts k).map (·.without l) := by
  obtain ⟨u, hu, hwu, hends, hhosts⟩ := hw.detach (l := l) (w := false)
  obtain ⟨t, ht, hwt, -, hhosts'⟩ := hwu.detach (l := l) (w := true)
  refine ⟨t, by unfold Simulator.disconnect; rw [hu, Option.bind_some, ht], hwt, fun k => ?_⟩
  rw [hhosts', hhosts, hends, Function.update_of_ne (by decide)]
  split_ifs with htrue hfalse hfalse
  · exact absurd htrue (hw.apart l k hfalse)
  · rfl
  · rfl
  · cases hk : s.hosts k with
    | none => rfl
    | some host =>
      rw [Option.map_some, hw.without_eq (fun w => ?_) hk]
      cases w
      · exact hfalse
      · exact htrue

/-- **A host is detached from all of its links.** -/
theorem unplugAll_spec {x : List (Address × ℕ)} {host : SimHost} (hw : Wired s)
    (hhost : s.hosts h = some host) (hlinks : host.links = x) :
    ∃ t host', (x.map Prod.fst).foldlM (unplug h) s = some t ∧ Wired t ∧
      t.hosts h = some host' ∧ host'.links = [] := by
  induction x generalizing s host with
  | nil => exact ⟨s, host, rfl, hw, hhost, hlinks⟩
  | cons y x ih =>
    have hkeys := hw.keys h host hhost
    have hy : y ∈ host.links := hlinks ▸ List.mem_cons_self
    obtain ⟨t, ht, hwt, hhosts⟩ := hw.disconnect y.2
    have hstep : s.unplug h y.1 = some t := by
      unfold unplug
      rw [hhost, Option.bind_some, lookup_of_mem hkeys hy, Option.bind_some, ht]
    have hhost' : t.hosts h = some (host.without y.2) := by rw [hhosts, hhost]; rfl
    have hrest : (host.without y.2).links = x := by
      unfold SimHost.without
      rw [hlinks, List.filter_cons_of_neg (by simp), List.filter_eq_self.mpr fun z hz => ?_]
      -- Another address of the host with the same link would be that of the same end.
      refine decide_eq_true fun heq => ?_
      obtain ⟨w, hwy, hay⟩ := hw.used h host y hhost hy
      obtain ⟨w', hwz, haz⟩ := hw.used h host z hhost (hlinks ▸ List.mem_cons_of_mem _ hz)
      rw [heq] at hwz haz
      rw [hw.end_unique hwz hwy, hay] at haz
      rw [hlinks] at hkeys
      exact (List.nodup_cons.mp hkeys).1 (haz ▸ List.mem_map_of_mem hz)
    obtain ⟨u, host'', hu, hwu, hhost'', hnil⟩ := ih hwt hhost' hrest
    refine ⟨u, host'', ?_, hwu, hhost'', hnil⟩
    rw [List.map_cons, List.foldlM_cons, hstep]
    exact hu

/-! ## Connecting -/

/-- **A link is connected.** -/
theorem Wired.connect {downHost upHost : ℕ} {downAddr upAddr : Address} (hw : Wired s)
    (hs : s.connect l downHost downAddr upHost upAddr = some t) : Wired t := by
  unfold Simulator.connect at hs
  split_ifs at hs with hpre
  simp only [not_or, not_not] at hpre
  obtain ⟨hne, -, hfalse, htrue⟩ := hpre
  obtain ⟨d, hd, hs⟩ := Option.bind_eq_some_iff.mp hs
  obtain ⟨u, hu, hs⟩ := Option.bind_eq_some_iff.mp hs
  split_ifs at hs with hfree
  simp only [not_or, not_not] at hfree
  obtain ⟨hdfree, hufree⟩ := hfree
  cases hs
  generalize ht : modHost _ upHost _ = t
  have hends : ∀ k, (t.links k).hosts =
      if k = l then fun w => some (if w then upHost else downHost) else (s.links k).hosts := by
    intro k
    rw [← ht]
    dsimp only [modHost]
    rw [Function.update_apply]
    split_ifs <;> rfl
  have haddrs : ∀ k, (t.links k).addrs =
      if k = l then fun w => if w then upAddr else downAddr else (s.links k).addrs := by
    intro k
    rw [← ht]
    dsimp only [modHost]
    rw [Function.update_apply]
    split_ifs <;> rfl
  have hhosts : ∀ k, t.hosts k = if k = upHost then some { u with links := (upAddr, l) :: u.links }
      else if k = downHost then some { d with links := (downAddr, l) :: d.links }
      else s.hosts k := by
    intro k
    rw [← ht, modHost_hosts, modHost_hosts, modHost_hosts, if_neg hne]
    dsimp only
    rw [hd, hu]
    rfl
  have hnot : ∀ (host : SimHost) (a : Address), host.links.lookup a = none →
      (host.links.map Prod.fst).Nodup → a ∉ host.links.map Prod.fst := by
    intro host a hnone hkeys hin
    obtain ⟨x, hx, rfl⟩ := List.mem_map.mp hin
    rw [lookup_of_mem hkeys hx] at hnone
    cases hnone
  -- The link was at no host.
  have hunused : ∀ k host x, s.hosts k = some host → x ∈ host.links → x.2 ≠ l := by
    intro k host x hk hx hxl
    obtain ⟨w, hw', -⟩ := hw.used k host x hk hx
    rw [hxl] at hw'
    cases w
    · rw [hfalse] at hw'
      cases hw'
    · rw [htrue] at hw'
      cases hw'
  refine ⟨fun k j hj => ?_, fun k w j hj => ?_, fun j host x hj hx => ?_, fun j host hj => ?_⟩
  · rw [hends] at hj ⊢
    split_ifs at hj ⊢
    · cases hj
      simpa using hne
    · exact hw.apart k j hj
  · rw [hends] at hj
    rw [haddrs, hhosts]
    by_cases hkl : k = l
    · rw [if_pos hkl] at hj ⊢
      cases w
      · rw [show j = downHost from (Option.some.inj hj).symm, if_neg (Ne.symm hne), if_pos rfl, hkl]
        exact ⟨_, rfl, List.mem_cons_self⟩
      · rw [show j = upHost from (Option.some.inj hj).symm, if_pos rfl, hkl]
        exact ⟨_, rfl, List.mem_cons_self⟩
    · rw [if_neg hkl] at hj ⊢
      obtain ⟨host, hhost, hmem⟩ := hw.plugged k w j hj
      split_ifs with hju hjd
      · rw [hju, hu] at hhost
        cases hhost
        exact ⟨_, rfl, List.mem_cons_of_mem _ hmem⟩
      · rw [hjd, hd] at hhost
        cases hhost
        exact ⟨_, rfl, List.mem_cons_of_mem _ hmem⟩
      · exact ⟨host, hhost, hmem⟩
  · rw [hhosts] at hj
    rw [hends, haddrs]
    -- What was there before is at the ends of other links.
    have hbefore : ∀ host', s.hosts j = some host' → x ∈ host'.links →
        ∃ w, (if x.2 = l then fun w => some (if w then upHost else downHost)
          else (s.links x.2).hosts) w = some j ∧
          (if x.2 = l then fun w => if w then upAddr else downAddr
            else (s.links x.2).addrs) w = x.1 := fun host' hhost' hx => by
      rw [if_neg (hunused j host' x hhost' hx), if_neg (hunused j host' x hhost' hx)]
      exact hw.used j host' x hhost' hx
    split_ifs at hj with hju hjd
    · cases hj
      obtain rfl | hx := List.mem_cons.mp hx
      · exact ⟨true, by rw [if_pos rfl, hju]; rfl, by rw [if_pos rfl]; rfl⟩
      · exact hbefore u (hju ▸ hu) hx
    · cases hj
      obtain rfl | hx := List.mem_cons.mp hx
      · exact ⟨false, by rw [if_pos rfl, hjd]; rfl, by rw [if_pos rfl]; rfl⟩
      · exact hbefore d (hjd ▸ hd) hx
    · exact hbefore host hj hx
  · rw [hhosts] at hj
    split_ifs at hj with hju hjd
    · cases hj
      exact List.nodup_cons.mpr ⟨hnot u _ hufree (hw.keys _ u hu), hw.keys _ u hu⟩
    · cases hj
      exact List.nodup_cons.mpr ⟨hnot d _ hdfree (hw.keys _ d hd), hw.keys _ d hd⟩
    · exact hw.keys j host hj

end Sst.Sim
