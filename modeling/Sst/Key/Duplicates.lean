import Sst.Key.Agreement

/-!
# Duplicates at the responder

A responder that receives arbitrary messages, any number of times and from any address, while the
keys of its host expire and its flows end.

* `Intake`: the responder with the flows that it created.
* `World.gotDhI2_cases`: an I2 either creates no flow, or it is accepted under a new cookie.
* `Deduped`: the two caches know every flow.
* **`no_duplicates`**: one flow for each cookie and key, and one live flow for each ChkI1.
* `no_duplicates_rekeyed`: an I2 that names another public key is answered with an R1.
* **`lost_answer`**: a ChkI1 for a live flow is not answered.
-/

namespace Sst.Key

open Symbolic Transition

/-! ## The machine -/

/-- A responder. `under` lists the flows created by I2 messages under the present key of each
group, by their cookies, with the messages sent at their creation; `live` lists the flows created
by ChkI1 messages that still exist. -/
structure Intake where
  w : World
  under : ℕ → List (Cookie × List Message)
  live : List ArmorId

/-- A message arrives, the key of a group expires, or a flow with its armor is deleted. -/
inductive Intake.Op
  | receive (m : Message) (src : Endpoint) (r : Rand) (a : Answer)
  | timeout (group : ℕ)
  | delete (id : ArmorId)

namespace Intake

/-- The number of flows created on the way to `w`. -/
def opened (x : Intake) (w : World) : ℕ := w.r.created.length - x.w.r.created.length

/-- The messages sent on the way to `w`. -/
def sent (x : Intake) (w : World) : List Message := w.sentR.drop x.w.sentR.length

def receive (x : Intake) (m : Message) (src : Endpoint) (r : Rand) (a : Answer) : Intake :=
  let w := x.w.receiveR m src r a
  match m with
  | .chkI1 d :: _ =>
    { x with w, live := List.replicate (x.opened w) ⟨.ip src, d.cki, d.chani⟩ ++ x.live }
  | .dhI2 d :: _ =>
    { x with
      w
      under := Function.update x.under d.group
        (List.replicate (x.opened w) (d.hhkr, x.sent w) ++ x.under d.group) }
  | _ => { x with w }

theorem receive_chkI1 (x : Intake) (d : ChkI1) (rest : Message) (src : Endpoint) (r : Rand)
    (a : Answer) : x.receive (.chkI1 d :: rest) src r a =
      { x with
        w := x.w.gotChkI1 d src a
        live := List.replicate (x.opened (x.w.gotChkI1 d src a)) ⟨.ip src, d.cki, d.chani⟩ ++
          x.live } := rfl

theorem receive_dhI2 (x : Intake) (d : DhI2) (rest : Message) (src : Endpoint) (r : Rand)
    (a : Answer) : x.receive (.dhI2 d :: rest) src r a =
      { x with
        w := x.w.gotDhI2 d src r a
        under := Function.update x.under d.group
          (List.replicate (x.opened (x.w.gotDhI2 d src r a))
            (d.hhkr, x.sent (x.w.gotDhI2 d src r a)) ++ x.under d.group) } := rfl

def step (x : Intake) : Op → Option Intake
  | .receive m src r a => some (x.receive m src r a)
  | .timeout group => some { x with
      w := { x.w with rh := x.w.rh.timeout group }
      under := Function.update x.under group [] }
  | .delete id =>
    if id ∈ x.live then
      some { x with w := x.w.checksumArmorDestroyed id, live := x.live.erase id }
    else none

end Intake

/-- The responder, before the first message. -/
def intake (c : Config) : Machine Intake Intake.Op := ⟨⟨.new c, fun _ => [], []⟩, Intake.step⟩

/-! ## What a message does -/

theorem Host.getDHKey_again (h : Host) (group : ℕ) (r : Rand) :
    ((h.getDHKey group r).1.getDHKey group r).1 = (h.getDHKey group r).1 := by
  by_cases hg : keygroupMax ≤ group
  · simp only [getDHKey, if_pos hg]
  · unfold getDHKey
    rw [if_neg hg]
    cases hk : h.dhkeys group with
    | some hk' => simp only [hg, if_false, hk]
    | none =>
      by_cases h0 : group = 0
      · simp only [h0, if_true, if_neg (show ¬ keygroupMax ≤ 0 by decide), h0 ▸ hk]
      · simp only [if_neg h0, hg, if_false, Function.update_self]

theorem Host.getDHKey_kept {h : Host} {g : ℕ} {hk : DHKey} (hg : h.dhkeys g = some hk)
    {group : ℕ} {r : Rand} : (h.getDHKey group r).1.dhkeys g = some hk := by
  unfold getDHKey
  split
  · exact hg
  · split
    · exact hg
    · rename_i hnone
      split
      · exact hg
      · have hne : g ≠ group := by
          rintro rfl
          rw [hnone] at hg
          cases hg
        dsimp only
        rw [Function.update_of_ne hne]
        exact hg

theorem Host.getDHKey_none {h h' : Host} {group : ℕ} {r : Rand}
    (he : h.getDHKey group r = (h', none)) : h' = h := by
  unfold getDHKey at he
  split at he
  · cases he
    rfl
  · split at he
    · cases he
    · split at he
      · cases he
        rfl
      · cases he

namespace World

theorem gotDhI1_frame (w : World) (d : DhI1) (src : Endpoint) (r : Rand) :
    (w.gotDhI1 d src r).r = w.r ∧ (w.gotDhI1 d src r).rh = (w.rh.getDHKey d.group r).1 := by
  unfold gotDhI1
  rcases he : w.rh.getDHKey d.group r with ⟨rh, _ | hk⟩
  · exact ⟨rfl, (Host.getDHKey_none he).symm⟩
  · dsimp only
    split_ifs <;> exact ⟨rfl, rfl⟩

/-- **An I2 creates no flow, or it is accepted** under the key that it names, with a cookie that
was not accepted before. -/
theorem gotDhI2_cases (w : World) (d : DhI2) (src : Endpoint) (r : Rand) (a : Answer) :
    ((w.gotDhI2 d src r a).r = w.r ∧
      (w.gotDhI2 d src r a).rh = (w.rh.getDHKey d.group r).1) ∨
    ∃ hk kii chan ulpr, (w.rh.getDHKey d.group r).2 = some hk ∧ d.dhr = hk.pubkey ∧
      hk.r2cache.lookup d.hhkr = none ∧ d.hhkr.pubkey = hk.pubkey ∧
      w.gotDhI2 d src r a =
        { w with rh := (w.rh.getDHKey d.group r).1 }.acceptDhI2 d kii hk chan ulpr := by
  generalize hv : w.gotDhI2 d src r a = v
  unfold gotDhI2 at hv
  dsimp only at hv
  split at hv
  · obtain ⟨h1, h2⟩ := gotDhI1_frame { w with rh := (w.rh.getDHKey d.group r).1 }
      ⟨d.group, d.keylen, .hash d.ni, d.dhi⟩ src r
    subst hv
    exact .inl ⟨h1, h2.trans (Host.getDHKey_again ..)⟩
  · rename_i hk hf
    obtain ⟨hkey, hname⟩ := Option.filter_eq_some_iff.1 hf
    split at hv
    · subst hv
      exact .inl ⟨rfl, rfl⟩
    · rename_i hmiss
      split at hv
      · subst hv
        exact .inl ⟨rfl, rfl⟩
      · rename_i hcookie
        split at hv
        · subst hv
          exact .inl ⟨rfl, rfl⟩
        · split at hv
          · subst hv
            exact .inl ⟨rfl, rfl⟩
          · rename_i kii _
            iterate 5
              split at hv
              · subst hv
                exact .inl ⟨rfl, rfl⟩
            split at hv
            · subst hv
              exact .inl ⟨rfl, rfl⟩
            · rename_i chan ulpr _
              refine .inr ⟨hk, kii, chan, ulpr, hkey, of_decide_eq_true hname, hmiss, ?_, hv.symm⟩
              rw [not_not.1 hcookie]

theorem gotChkI1_cases (w : World) (d : ChkI1) (src : Endpoint) (a : Answer) :
    (w.gotChkI1 d src a).rh = w.rh ∧
    ((w.gotChkI1 d src a).r = w.r ∨ ⟨.ip src, d.cki, d.chani⟩ ∉ w.r.chkflows ∧
      ∃ e, (w.gotChkI1 d src a).r =
        ⟨⟨.ip src, d.cki, d.chani⟩ :: w.r.chkflows, e :: w.r.created⟩) := by
  unfold gotChkI1
  dsimp only
  split
  · exact ⟨rfl, .inl rfl⟩
  · split
    · exact ⟨rfl, .inl rfl⟩
    · rename_i hnew
      split
      · exact ⟨rfl, .inl rfl⟩
      · split
        · exact ⟨rfl, .inl rfl⟩
        · exact ⟨rfl, .inr ⟨hnew, _, rfl⟩⟩

end World

/-! ## The invariant -/

/-- **The caches know the flows**: each flow of an I2 under a key that is in use has its answer in
the cache of that key, and each live flow of a ChkI1 is among `chkflows`. -/
structure Deduped (x : Intake) : Prop where
  group : ∀ g hk, x.w.rh.dhkeys g = some hk → hk.pubkey.group = g ∧ g < keygroupMax
  unused : ∀ g, x.w.rh.dhkeys g = none → x.under g = []
  cached : ∀ g hk, x.w.rh.dhkeys g = some hk → ∀ e ∈ x.under g,
    e.1.pubkey = hk.pubkey ∧ ∃ m, e.2 = [m] ∧ hk.r2cache.lookup e.1 = some m
  once : ∀ g, ((x.under g).map Prod.fst).Nodup
  live : x.live.Nodup
  known : ∀ id ∈ x.live, id ∈ x.w.r.chkflows

namespace Deduped

variable {x : Intake} {src : Endpoint} {r : Rand}

theorem new (c : Config) : Deduped (intake c).init where
  group g hk h := by cases h
  unused g _ := rfl
  cached g hk h := by cases h
  once g := List.nodup_nil
  live := List.nodup_nil
  known id h := absurd h List.not_mem_nil

theorem lookup (hx : Deduped x) (g : ℕ) (r : Rand) {w : World} (hr : w.r = x.w.r)
    (hrh : w.rh = (x.w.rh.getDHKey g r).1) : Deduped { x with w } := by
  have hkeys : ∀ g' hk, w.rh.dhkeys g' = some hk → x.w.rh.dhkeys g' = some hk ∨
      x.w.rh.dhkeys g' = none ∧ hk.pubkey.group = g' ∧ g' < keygroupMax := by
    intro g' hk h
    rw [hrh] at h
    unfold Host.getDHKey at h
    split at h
    · exact .inl h
    · rename_i hmax
      split at h
      · exact .inl h
      · rename_i hnone
        split at h
        · exact .inl h
        · dsimp only at h
          rw [Function.update_apply] at h
          split at h
          · rename_i hg
            cases h
            exact .inr ⟨hg ▸ hnone, hg.symm, hg ▸ not_le.1 hmax⟩
          · exact .inl h
  have hnone : ∀ g', w.rh.dhkeys g' = none → x.w.rh.dhkeys g' = none := by
    intro g' h
    cases hk : x.w.rh.dhkeys g' with
    | none => rfl
    | some hk' =>
      rw [hrh, Host.getDHKey_kept hk] at h
      cases h
  refine ⟨fun g' hk h => ?_, fun g' h => hx.unused g' (hnone g' h), fun g' hk h e he => ?_, hx.once,
    hx.live, fun id hid => ?_⟩
  · rcases hkeys g' hk h with h | ⟨-, h⟩
    · exact hx.group g' hk h
    · exact h
  · rcases hkeys g' hk h with h | ⟨h, -⟩
    · exact hx.cached g' hk h e he
    · rw [hx.unused g' h] at he
      cases he
  · change id ∈ w.r.chkflows
    rw [hr]
    exact hx.known id hid

theorem congr (hx : Deduped x) {w : World} (hr : w.r = x.w.r) (hrh : w.rh = x.w.rh) :
    Deduped { x with w } := by
  refine ⟨fun g hk h => hx.group g hk (hrh ▸ h), fun g h => hx.unused g (hrh ▸ h),
    fun g hk h => hx.cached g hk (hrh ▸ h), hx.once, hx.live, fun id hid => ?_⟩
  change id ∈ w.r.chkflows
  rw [hr]
  exact hx.known id hid

theorem chkI1 (hx : Deduped x) (d : ChkI1) (rest : Message) (a : Answer) :
    Deduped (x.receive (.chkI1 d :: rest) src r a) := by
  rw [Intake.receive_chkI1]
  obtain ⟨hrh, hr | ⟨hnew, e, hr⟩⟩ := x.w.gotChkI1_cases d src a
  · rw [Intake.opened, hr, Nat.sub_self]
    exact hx.congr hr hrh
  · rw [Intake.opened, hr, List.length_cons, Nat.add_sub_cancel_left]
    refine ⟨fun g hk h => hx.group g hk (hrh ▸ h), fun g h => hx.unused g (hrh ▸ h),
      fun g hk h => hx.cached g hk (hrh ▸ h), hx.once,
      hx.live.cons fun h => hnew (hx.known _ h), fun id hid => ?_⟩
    change id ∈ (x.w.gotChkI1 d src a).r.chkflows
    rw [hr]
    rcases List.mem_cons.1 hid with rfl | hid
    · exact List.mem_cons_self
    · exact List.mem_cons_of_mem _ (hx.known id hid)

theorem accept (hx : Deduped x) {d : DhI2} {hk : DHKey} (hg : x.w.rh.dhkeys d.group = some hk)
    (hmiss : hk.r2cache.lookup d.hhkr = none) (hcookie : d.hhkr.pubkey = hk.pubkey)
    (kii : KeyIdentI) (chan : Channel) (ulpr : Bytes) :
    ∃ m, (x.w.acceptDhI2 d kii hk chan ulpr).sentR = x.w.sentR ++ [m] ∧
      Deduped { x with
        w := x.w.acceptDhI2 d kii hk chan ulpr
        under := Function.update x.under d.group ((d.hhkr, [m]) :: x.under d.group) } := by
  have hnew : d.hhkr ∉ (x.under d.group).map Prod.fst := by
    intro h
    obtain ⟨e, he, hc⟩ := List.mem_map.1 h
    obtain ⟨-, m, -, hm⟩ := hx.cached _ _ hg e he
    rw [hc, hmiss] at hm
    cases hm
  refine ⟨_, rfl, ⟨fun g k h => ?_, fun g h => ?_, fun g k h e he => ?_, fun g => ?_, hx.live,
    hx.known⟩⟩
  · rcases eq_or_ne g d.group with rfl | hne
    · cases (Function.update_self ..).symm.trans h
      exact hx.group _ hk hg
    · exact hx.group g k ((Function.update_of_ne hne ..).symm.trans h)
  · rcases eq_or_ne g d.group with rfl | hne
    · cases (Function.update_self ..).symm.trans h
    · exact (Function.update_of_ne hne ..).trans
        (hx.unused g ((Function.update_of_ne hne ..).symm.trans h))
  · rcases eq_or_ne g d.group with rfl | hne
    · cases (Function.update_self ..).symm.trans h
      dsimp only at he
      rw [Function.update_self] at he
      rcases List.mem_cons.1 he with rfl | he
      · exact ⟨hcookie, _, rfl, List.lookup_cons_self ..⟩
      · obtain ⟨h1, m, h2, h3⟩ := hx.cached _ _ hg e he
        refine ⟨h1, m, h2, ?_⟩
        have hne : (e.1 == d.hhkr) = false := by
          refine beq_eq_false_iff_ne.2 fun h => hnew ?_
          exact h ▸ List.mem_map_of_mem he
        rw [List.lookup_cons, hne]
        exact h3
    · dsimp only at he
      rw [Function.update_of_ne hne] at he
      exact hx.cached g k ((Function.update_of_ne hne ..).symm.trans h) e he
  · dsimp only
    rcases eq_or_ne g d.group with rfl | hne
    · rw [Function.update_self]
      exact List.nodup_cons.2 ⟨hnew, hx.once _⟩
    · rw [Function.update_of_ne hne]
      exact hx.once g

theorem dhI2 (hx : Deduped x) (d : DhI2) (rest : Message) (a : Answer) :
    Deduped (x.receive (.dhI2 d :: rest) src r a) := by
  rw [Intake.receive_dhI2]
  obtain ⟨hr, hrh⟩ | ⟨hk, kii, chan, ulpr, hkey, -, hmiss, hcookie, he⟩ :=
    x.w.gotDhI2_cases d src r a
  · rw [Intake.opened, hr, Nat.sub_self, List.replicate_zero, List.nil_append,
      Function.update_eq_self]
    exact hx.lookup d.group r hr hrh
  · have hx' := hx.lookup d.group r (w := { x.w with rh := (x.w.rh.getDHKey d.group r).1 }) rfl rfl
    have hg := (Host.getDHKey_keys (Prod.mk.eta (p := x.w.rh.getDHKey d.group r)).symm).2 hk hkey
    obtain ⟨m, hm, h⟩ := hx'.accept hg hmiss hcookie kii chan ulpr
    have h1 : x.opened (x.w.gotDhI2 d src r a) = 1 := by
      rw [he]
      exact Nat.add_sub_cancel_left ..
    have h2 : x.sent (x.w.gotDhI2 d src r a) = [m] := by
      rw [he, Intake.sent, hm]
      exact List.drop_left ..
    rw [h1, h2, he]
    exact h

theorem receive (hx : Deduped x) (m : Message) (a : Answer) : Deduped (x.receive m src r a) := by
  match m with
  | [] => exact hx.congr rfl rfl
  | .chkI1 d :: rest => exact hx.chkI1 d rest a
  | .dhI1 d :: rest =>
    obtain ⟨hr, hrh⟩ := x.w.gotDhI1_frame d src r
    exact hx.lookup d.group r hr hrh
  | .dhI2 d :: rest => exact hx.dhI2 d rest a
  | .chkR1 _ :: _ => exact hx.congr rfl rfl
  | .dhR1 _ :: _ => exact hx.congr rfl rfl
  | .dhR2 _ :: _ => exact hx.congr rfl rfl

/-- **Every step keeps the invariant.** -/
theorem step (hx : Deduped x) {op : Intake.Op} {x' : Intake} (h : x.step op = some x') :
    Deduped x' := by
  cases op with
  | receive m src r a =>
    cases h
    exact hx.receive m a
  | timeout group =>
    cases h
    have hkeys : ∀ g hk, (x.w.rh.timeout group).dhkeys g = some hk →
        g ≠ group ∧ x.w.rh.dhkeys g = some hk := by
      intro g hk h
      rcases eq_or_ne g group with rfl | hne
      · cases (Function.update_self ..).symm.trans h
      · exact ⟨hne, (Function.update_of_ne hne ..).symm.trans h⟩
    refine ⟨fun g hk h => hx.group g hk (hkeys g hk h).2, fun g h => ?_, fun g hk h e he => ?_,
      fun g => ?_, hx.live, hx.known⟩
    · rcases eq_or_ne g group with rfl | hne
      · exact Function.update_self ..
      · exact (Function.update_of_ne hne ..).trans
          (hx.unused g ((Function.update_of_ne hne ..).symm.trans h))
    · obtain ⟨hne, hg⟩ := hkeys g hk h
      dsimp only at he
      rw [Function.update_of_ne hne] at he
      exact hx.cached g hk hg e he
    · dsimp only
      rcases eq_or_ne g group with rfl | hne
      · rw [Function.update_self]
        exact List.nodup_nil
      · rw [Function.update_of_ne hne]
        exact hx.once g
  | delete id =>
    unfold Intake.step at h
    dsimp only at h
    split at h
    · cases h
      refine ⟨hx.group, hx.unused, hx.cached, hx.once, hx.live.erase id, fun i hi => ?_⟩
      obtain ⟨hne, hi⟩ := (List.Nodup.mem_erase_iff hx.live).1 hi
      exact List.mem_filter.2 ⟨hx.known i hi, decide_eq_true hne⟩
    · cases h

theorem reach {c : Config} (h : (intake c).Reach Machine.always x) : Deduped x :=
  h.invariant (new c) fun _ _ _ _ hx _ hs => hx.step hs

/-- **A known cookie creates no flow**, whatever else the I2 says. -/
theorem gotDhI2_frame (hx : Deduped x) {g : ℕ} {hk : DHKey} (hg : x.w.rh.dhkeys g = some hk)
    {e : Cookie × List Message} (he : e ∈ x.under g) {d : DhI2} (hd : d.hhkr = e.1) (a : Answer) :
    (x.w.gotDhI2 d src r a).r = x.w.r := by
  obtain ⟨hpub, m, -, hm⟩ := hx.cached g hk hg e he
  obtain ⟨hr, -⟩ | ⟨k, kii, chan, ulpr, hkey, -, hmiss, hcookie, -⟩ := x.w.gotDhI2_cases d src r a
  · exact hr
  · -- the cookie names its key, so the key looked up is that of the cookie
    exfalso
    have hx' := hx.lookup d.group r (w := { x.w with rh := (x.w.rh.getDHKey d.group r).1 }) rfl rfl
    have hk' := (Host.getDHKey_keys (Prod.mk.eta (p := x.w.rh.getDHKey d.group r)).symm).2 k hkey
    have hgroup : d.group = g := by
      rw [← (hx'.group _ k hk').1, ← hcookie, hd, hpub, (hx.group g hk hg).1]
    have hsame : some hk = (x.w.rh.getDHKey d.group r).1.dhkeys g := (Host.getDHKey_kept hg).symm
    rw [← hgroup, hk'] at hsame
    cases hsame
    rw [hd, hm] at hmiss
    cases hmiss

theorem gotDhI2_cached (hx : Deduped x) {g : ℕ} {hk : DHKey} (hg : x.w.rh.dhkeys g = some hk)
    {e : Cookie × List Message} (he : e ∈ x.under g) {d : DhI2} (hd : d.hhkr = e.1)
    (hgroup : d.group = g) (hdhr : d.dhr = hk.pubkey) (a : Answer) :
    ∃ m, e.2 = [m] ∧ x.w.gotDhI2 d src r a = x.w.postR m := by
  obtain ⟨-, m, he2, hm⟩ := hx.cached g hk hg e he
  have hmax : ¬ keygroupMax ≤ g := not_le.2 (hx.group g hk hg).2
  have hget : x.w.rh.getDHKey d.group r = (x.w.rh, some hk) := by
    rw [hgroup, Host.getDHKey, if_neg hmax, hg]
  refine ⟨m, he2, ?_⟩
  unfold World.gotDhI2
  simp only [hget, Option.filter_some, hdhr, decide_true, if_true, hd, hm]

end Deduped

/-- **No duplicate state.** While a key is in use at most one flow is created for each cookie, and
a further I2 with that cookie creates none; one that names the key is only answered with the
message sent at the creation. At most one flow lives for each address, checksum key and channel
of a ChkI1. -/
theorem no_duplicates {c : Config} {x : Intake} (h : (intake c).Reach Machine.always x) :
    (∀ g, ((x.under g).map Prod.fst).Nodup) ∧ x.live.Nodup ∧
    ∀ g hk, x.w.rh.dhkeys g = some hk → ∀ e ∈ x.under g, ∀ d src r a, d.hhkr = e.1 →
      (x.w.gotDhI2 d src r a).r = x.w.r ∧
      (d.group = g → d.dhr = hk.pubkey →
        ∃ m, e.2 = [m] ∧ x.w.gotDhI2 d src r a = x.w.postR m) := by
  have hx := Deduped.reach h
  exact ⟨hx.once, hx.live, fun g hk hg e he d src r a hd =>
    ⟨hx.gotDhI2_frame hg he hd a, fun hgroup hdhr => hx.gotDhI2_cached hg he hd hgroup hdhr a⟩⟩

/-- Host 1 on channel 1 asks for a flow, from address 8, with a cookie of host 2's first key. -/
def firstI2 : DhI2 where
  group := 1
  keylen := 128 / 8
  ni := .random 5
  nr := .random 14
  dhi := ⟨1, 11⟩
  dhr := ⟨1, 12⟩
  hhkr := ⟨13, ⟨1, 12⟩, .random 14, .hash (.random 5), 8⟩
  idi := ⟨calcKey (secret ⟨1, 12⟩ ⟨1, 11⟩) (.hash (.random 5)) (.random 14) '1' (256 / 8),
    calcKey (secret ⟨1, 12⟩ ⟨1, 11⟩) (.hash (.random 5)) (.random 14) '2' (256 / 8),
    ⟨1, .key 1, .null, 1, ⟨1, ⟨1, 128 / 8, .hash (.random 5), .random 14, ⟨1, 11⟩, ⟨1, 12⟩, .null⟩⟩,
      []⟩⟩

/-- An I1, and twice the same I2. -/
def twoI2 : List Intake.Op :=
  [.receive [.dhI1 ⟨1, 128 / 8, .hash (.random 5), ⟨1, 11⟩⟩] 8 ⟨12, 13, 14⟩ ⟨true, none, 0⟩,
    .receive [.dhI2 firstI2] 8 ⟨0, 0, 0⟩ ⟨true, some (3, []), 0⟩,
    .receive [.dhI2 firstI2] 8 ⟨0, 0, 0⟩ ⟨true, some (4, []), 0⟩]

theorem no_duplicates_twice : ∃ (x : Intake) (hk : DHKey) (e : Cookie × List Message),
    x.w.rh.dhkeys 1 = some hk ∧ e ∈ x.under 1 ∧
    (∃ m, e.2 = [m] ∧ x.w.gotDhI2 firstI2 8 ⟨0, 0, 0⟩ ⟨true, none, 0⟩ = x.w.postR m) ∧
    x.w.r.created.length = 1 := by
  have hrun : ∃ x, (intake toHost2).run (intake toHost2).init twoI2 = some x ∧
      ∃ hk, x.w.rh.dhkeys 1 = some hk ∧ ∃ e, e ∈ x.under 1 ∧ firstI2.hhkr = e.1 ∧
        firstI2.dhr = hk.pubkey ∧ x.w.r.created.length = 1 :=
    ⟨_, rfl, _, rfl, _, List.mem_cons_self, rfl, rfl, rfl⟩
  obtain ⟨x, hx, hk, hg, e, he, hc, hp, hl⟩ := hrun
  exact ⟨x, hk, e, hg, he,
    ((no_duplicates (Machine.reach_of_run hx)).2.2 1 hk hg e he _ _ _ _ hc).2 rfl hp, hl⟩

/-- The same cookie with another public key is answered with an R1. -/
theorem no_duplicates_rekeyed : ∃ x, (intake toHost2).run (intake toHost2).init twoI2 = some x ∧
    ∃ e ∈ x.under 1, ∃ d : DhI2, d.hhkr = e.1 ∧ ∃ q,
      (x.w.gotDhI2 d 8 ⟨0, 0, 15⟩ ⟨true, none, 0⟩).sentR = x.w.sentR ++ [[.dhR1 q]] ∧
      e.2 ≠ [[.dhR1 q]] :=
  ⟨_, rfl, _, List.mem_cons_self, { firstI2 with dhr := ⟨1, 99⟩ }, rfl, _, rfl, nofun⟩

/-! ## Lost answers -/

/-- The message is answered with this chunk. -/
def Intake.Answers (x : Intake) (m : Message) (src : Endpoint) (r : Rand) (a : Answer)
    (c : Chunk) : Prop :=
  ∃ x', x.step (.receive m src r a) = some x' ∧ x'.w.sentR = x.w.sentR ++ [[c]]

/-- **A lost answer stays lost.** While the flow of a ChkI1 lives, no ChkI1 with the same address,
checksum key and channel is answered with a ChkR1: it is dropped, and nothing changes. -/
theorem lost_answer {c : Config} {x : Intake} (h : (intake c).Reach Machine.always x) {d : ChkI1}
    {src : Endpoint} (hl : ⟨.ip src, d.cki, d.chani⟩ ∈ x.live) (rest : Message) (r : Rand)
    (a : Answer) :
    x.step (.receive (.chkI1 d :: rest) src r a) = some x ∧
    ∀ q, ¬x.Answers (.chkI1 d :: rest) src r a (.chkR1 q) := by
  have hdrop : x.w.gotChkI1 d src a = x.w := by
    unfold World.gotChkI1
    dsimp only
    rw [if_pos ((Deduped.reach h).known _ hl), ite_self]
  have hstep : x.step (.receive (.chkI1 d :: rest) src r a) = some x := by
    change some (x.receive (.chkI1 d :: rest) src r a) = some x
    rw [Intake.receive_chkI1, hdrop, Intake.opened, Nat.sub_self]
    rfl
  refine ⟨hstep, fun q hq => ?_⟩
  obtain ⟨x', hx', hs⟩ := hq
  obtain rfl : x = x' := Option.some.inj (hstep.symm.trans hx')
  exact absurd (List.self_eq_append_right.1 hs) (List.cons_ne_nil _ _)

/-- A ChkI1 is accepted and answered; it is sent again, as the answer is lost. -/
theorem lost_answer_twice : ∃ (x : Intake) (q : ChkR1),
    (intake toHost2).run (intake toHost2).init
      [.receive [.chkI1 ⟨5, 3, [], []⟩] 8 ⟨0, 0, 0⟩ ⟨true, some (4, []), 9⟩] = some x ∧
    ⟨.ip 8, 5, 3⟩ ∈ x.live ∧ x.w.sentR = [[.chkR1 q]] ∧ q.cki = 5 ∧ q.ckr = 9 ∧ q.chanr = 4 ∧
    ∃ x', x.step (.receive [.chkI1 ⟨5, 3, [], []⟩] 8 ⟨0, 0, 0⟩ ⟨true, some (6, []), 9⟩) = some x' ∧
      x'.w.sentR = [[.chkR1 q]] :=
  ⟨_, _, rfl, List.mem_cons_self, rfl, rfl, rfl, rfl, _, rfl, rfl⟩

theorem lost_answer_live : ∃ x : Intake, ⟨.ip 8, 5, 3⟩ ∈ x.live ∧
    x.step (.receive [.chkI1 ⟨5, 3, [], []⟩] 8 ⟨0, 0, 0⟩ ⟨true, some (6, []), 9⟩) = some x := by
  have hrun : ∃ x, (intake toHost2).run (intake toHost2).init
      [.receive [.chkI1 ⟨5, 3, [], []⟩] 8 ⟨0, 0, 0⟩ ⟨true, some (4, []), 9⟩] = some x ∧
      ⟨.ip 8, 5, 3⟩ ∈ x.live :=
    ⟨_, rfl, List.mem_cons_self⟩
  obtain ⟨x, hx, hl⟩ := hrun
  exact ⟨x, hl, (lost_answer (d := ⟨5, 3, [], []⟩) (Machine.reach_of_run hx) hl [] ⟨0, 0, 0⟩
    ⟨true, some (6, []), 9⟩).1⟩

end Sst.Key
