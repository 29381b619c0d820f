import Sst.KeyHost.Completion

/-!
# What an operation leaves of an initiator

* `Attempt.Keeps`: the methods and the group stay, and an initiator that is in no table and whose
  timer does not run does nothing.
* `Attempt.Able`: `sendI1` does not fail.
* `KeyHost.Kept`: all initiators are kept, and the new ones are able.
* **`KeyHost.step_kept`**: every operation keeps the initiators.
-/

namespace Sst.Key

open Symbolic Transition

/-! ## One initiator -/

/-- The methods and the group stay, and **an initiator that is in no table and whose timer does not
run does nothing**. -/
structure Attempt.Keeps (x y : Attempt) : Prop where
  methChk : y.methChk = x.methChk
  methAes : y.methAes = x.methAes
  dhgroup : y.dhgroup = x.dhgroup
  registered : x.registered = false → y.registered = false
  inert : x.registered = false → x.txtimer = false → y.txtimer = false ∧ y.log = x.log

/-- The initiator has a method, and a group for which there are keys. -/
structure Attempt.Able (x : Attempt) : Prop where
  group : x.methAes = true → x.dhgroup ≠ 0 ∧ x.dhgroup < keygroupMax
  chk : x.methAes = false → x.methChk = true

namespace Attempt

variable {x y z : Attempt}

theorem Keeps.refl (x : Attempt) : x.Keeps x := ⟨rfl, rfl, rfl, id, fun _ h => ⟨h, rfl⟩⟩

theorem Keeps.trans (h₁ : x.Keeps y) (h₂ : y.Keeps z) : x.Keeps z where
  methChk := h₂.methChk.trans h₁.methChk
  methAes := h₂.methAes.trans h₁.methAes
  dhgroup := h₂.dhgroup.trans h₁.dhgroup
  registered hr := h₂.registered (h₁.registered hr)
  inert hr ht := by
    obtain ⟨ht', hl⟩ := h₁.inert hr ht
    obtain ⟨ht'', hl'⟩ := h₂.inert (h₁.registered hr) ht'
    exact ⟨ht'', hl'.trans hl⟩

theorem Keeps.able (h : x.Keeps y) (hx : x.Able) : y.Able where
  group ha := by
    rw [h.dhgroup]
    exact hx.group (h.methAes.symm.trans ha)
  chk ha := h.methChk.trans (hx.chk (h.methAes.symm.trans ha))

theorem Keeps.of_busy (h : x.registered = true ∨ x.txtimer = true) (hm : y.methChk = x.methChk)
    (ha : y.methAes = x.methAes) (hg : y.dhgroup = x.dhgroup) (hr : y.registered = x.registered) :
    x.Keeps y := by
  refine ⟨hm, ha, hg, hr.trans, fun hr' ht => ?_⟩
  rcases h with h | h
  · rw [hr'] at h
    cases h
  · rw [ht] at h
    cases h

end Attempt

/-! ## Sending -/

namespace World

variable {v v' : World} {r : Rand}

theorem sendI1_kept (h : v.sendI1 r = some v') : v'.i.methChk = v.i.methChk ∧
    v'.i.methAes = v.i.methAes ∧ v'.i.dhgroup = v.i.dhgroup ∧
    v'.i.registered = v.i.registered := by
  unfold sendI1 at h
  dsimp only at h
  split at h
  · split at h
    · cases h
    · cases h
      exact ⟨rfl, rfl, rfl, rfl⟩
  · split at h
    · cases h
    · cases h
      exact ⟨rfl, rfl, rfl, rfl⟩

theorem sendDhI2_kept (h : v.sendDhI2 = some v') : v'.i.methChk = v.i.methChk ∧
    v'.i.methAes = v.i.methAes ∧ v'.i.dhgroup = v.i.dhgroup ∧
    v'.i.registered = v.i.registered := by
  unfold sendDhI2 at h
  split at h
  · cases h
    exact ⟨rfl, rfl, rfl, rfl⟩
  · cases h

/-- **Where `sendI1` succeeds**, the initiator is able. -/
theorem able_of_sendI1 (h : v.sendI1 r = some v') (h0 : v.i.dhgroup ≠ 0) :
    (v.i.methAes = true → v.i.dhgroup ≠ 0 ∧ v.i.dhgroup < keygroupMax) ∧
    (v.i.methAes = false → v.i.methChk = true) := by
  unfold sendI1 at h
  dsimp only at h
  constructor
  · intro ha
    refine ⟨h0, ?_⟩
    rw [if_pos ha] at h
    by_contra hg
    rw [Host.getDHKey, if_pos (not_lt.1 hg)] at h
    cases h
  · intro ha
    rw [if_neg (by rw [ha]; exact Bool.false_ne_true)] at h
    by_contra hc
    rw [KeyInitiator.chkI1, if_neg hc, if_pos rfl] at h
    cases h

end World

namespace KeyHost

variable {w w' w'' : KeyHost} {k : ℕ} {x y : Attempt} {r : Rand}

/-! ## All initiators -/

/-- **The initiators are kept**, and those that are new and in a table are able. -/
structure Kept (w w' : KeyHost) : Prop where
  old : ∀ (k : ℕ) (x : Attempt), w.objs[k]? = some x → ∃ y, w'.objs[k]? = some y ∧ x.Keeps y
  new : ∀ (k : ℕ) (y : Attempt), w'.objs[k]? = some y → w.objs.length ≤ k → y.registered = true →
    y.Able

theorem Kept.of_objs (h : w'.objs = w.objs) : Kept w w' where
  old k x hx := ⟨x, by rw [h, hx], .refl x⟩
  new k y hy hk := by
    rw [h] at hy
    exact absurd (List.getElem?_eq_some_iff.1 hy).1 (not_lt.2 hk)

theorem Kept.refl (w : KeyHost) : Kept w w := .of_objs rfl

theorem Kept.trans (h₁ : Kept w w') (h₂ : Kept w' w'') : Kept w w'' where
  old k x hx := by
    obtain ⟨y, hy, hxy⟩ := h₁.old k x hx
    obtain ⟨z, hz, hyz⟩ := h₂.old k y hy
    exact ⟨z, hz, hxy.trans hyz⟩
  new k z hz hk hr := by
    by_cases hk' : w'.objs.length ≤ k
    · exact h₂.new k z hz hk' hr
    · -- the initiator is new in the first part
      have hy := List.getElem?_eq_getElem (not_le.1 hk')
      obtain ⟨z', hz', hyz⟩ := h₂.old k _ hy
      obtain rfl : z = z' := Option.some.inj (hz.symm.trans hz')
      refine hyz.able (h₁.new k _ hy hk ?_)
      exact Bool.eq_true_of_not_eq_false fun h0 => by
        rw [hyz.registered h0] at hr
        cases hr

theorem Kept.set (hx : w.objs[k]? = some x) (hxy : x.Keeps y) (h : w'.objs = w.objs.set k y) :
    Kept w w' where
  old j z hz := by
    obtain ⟨hk, -⟩ := List.getElem?_eq_some_iff.1 hx
    rcases eq_or_ne j k with rfl | hne
    · obtain rfl : x = z := Option.some.inj (hx.symm.trans hz)
      exact ⟨y, by rw [h, List.getElem?_set_self hk], hxy⟩
    · exact ⟨z, by rw [h, List.getElem?_set_ne hne.symm, hz], .refl z⟩
  new j z hz hj := by
    have hlt := (List.getElem?_eq_some_iff.1 hz).1
    rw [h, List.length_set] at hlt
    exact absurd hlt (not_lt.2 hj)

theorem Kept.modify (k : ℕ) {f : Attempt → Attempt}
    (hf : ∀ x, w.objs[k]? = some x → x.Keeps (f x)) : Kept w (w.modify k f) := by
  cases hx : w.objs[k]? with
  | none =>
    rw [modify_none hx]
    exact .refl w
  | some x =>
    rw [modify_eq hx]
    exact .set hx (hf x hx) rfl

theorem Kept.modify_of_eq (k : ℕ) {f : Attempt → Attempt}
    (hf : ∀ x, (f x).methChk = x.methChk ∧ (f x).methAes = x.methAes ∧
      (f x).dhgroup = x.dhgroup ∧ (f x).registered = x.registered ∧
      (f x).txtimer = x.txtimer ∧ (f x).log = x.log) : Kept w (w.modify k f) := by
  refine .modify k fun x _ => ?_
  obtain ⟨h1, h2, h3, h4, h5, h6⟩ := hf x
  exact ⟨h1, h2, h3, h4.trans, fun _ ht => ⟨h5.trans ht, h6⟩⟩

theorem Kept.append (h : w'.objs = w.objs ++ [y]) (hy : y.registered = true → y.Able) :
    Kept w w' where
  old k x hx := ⟨x, by rw [h, List.getElem?_append_left (List.getElem?_eq_some_iff.1 hx).1, hx],
    .refl x⟩
  new k z hz hk hr := by
    rw [h, List.getElem?_append_right hk] at hz
    obtain rfl : y = z := List.mem_singleton.1 (List.mem_of_getElem? hz) |>.symm
    exact hy hr

theorem Kept.cancel (w : KeyHost) (k : ℕ) : Kept w (w.cancel k) := by
  unfold KeyHost.cancel
  cases hx : w.objs[k]? with
  | none => exact .refl w
  | some x =>
    exact .set (y := { x with registered := false }) hx
      ⟨rfl, rfl, rfl, fun _ => rfl, fun _ ht => ⟨ht, rfl⟩⟩ rfl

theorem Kept.release (w : KeyHost) (k : ℕ) (x : Attempt) : Kept w (w.release k x) := by
  have h1 : Kept w { w with initors := w.initors.filter (·.1 ≠ x.remoteEndpoint) } := .of_objs rfl
  refine (h1.trans (.cancel _ k)).trans ?_
  exact .modify_of_eq (f := fun x => { x with doomed := true }) k
    fun _ => ⟨rfl, rfl, rfl, rfl, rfl, rfl⟩

theorem Kept.completed (w : KeyHost) (k : ℕ) : Kept w (w.completed k) := by
  unfold KeyHost.completed
  split
  · exact .refl w
  · split_ifs
    · exact .release w k _
    · exact .refl w

/-! ## Sending -/

/-- The initiator is in a table, or its timer runs. -/
def Busy (w : KeyHost) (k : ℕ) : Prop :=
  ∀ x, w.objs[k]? = some x → x.registered = true ∨ x.txtimer = true

theorem Kept.sendI1 (h : w.sendI1 k r = some w') (hb : Busy w k) : Kept w w' := by
  obtain ⟨x, v, hv, hs⟩ := lift_eq_some h
  obtain ⟨h1, h2, h3, h4⟩ := World.sendI1_kept hv
  obtain ⟨h', rfl⟩ := hs.new
  exact .set hs.old (.of_busy (hb x hs.old) h1 h2 h3 h4) rfl

theorem Kept.sendDhI2 (h : w.sendDhI2 k = some w') (hb : Busy w k) : Kept w w' := by
  obtain ⟨x, v, hv, hs⟩ := lift_eq_some h
  obtain ⟨h1, h2, h3, h4⟩ := World.sendDhI2_kept hv
  obtain ⟨h', rfl⟩ := hs.new
  exact .set hs.old (.of_busy (hb x hs.old) h1 h2 h3 h4) rfl

theorem busy_of_named (h : Named w.objs k fun x => x.registered = true) : Busy w k := by
  obtain ⟨y, hy, hr⟩ := h
  intro x hx
  rw [← Option.some.inj (hy.symm.trans hx)]
  exact .inl hr

/-! ## The entry points -/

theorem Kept.finish (hx : w.objs[k]? = some x) (hr : x.registered = true) (fl : Key.Flow)
    (c : Chunk) : Kept w (w.finish k x fl c) := by
  have hy : x.Keeps { x with
      toKeyInitiator := x.complete fl c
      txtimer := false
      log := .completed true :: .started :: .armed :: x.log } :=
    .of_busy (.inl hr) rfl rfl rfl rfl
  exact (Kept.set hx hy rfl).trans (.completed _ k)

theorem Kept.startTimer (k : ℕ) (hb : Named w.objs k fun x => x.registered = true) :
    Kept w (w.startTimer k) := by
  refine .modify k fun x hx => .of_busy ?_ rfl rfl rfl rfl
  exact busy_of_named hb x hx

/-- The object that the constructor made before it was registered is able, as `sendI1` succeeds. -/
theorem Kept.create {t : Target} (h : w.create t r = some w') : Kept w w' := by
  unfold KeyHost.create at h
  dsimp only at h
  split_ifs at h with h1 h2 h3
  · cases h
    refine .append rfl fun hr => ?_
    -- an unknown identity method is in no table
    have hreg : decide (t.idr ≠ .null) = true := hr
    exact absurd (new_done h1) (of_decide_eq_true hreg)
  · obtain ⟨v, hv, rfl⟩ := Option.map_eq_some_iff.1 h
    set x := Attempt.new (.new t.chan t.sepr t.idr t.dhgroup t.chkkey t.nonce) t.sock with hxdef
    have hget : (w.register x).objs[w.objs.length]? = some x := List.getElem?_concat_length
    have hidr : x.registered = true := by
      refine decide_eq_true fun h0 => h1 ?_
      change (if t.idr = .null then State.done else .i1) = .done
      rw [if_pos h0]
    obtain ⟨z, u, hu, hs⟩ := lift_eq_some hv
    obtain rfl : x = z := Option.some.inj (hget.symm.trans hs.old)
    have hgroup : x.dhgroup ≠ 0 := by
      change (if t.dhgroup = 0 then 1 else t.dhgroup) ≠ 0
      split_ifs with h0
      · exact one_ne_zero
      · exact h0
    obtain ⟨hg, hc⟩ := World.able_of_sendI1 hu hgroup
    have hnew : Kept w (w.register x) := .append rfl fun _ => ⟨hg, hc⟩
    have hreg : Named (w.register x).objs w.objs.length fun x => x.registered = true :=
      ⟨x, hget, hidr⟩
    refine (hnew.trans (.sendI1 hv (busy_of_named hreg))).trans (.startTimer _ ?_)
    obtain ⟨-, -, -, h4⟩ := World.sendI1_kept hu
    exact ⟨_, hs.get, h4.trans hidr⟩

theorem Kept.initiate {t : Target} (h : w.initiate t r = some w') : Kept w w' := by
  unfold KeyHost.initiate at h
  dsimp only at h
  split_ifs at h
  · cases h
    exact .refl w
  · cases h
    exact .refl w
  · obtain ⟨v, hv, rfl⟩ := Option.map_eq_some_iff.1 h
    have h1 : Kept v (v.modify w.objs.length fun x => { x with owned := true }) :=
      .modify_of_eq _ fun _ => ⟨rfl, rfl, rfl, rfl, rfl, rfl⟩
    exact ((Kept.create hv).trans h1).trans (.of_objs rfl)

/-- The initiators of an endpoint stay registered while one of them sends. -/
theorem Named.sendI1 {j : ℕ} (h : Named w.objs j fun x => x.registered = true)
    (hs : w.sendI1 k r = some w') : Named w'.objs j fun x => x.registered = true := by
  obtain ⟨x, y, hsets, hi, -⟩ := sendI1_spec hs
  obtain ⟨h', rfl⟩ := hsets.new
  exact h.set hsets.old fun _ hr => hi.registered.trans hr

theorem Kept.gotR0 (ks : List ℕ) (hn : ∀ k ∈ ks, Named w.objs k fun x => x.registered = true)
    (h : gotR0 r ks w = some w') : Kept w w' := by
  induction ks generalizing w with
  | nil =>
    cases h
    exact .refl _
  | cons k ks ih =>
    simp only [KeyHost.gotR0] at h
    split at h
    · cases h
      exact .refl _
    · split_ifs at h
      · cases h
        exact .refl _
      · obtain ⟨v, hv, h⟩ := Option.bind_eq_some_iff.1 h
        have hk := hn k List.mem_cons_self
        exact (Kept.sendI1 hv (busy_of_named hk)).trans
          (ih (fun j hj => (hn j (List.mem_cons_of_mem k hj)).sendI1 hv) h)

theorem Kept.gotChkR1 (ht : Tables w) {r1 : ChkR1} {src : Endpoint}
    (h : w.gotChkR1 r1 src r = some w') : Kept w w' := by
  unfold KeyHost.gotChkR1 at h
  split at h
  · cases h
    exact .refl w
  · rename_i k x hf
    obtain ⟨hn, hx⟩ := find_eq_some hf
    have hreg : Named w.objs k fun x => x.registered = true := (ht.chks _ k hn).mono fun _ h => h.1
    split_ifs at h
    · cases h
      exact .refl w
    · cases h
      exact .refl w
    · have hp : Kept w (w.modify k fun x => { x with cookie := r1.cookie }) :=
        .modify_of_eq k fun _ => ⟨rfl, rfl, rfl, rfl, rfl, rfl⟩
      refine hp.trans (.sendI1 h fun z hz => ?_)
      rw [modify_get hx] at hz
      rw [← Option.some.inj hz]
      exact busy_of_named hreg x hx
    · cases h
      refine .finish hx ?_ _ _
      obtain ⟨z, hz, hr⟩ := hreg
      rwa [Option.some.inj (hx.symm.trans hz)]

theorem Kept.gotDhR1 (ht : Tables w) {r1 : DhR1} (h : w.gotDhR1 r1 r = some w') : Kept w w' := by
  unfold KeyHost.gotDhR1 at h
  split at h
  · cases h
    exact .refl w
  · rename_i k x hf
    obtain ⟨hn, hx⟩ := find_eq_some hf
    have hreg : Named w.objs k fun x => x.registered = true := (ht.nhis _ k hn).mono fun _ h => h.1
    split_ifs at h
    · cases h
      exact .refl w
    · cases h
      exact .refl w
    · cases h
      exact .refl w
    · cases h
      exact .refl w
    · split at h
      · cases h
      · rename_i h' hk hkey
        have hp : Kept w { w with h := h' } := .of_objs rfl
        split_ifs at h
        · exact hp.trans (.sendI1 h (busy_of_named hreg))
        · obtain ⟨v, hv, rfl⟩ := Option.map_eq_some_iff.1 h
          have hq : Kept { w with h := h' } ({ w with h := h' }.modify k fun x =>
              { x with keylen := r1.keylen, round := x.roundOf h' hk r1 }) :=
            .modify_of_eq k fun _ => ⟨rfl, rfl, rfl, rfl, rfl, rfl⟩
          have hget : ({ w with h := h' }.modify k fun x =>
              { x with keylen := r1.keylen, round := x.roundOf h' hk r1 }).objs[k]? = _ :=
            modify_get (w := { w with h := h' }) hx _
          have hxr : x.registered = true := by
            obtain ⟨z, hz, hr⟩ := hreg
            rwa [Option.some.inj (hx.symm.trans hz)]
          refine ((hp.trans hq).trans (.sendDhI2 hv fun z hz => ?_)).trans (.startTimer k ?_)
          · rw [hget] at hz
            rw [← Option.some.inj hz]
            exact .inl hxr
          · obtain ⟨z, y, hs, hi, -⟩ := sendDhI2_spec hv
            refine ⟨y, hs.get, hi.registered.trans ?_⟩
            rw [← Option.some.inj (hget.symm.trans hs.old)]
            exact hxr

theorem Kept.gotDhR2 (ht : Tables w) {r2 : DhR2} (h : w.gotDhR2 r2 r = some w') : Kept w w' := by
  unfold KeyHost.gotDhR2 at h
  split at h
  · cases h
    exact .refl w
  · rename_i k x hf
    obtain ⟨hn, hx⟩ := find_eq_some hf
    have hreg : Named w.objs k fun x => x.registered = true := (ht.nhis _ k hn).mono fun _ h => h.1
    split_ifs at h
    · cases h
      exact .refl w
    split at h
    · cases h
      exact .refl w
    split at h
    · cases h
    rename_i h' hk hkey
    have hp : Kept w { w with h := h' } := .of_objs rfl
    split_ifs at h
    · exact hp.trans (.sendI1 h (busy_of_named hreg))
    split at h
    · cases h
      exact hp
    · cases h
      refine hp.trans (.finish (w := { w with h := h' }) hx ?_ _ _)
      obtain ⟨z, hz, hr⟩ := hreg
      rwa [Option.some.inj (hx.symm.trans hz)]

theorem Kept.receive (ht : Tables w) {m : Message} {src : Endpoint} {order : List ℕ}
    (ho : order.Perm (w.initeps src)) (h : w.receive m src order r = some w') : Kept w w' := by
  unfold KeyHost.receive at h
  split at h
  · refine .gotR0 order (fun k hk => ?_) h
    exact (ht.eps src k (ho.mem_iff.1 hk)).mono fun _ h => h.1
  · exact .gotChkR1 ht h
  · exact .gotDhR1 ht h
  · exact .gotDhR2 ht h
  · cases h
    exact .refl w

theorem Kept.retransmit (hx : w.objs[k]? = some x) (ht : x.txtimer = true) {fail : Bool}
    (h : w.retransmit k x fail r = some w') : Kept w w' := by
  have hb : Busy w k := fun z hz => by
    rw [← Option.some.inj (hx.symm.trans hz)]
    exact .inr ht
  unfold KeyHost.retransmit at h
  split_ifs at h
  · cases h
    refine (Kept.modify k fun z hz => ?_).trans (.completed _ k)
    exact .of_busy (hb z hz) rfl rfl rfl rfl
  · split at h
    · exact .sendI1 h hb
    · exact .sendDhI2 h hb
    · cases h
      exact .refl w

theorem Kept.delete (w : KeyHost) (k : ℕ) : Kept w (w.delete k) :=
  (Kept.cancel w k).trans (.modify k fun _ _ => ⟨rfl, rfl, rfl, id, fun _ _ => ⟨rfl, rfl⟩⟩)

theorem Kept.giveUp (w : KeyHost) (k : ℕ) : Kept w (w.giveUp k) := by
  unfold KeyHost.giveUp
  split
  · exact .refl w
  · split_ifs
    · exact (Kept.release w k _).trans (.modify_of_eq k fun _ => ⟨rfl, rfl, rfl, rfl, rfl, rfl⟩)
    · exact .refl w

theorem Kept.primaryStatusChanged (w : KeyHost) (status : LinkStatus) :
    Kept w (w.primaryStatusChanged status) := by
  have hfold : ∀ (ks : List ℕ) (v : KeyHost), Kept v (ks.foldl KeyHost.giveUp v) := by
    intro ks
    induction ks with
    | nil => exact .refl
    | cons k ks ih => exact fun v => (Kept.giveUp v k).trans (ih _)
  have hp : Kept w { w with up := status = .up } := .of_objs rfl
  unfold KeyHost.primaryStatusChanged
  dsimp only
  split_ifs
  · exact hp.trans (hfold _ _)
  · exact hp

/-- **Every operation keeps the initiators.** -/
theorem step_kept (ht : Tables w) {target : Ident} {op : Op} (h : w.step target op = some w') :
    Kept w w' := by
  cases op with
  | create t r => exact .create h
  | initiate t r => exact .initiate h
  | receive m src order r =>
    simp only [KeyHost.step] at h
    split_ifs at h with ho
    exact .receive ht ho h
  | timeout k fail r =>
    simp only [KeyHost.step] at h
    split_ifs at h with hl
    obtain ⟨x, hx, h⟩ := Option.bind_eq_some_iff.1 h
    refine .retransmit hx ?_ h
    unfold live at hl
    rw [hx] at hl
    exact (Bool.and_eq_true _ _ ▸ hl).2
  | setInfo k ulpi =>
    cases h
    exact .modify_of_eq k fun _ => ⟨rfl, rfl, rfl, rfl, rfl, rfl⟩
  | cancel k =>
    simp only [KeyHost.step] at h
    split_ifs at h
    cases h
    exact .cancel w k
  | delete k =>
    simp only [KeyHost.step] at h
    split_ifs at h
    cases h
    exact .delete w k
  | primaryStatusChanged status =>
    cases h
    exact .primaryStatusChanged w status
  | _ =>
    cases h
    exact .of_objs rfl

end KeyHost

end Sst.Key
