import Sst.KeyHost.Kept
import Mathlib.Data.List.TakeWhile

/-!
# A hole-punched packet

A packet without chunks makes the initiators for its source send their I1 messages again. The loop
over them ends at the first one that is not in its first state.

* `Attempt.Resent`: an initiator sends its I1 message again.
* `KeyHost.Ready`: the lists of the endpoints have no duplicates, and the initiators are able.
* `KeyHost.gotR0_triggered`: the loop reaches a prefix of its list.
* **`hole_punch_iff`**: it reaches all initiators in their first state exactly if none of them comes
  after one that is not.
-/

namespace Sst.Key

open Symbolic Transition

/-! ## Prefixes -/

theorem mem_takeWhile_iff_pairwise {α : Type*} (p : α → Bool) {l : List α} (h : l.Nodup) :
    (∀ a ∈ l, p a → a ∈ l.takeWhile p) ↔ l.Pairwise fun a b => p b → p a := by
  induction l with
  | nil => exact ⟨fun _ => .nil, fun _ a ha => absurd ha List.not_mem_nil⟩
  | cons b l ih =>
    obtain ⟨hb, hl⟩ := List.nodup_cons.1 h
    rw [List.pairwise_cons]
    by_cases hp : p b = true
    · rw [List.takeWhile_cons_of_pos hp, ← ih hl]
      constructor
      · intro ha
        refine ⟨fun _ _ _ => hp, fun a hm hpa => ?_⟩
        rcases List.mem_cons.1 (ha a (List.mem_cons_of_mem b hm) hpa) with rfl | hm'
        · exact absurd hm hb
        · exact hm'
      · rintro ⟨-, ha⟩ a hm hpa
        rcases List.mem_cons.1 hm with rfl | hm
        · exact List.mem_cons_self
        · exact List.mem_cons_of_mem b (ha a hm hpa)
    · rw [List.takeWhile_cons_of_neg hp]
      constructor
      · intro ha
        have hnone : ∀ a ∈ l, ¬p a = true := fun a hm hpa =>
          absurd (ha a (List.mem_cons_of_mem b hm) hpa) List.not_mem_nil
        refine ⟨fun a hm hpa => absurd hpa (hnone a hm), ?_⟩
        exact List.Pairwise.imp_of_mem (R := fun _ _ => True)
          (fun _ hm _ hpa => absurd hpa (hnone _ hm)) (List.pairwise_of_forall fun _ _ => trivial)
      · rintro ⟨ha, -⟩ a hm hpa
        rcases List.mem_cons.1 hm with rfl | hm
        · exact absurd hpa hp
        · exact absurd (ha a hm hpa) hp

/-! ## One initiator -/

/-- The chunks of an I1 message. -/
def IsI1 : Chunk → Prop
  | .chkI1 _ | .dhI1 _ => True
  | _ => False

/-- **The I1 message is sent again**, once; the initiator stays in its first state and keeps its
keys. -/
structure Attempt.Resent (x y : Attempt) : Prop where
  same : x.Same y
  state : y.state = .i1
  sent : ∃ m, y.log = .sent m :: x.log ∧ m ≠ [] ∧ ∀ c ∈ m, IsI1 c

theorem isI1_of_chkI1 (i : KeyInitiator) : ∀ c ∈ i.chkI1, IsI1 c := by
  intro c hc
  unfold KeyInitiator.chkI1 at hc
  split_ifs at hc
  · rw [List.mem_singleton.1 hc]
    trivial
  · exact absurd hc List.not_mem_nil

/-- **A key for every group** of an initiator that is able. -/
theorem Host.getDHKey_some (h : Host) {group : ℕ} (h0 : group ≠ 0) (hm : group < keygroupMax)
    (r : Rand) : ∃ h' hk, h.getDHKey group r = (h', some hk) := by
  rw [Host.getDHKey, if_neg (not_le.2 hm)]
  cases h.dhkeys group with
  | some hk => exact ⟨h, hk, rfl⟩
  | none => exact ⟨_, _, if_neg h0⟩

namespace KeyHost

variable {w w' : KeyHost} {k : ℕ} {x y : Attempt} {r : Rand}

/-- **`sendI1`** sends the I1 message of an initiator that is able. -/
theorem sendI1_resent (hx : w.objs[k]? = some x) (ha : x.Able) :
    ∃ w' y, w.sendI1 k r = some w' ∧ Sets w w' k x y ∧ x.Resent y := by
  have hsend : ∃ v m, World.sendI1 ⟨w.h, x.toKeyInitiator, [], ⟨0, fun _ => none⟩, ⟨[], []⟩, []⟩ r =
      some v ∧ v.sentI = [m] ∧ m ≠ [] ∧ ∀ c ∈ m, IsI1 c := by
    unfold World.sendI1
    dsimp only
    cases hm : x.methAes with
    | true =>
      obtain ⟨h0, hmax⟩ := ha.group hm
      obtain ⟨h', hk, hkey⟩ := w.h.getDHKey_some h0 hmax r
      rw [if_pos rfl, hkey]
      refine ⟨_, _, rfl, rfl, List.append_ne_nil_of_right_ne_nil _ (List.cons_ne_nil _ _), ?_⟩
      intro c hc
      rcases List.mem_append.1 hc with hc | hc
      · exact isI1_of_chkI1 _ c hc
      · rw [List.mem_singleton.1 hc]
        trivial
    | false =>
      rw [if_neg Bool.false_ne_true]
      split_ifs with hnil
      · rw [KeyInitiator.chkI1, if_pos (ha.chk hm)] at hnil
        exact absurd hnil (List.cons_ne_nil _ _)
      · exact ⟨_, _, rfl, rfl, hnil, isI1_of_chkI1 _⟩
  obtain ⟨v, m, hv, hs, hne, hm⟩ := hsend
  have hlift : w.sendI1 k r = some { w with
      h := v.h
      objs := w.objs.set k
        { x with toKeyInitiator := v.i, log := (v.sentI.map .sent).reverse ++ x.log } } := by
    rw [KeyHost.sendI1, lift, hx, Option.bind_some, hv]
    rfl
  obtain ⟨z, y, hsets, hsame, hstate, -, -, m', hl, -⟩ := sendI1_spec hlift
  obtain rfl : x = z := Option.some.inj (hx.symm.trans hsets.old)
  obtain ⟨hlt, -⟩ := List.getElem?_eq_some_iff.1 hx
  have hy := hsets.get
  rw [List.getElem?_set_self hlt] at hy
  refine ⟨_, y, hlift, hsets, hsame, hstate, m, ?_, hne, hm⟩
  rw [← Option.some.inj hy, hs]
  rfl

/-! ## The loop -/

/-- The initiator is in its first state. -/
def inI1 (w : KeyHost) (k : ℕ) : Bool :=
  match w.objs[k]? with
  | none => false
  | some x => x.state = .i1

theorem inI1_eq (hx : w.objs[k]? = some x) : w.inI1 k = decide (x.state = .i1) := by
  unfold inI1
  rw [hx]

/-- The initiators of a list send their I1 messages again; all others are unchanged. -/
structure Triggered (w w' : KeyHost) (ks : List ℕ) : Prop where
  length : w'.objs.length = w.objs.length
  resent : ∀ (k : ℕ) (x : Attempt), k ∈ ks → w.objs[k]? = some x →
    ∃ y, w'.objs[k]? = some y ∧ x.Resent y
  others : ∀ k, k ∉ ks → w'.objs[k]? = w.objs[k]?

theorem Triggered.nil (w : KeyHost) : Triggered w w [] :=
  ⟨rfl, fun _ _ hk => absurd hk List.not_mem_nil, fun _ _ => rfl⟩

theorem Triggered.cons {v : KeyHost} (hs : Sets w v k x y) (hr : x.Resent y) {ks : List ℕ}
    (hk : k ∉ ks) (h : Triggered v w' ks) : Triggered w w' (k :: ks) := by
  have hy := hs.get
  have hx := hs.old
  obtain ⟨h', rfl⟩ := hs.new
  refine ⟨h.length.trans List.length_set, fun j z hj hz => ?_, fun j hj => ?_⟩
  · rcases List.mem_cons.1 hj with rfl | hj
    · obtain rfl : x = z := Option.some.inj (hx.symm.trans hz)
      exact ⟨y, (h.others j hk).trans hy, hr⟩
    · refine h.resent j z hj ?_
      have hne : k ≠ j := fun he => hk (he ▸ hj)
      exact (List.getElem?_set_ne hne).trans hz
  · obtain ⟨hne, hj⟩ := not_or.1 (mt List.mem_cons.2 hj)
    exact (h.others j hj).trans (List.getElem?_set_ne (Ne.symm hne))

/-- **The loop** reaches the initiators before the first one that is not in its first state. -/
theorem gotR0_triggered {ks : List ℕ} (hd : ks.Nodup)
    (ha : ∀ k ∈ ks, Named w.objs k fun x => x.Able) {p : ℕ → Bool}
    (hp : ∀ k ∈ ks, p k = w.inI1 k) :
    ∃ w', gotR0 r ks w = some w' ∧ Triggered w w' (ks.takeWhile p) := by
  induction ks generalizing w with
  | nil => exact ⟨w, rfl, .nil w⟩
  | cons k ks ih =>
    obtain ⟨hk, hd⟩ := List.nodup_cons.1 hd
    obtain ⟨x, hx, hax⟩ := ha k List.mem_cons_self
    by_cases hs : x.state = .i1
    · obtain ⟨v, y, hv, hsets, hr⟩ := sendI1_resent (r := r) hx hax
      have hother : ∀ j ∈ ks, v.objs[j]? = w.objs[j]? := by
        intro j hj
        obtain ⟨h', rfl⟩ := hsets.new
        have hne : k ≠ j := by
          rintro rfl
          exact hk hj
        exact List.getElem?_set_ne hne
      have hav : ∀ j ∈ ks, Named v.objs j fun x => x.Able := by
        intro j hj
        obtain ⟨z, hz, haz⟩ := ha j (List.mem_cons_of_mem k hj)
        exact ⟨z, (hother j hj).trans hz, haz⟩
      have hpv : ∀ j ∈ ks, p j = v.inI1 j := by
        intro j hj
        rw [hp j (List.mem_cons_of_mem k hj), inI1, inI1, hother j hj]
      obtain ⟨w', hw', ht⟩ := ih hd hav hpv
      have hpos : p k = true :=
        ((hp k List.mem_cons_self).trans (inI1_eq hx)).trans (decide_eq_true hs)
      rw [List.takeWhile_cons_of_pos hpos]
      refine ⟨w', ?_, .cons hsets hr (fun hm => hk (List.takeWhile_subset _ hm)) ht⟩
      simp only [gotR0, hx, ne_eq, hs, not_true_eq_false, if_false, hv, Option.bind_some]
      exact hw'
    · have hneg : ¬p k = true := by
        rw [hp k List.mem_cons_self, inI1_eq hx, decide_eq_true_iff]
        exact hs
      rw [List.takeWhile_cons_of_neg hneg]
      refine ⟨w, ?_, .nil w⟩
      simp only [gotR0, hx, ne_eq, hs, not_false_eq_true, if_true]

/-- **The two lists agree** on the initiators there are. -/
theorem Triggered.subset {ks js : List ℕ} (h : Triggered w w' ks) (h' : Triggered w w' js)
    (hn : ∀ k ∈ js, ∃ x, w.objs[k]? = some x) : ∀ k ∈ js, k ∈ ks := by
  intro k hk
  by_contra hc
  obtain ⟨x, hx⟩ := hn k hk
  obtain ⟨y, hy, hr⟩ := h'.resent k x hk hx
  obtain ⟨m, hl, -⟩ := hr.sent
  obtain rfl : y = x := Option.some.inj (hy.symm.trans ((h.others k hc).trans hx))
  exact absurd hl.symm (List.cons_ne_self _ _)

theorem Triggered.congr {ks js : List ℕ} (h : Triggered w w' ks) (hkj : ∀ k, k ∈ ks ↔ k ∈ js) :
    Triggered w w' js :=
  ⟨h.length, fun k x hk => h.resent k x ((hkj k).2 hk), fun k hk => h.others k (mt (hkj k).1 hk)⟩

/-! ## Runs -/

/-- The lists of the endpoints have no duplicates, and the initiators in a table are able. -/
structure Ready (w : KeyHost) : Prop where
  nodup : ∀ ep, (w.initeps ep).Nodup
  able : ∀ (k : ℕ) (x : Attempt), w.objs[k]? = some x → x.registered = true → x.Able

/-- **Elementary steps** keep the lists without duplicates. -/
theorem Micro.nodup (hm : Micro w w') (ht : Tables w) (h : ∀ ep, (w.initeps ep).Nodup) :
    ∀ ep, (w'.initeps ep).Nodup := by
  cases hm with
  | frame h' initors up => exact h
  | act k x y hx ha => exact h
  | cancel k =>
    intro ep
    unfold KeyHost.cancel
    cases hx : w.objs[k]? with
    | none => exact h ep
    | some x =>
      rcases eq_or_ne ep x.sepr with rfl | hne
      · dsimp only
        rw [Function.update_self]
        exact (h _).filter _
      · dsimp only
        rw [Function.update_of_ne hne]
        exact h ep
  | create x y hx hi =>
    intro ep
    rcases eq_or_ne ep x.sepr with rfl | hne
    · dsimp only [register]
      rw [Function.update_self]
      refine List.nodup_cons.2 ⟨fun hk => ?_, h _⟩
      -- the index is new
      obtain ⟨z, hz, -⟩ := ht.eps _ _ hk
      exact absurd (List.getElem?_eq_some_iff.1 hz).1 (lt_irrefl _)
    · dsimp only [register]
      rw [Function.update_of_ne hne]
      exact h ep
  | unknown => exact h

theorem Ready.step (h : Ready w) (hw : Sound w) {target : Ident} {op : Op}
    (hs : w.step target op = some w') : Ready w' where
  nodup := by
    rcases step_cases hw.tables (fun x hx => (hw.settled x hx).txtimer) hs with
      hp | ⟨j, m, src, r, a, -, rfl⟩ | ⟨j, f, rfl, -⟩
    · have hboth : Tables w' ∧ ∀ ep, (w'.initeps ep).Nodup :=
        hp.invariant (P := fun v => Tables v ∧ ∀ ep, (v.initeps ep).Nodup)
          (fun _ _ hm hv => ⟨hm.tables hv.1, hm.nodup hv.1 hv.2⟩) ⟨hw.tables, h.nodup⟩
      exact hboth.2
    · exact h.nodup
    · exact h.nodup
  able := by
    have hk := step_kept hw.tables hs
    intro k y hy hr
    rcases lt_or_ge k w.objs.length with hlt | hge
    · have hx := List.getElem?_eq_getElem hlt
      obtain ⟨z, hz, hxz⟩ := hk.old k _ hx
      obtain rfl : y = z := Option.some.inj (hy.symm.trans hz)
      refine hxz.able (h.able k _ hx (Bool.eq_true_of_not_eq_false fun h0 => ?_))
      rw [hxz.registered h0] at hr
      cases hr
    · exact hk.new k y hy hge hr

theorem ready_of_reach {hostIdent : ℕ} {target : Ident} {c : ℕ → Config} {C : KeyHost → Op → Prop}
    (h : (keyHost hostIdent target c).Reach C w) : Ready w :=
  h.invariant ⟨fun _ => List.nodup_nil, fun _ _ hx => absurd hx (Option.some_ne_none _).symm⟩
    fun _ _ _ hr ih _ hs => ih.step (sound_of_reach hr) hs

end KeyHost

/-- **The hole-punch trigger.** A packet without chunks makes all initiators for its source that are
in their first state send their I1 message once, and leaves the others unchanged, exactly if in the
order in which they are found none in its first state comes after one that is not. -/
theorem hole_punch_iff {hostIdent : ℕ} {target : Ident} {c : ℕ → Config} {w : KeyHost}
    (h : (keyHost hostIdent target c).Reach Machine.always w) {src : Endpoint} {order : List ℕ}
    (ho : order.Perm (w.initeps src)) (r : Rand) :
    (∃ w', (keyHost hostIdent target c).step w (.receive [] src order r) = some w' ∧
      KeyHost.Triggered w w' (order.filter w.inI1)) ↔
    order.Pairwise fun j k => w.inI1 k → w.inI1 j := by
  have hr := KeyHost.ready_of_reach h
  have hd : order.Nodup := ho.nodup_iff.2 (hr.nodup src)
  have hn : ∀ k ∈ order, KeyHost.Named w.objs k fun x => x.Able := by
    intro k hk
    obtain ⟨x, hx, hreg, -⟩ := (KeyHost.sound_of_reach h).tables.eps src k (ho.mem_iff.1 hk)
    exact ⟨x, hx, hr.able k x hx hreg⟩
  obtain ⟨v, hv, ht⟩ := KeyHost.gotR0_triggered (r := r) hd hn fun _ _ => rfl
  have hstep : (keyHost hostIdent target c).step w (.receive [] src order r) = some v :=
    (if_pos ho).trans hv
  rw [← mem_takeWhile_iff_pairwise _ hd]
  constructor
  · rintro ⟨w', hw', hall⟩ k hk hi
    obtain rfl : v = w' := Option.some.inj (hstep.symm.trans hw')
    refine ht.subset hall (fun j hj => ?_) k (List.mem_filter.2 ⟨hk, hi⟩)
    obtain ⟨x, hx, -⟩ := hn j (List.mem_filter.1 hj).1
    exact ⟨x, hx⟩
  · intro hall
    refine ⟨v, hstep, ht.congr fun k => ⟨fun hk => ?_, fun hk => ?_⟩⟩
    · exact List.mem_filter.2 ⟨List.takeWhile_subset _ hk, List.mem_takeWhile_imp hk⟩
    · exact hall k (List.mem_filter.1 hk).1 (List.mem_filter.1 hk).2

/-- Two initiators for one address, the second of which is answered. -/
def secondAnswered : List KeyHost.Op :=
  [.create ⟨7, 0, 1, .ip 7, 0, 5, 3⟩ ⟨1, 1, 1⟩, .create ⟨7, 0, 2, .ip 7, 0, 9, 4⟩ ⟨1, 1, 1⟩,
    .receive [.chkR1 ⟨9, 6, 2, [], []⟩] 7 [1, 0] ⟨1, 1, 1⟩]

/-- The loop ends at the initiator that is done, which is found first. -/
theorem hole_punch_secondAnswered : ∃ w w' : KeyHost,
    (keyHost 1 .null fun _ => toHost2).run (keyHost 1 .null fun _ => toHost2).init secondAnswered =
      some w ∧
    w.initeps 7 = [1, 0] ∧ w.inI1 0 = true ∧ w.inI1 1 = false ∧
    (keyHost 1 .null fun _ => toHost2).step w (.receive [] 7 [1, 0] ⟨1, 1, 1⟩) = some w' ∧
    w'.objs = w.objs ∧ ¬KeyHost.Triggered w w' [0] := by
  have hrun : ∃ w w' x, (keyHost 1 .null fun _ => toHost2).run
      (keyHost 1 .null fun _ => toHost2).init secondAnswered = some w ∧
      w.initeps 7 = [1, 0] ∧ w.inI1 0 = true ∧ w.inI1 1 = false ∧
      (keyHost 1 .null fun _ => toHost2).step w (.receive [] 7 [1, 0] ⟨1, 1, 1⟩) = some w' ∧
      w'.objs = w.objs ∧ w.objs[0]? = some x :=
    ⟨_, _, _, rfl, rfl, rfl, rfl, rfl, rfl, rfl⟩
  obtain ⟨w, w', x, h1, h2, h3, h4, h5, h6, hx⟩ := hrun
  refine ⟨w, w', h1, h2, h3, h4, h5, h6, fun ht => ?_⟩
  obtain ⟨y, hy, hr⟩ := ht.resent 0 x (List.mem_singleton.2 rfl) hx
  obtain ⟨m, hl, -⟩ := hr.sent
  obtain rfl : x = y := Option.some.inj (hx.symm.trans (h6 ▸ hy))
  exact absurd hl.symm (List.cons_ne_self _ _)

/-- Found in the other order, the initiator in its first state comes first. -/
theorem hole_punch_firstFound : ∃ w w' : KeyHost, w.inI1 0 = true ∧ w.inI1 1 = false ∧
    (keyHost 1 .null fun _ => toHost2).step w (.receive [] 7 [0, 1] ⟨1, 1, 1⟩) = some w' ∧
    KeyHost.Triggered w w' ([0, 1].filter w.inI1) := by
  have hrun : ∃ w, (keyHost 1 .null fun _ => toHost2).run
      (keyHost 1 .null fun _ => toHost2).init secondAnswered = some w ∧
      w.initeps 7 = [1, 0] ∧ w.inI1 0 = true ∧ w.inI1 1 = false :=
    ⟨_, rfl, rfl, rfl, rfl⟩
  obtain ⟨w, hw, he, h0, h1⟩ := hrun
  have ho : [0, 1].Perm (w.initeps 7) := by
    rw [he]
    exact List.Perm.swap 1 0 []
  have hp : [0, 1].Pairwise fun j k => w.inI1 k → w.inI1 j := by
    simp [h0]
  obtain ⟨w', hs, ht⟩ := (hole_punch_iff (Machine.reach_of_run hw) ho ⟨1, 1, 1⟩).2 hp
  exact ⟨w, w', h0, h1, hs, ht⟩

end Sst.Key
