import Sst.KeyHost.Completion
import Sst.Key.Duplicates

/-!
# Giving up early initiators

When the stream peer has a working primary flow, it removes the initiators that are still early.

* `Attempt.Careful`: an early initiator has sent nothing on which a flow is created.
* `World.receiveR_created`: what a responder creates, and for which exchange.
* `Guarded`: flows are created only for exchanges whose random string was sent.
* **`safe_cancellation`**: no responder has a flow of an initiator that was removed.
-/

namespace Sst.Key

open Symbolic Transition

/-! ## One initiator -/

/-- The initiator has sent no chunk on which a flow is created. -/
def Attempt.Unfounded (x : Attempt) : Prop :=
  ∀ m, .sent m ∈ x.log → ∀ c ∈ m, ¬KeyHost.Founding c

/-- **An early initiator** has sent no chunk on which a flow is created, and waits for no R2; an
initiator for checksums is late; what was removed was early and is in no table. -/
structure Attempt.Careful (x : Attempt) : Prop where
  late : x.methChk = true → x.early = false
  early : x.early = true → x.Unfounded ∧ x.state ≠ .i2
  removed : x.removed = true → x.early = true ∧ x.registered = false

namespace Attempt

variable {x y : Attempt}

theorem Unfounded.of_log (h : x.Unfounded) {l : List Signal} (hl : y.log = l ++ x.log)
    (hs : ∀ m, .sent m ∉ l) : y.Unfounded := by
  intro m hm
  rw [hl] at hm
  exact h m ((List.mem_append.1 hm).resolve_left (hs m))

theorem Unfounded.sent (h : x.Unfounded) {m : Message} (hl : y.log = .sent m :: x.log)
    (hm : ∀ c ∈ m, ¬KeyHost.Founding c) : y.Unfounded := by
  intro m' hm'
  rw [hl] at hm'
  rcases List.mem_cons.1 hm' with h' | h'
  · cases h'
    exact hm
  · exact h m' h'

theorem Careful.congr (h : x.Careful) (hi : x.Same y) (he : y.early = x.early)
    (hs : y.state = x.state ∨ y.state = .done) {l : List Signal} (hl : y.log = l ++ x.log)
    (hn : ∀ m, .sent m ∉ l) : y.Careful where
  late hc := he.trans (h.late (hi.methChk.symm.trans hc))
  early hy := by
    obtain ⟨h1, h2⟩ := h.early (he.symm.trans hy)
    refine ⟨h1.of_log hl hn, ?_⟩
    rcases hs with hs | hs
    · rw [hs]
      exact h2
    · rw [hs]
      decide
  removed hr := by
    rw [he, hi.registered]
    exact h.removed (hi.removed.symm.trans hr)

/-- **One action.** -/
theorem Act.careful (ha : x.Act y) (h : x.Careful) : y.Careful := by
  cases ha with
  | tune hi hs he hl => exact h.congr hi he (.inl hs) (l := []) hl fun _ => List.not_mem_nil
  | sendI1 hd hi hs he m hl hm =>
    refine ⟨fun hc => ?_, fun hy => ?_, fun hr => ?_⟩
    · rw [he, ← hi.methChk, hc]
      exact Bool.and_false _
    · rw [he, Bool.and_eq_true, Bool.not_eq_true'] at hy
      refine ⟨(h.early hy.1).1.sent hl fun c hc hf => ?_, by rw [hs]; decide⟩
      exact absurd (hy.2.symm.trans (hm c hc hf).1) nofun
    · obtain ⟨h1, h2⟩ := h.removed (hi.removed.symm.trans hr)
      have hc : x.methChk = false := by
        cases hc : x.methChk with
        | false => rfl
        | true => exact absurd ((h.late hc).symm.trans h1) nofun
      rw [he, hi.registered, h1, hc]
      exact ⟨rfl, h2⟩
  | sendDhI2 hd hreg hi hs he d hl =>
    refine ⟨fun _ => he, fun hy => absurd (he.symm.trans hy) nofun, fun hr => ?_⟩
    -- a removed initiator is in no table and was never in the second state
    obtain ⟨h1, h2⟩ := h.removed (hi.removed.symm.trans hr)
    rcases hreg with hreg | hi2
    · exact absurd (h2.symm.trans hreg) nofun
    · exact absurd hi2 (h.early h1).2
  | finish hd hi hs he ht hl =>
    exact h.congr hi he (.inr hs) (l := [.completed true, .started, .armed]) hl (by simp)
  | fail hd hi hs he ht hl =>
    exact h.congr hi he (.inr hs) (l := [.completed false]) hl (by simp)
  | remove he hr h' =>
    subst h'
    exact ⟨h.late, h.early, fun _ => ⟨he, hr⟩⟩

theorem Act.log (ha : x.Act y) : x.log ⊆ y.log := by
  cases ha with
  | tune hi hs he hl => rw [hl]; exact List.Subset.refl _
  | sendI1 hd hi hs he m hl => rw [hl]; exact List.subset_cons_self _ _
  | sendDhI2 hd hr hi hs he d hl => rw [hl]; exact List.subset_cons_self _ _
  | finish hd hi hs he ht hl => rw [hl]; exact List.subset_append_right [_, _, _] _
  | fail hd hi hs he ht hl => rw [hl]; exact List.subset_cons_self _ _
  | remove he hr h' => subst h'; exact List.Subset.refl _

theorem Act.keys (ha : x.Act y) : y.methAes = x.methAes ∧ y.ni = x.ni ∧ y.nhi = x.nhi := by
  have hsame : x.Same y → y.methAes = x.methAes ∧ y.ni = x.ni ∧ y.nhi = x.nhi := fun hi =>
    ⟨hi.methAes, hi.ni, hi.nhi⟩
  cases ha with
  | tune hi => exact hsame hi
  | sendI1 _ hi => exact hsame hi
  | sendDhI2 _ _ hi => exact hsame hi
  | finish _ hi => exact hsame hi
  | fail _ hi => exact hsame hi
  | remove _ _ h' => subst h'; exact ⟨rfl, rfl, rfl⟩

end Attempt

/-! ## What a responder creates -/

namespace World

theorem gotChkI1_created (v : World) (d : ChkI1) (src : Endpoint) (a : Answer) {e : Created}
    (he : e ∈ (v.gotChkI1 d src a).r.created) : e ∈ v.r.created ∨ ∃ d', e.answer = .chkR1 d' := by
  unfold gotChkI1 at he
  dsimp only at he
  iterate 3
    split at he
    · exact .inl he
  split at he
  · exact .inl he
  · rcases List.mem_cons.1 he with rfl | he
    · exact .inr ⟨_, rfl⟩
    · exact .inl he

theorem gotDhI2_created (v : World) (d : DhI2) (src : Endpoint) (r : Rand) (a : Answer)
    {e : Created} (he : e ∈ (v.gotDhI2 d src r a).r.created) :
    e ∈ v.r.created ∨ ∃ idr, e.answer = .dhR2 ⟨.hash d.ni, idr⟩ := by
  rcases gotDhI2_cases v d src r a with ⟨hr, -⟩ | ⟨hk, kii, chan, ulpr, -, -, -, -, heq⟩
  · rw [hr] at he
    exact .inl he
  · rw [heq] at he
    rcases List.mem_cons.1 he with rfl | he
    · exact .inr ⟨_, rfl⟩
    · exact .inl he

/-- **A responder creates a flow** for a checksum exchange, or for the exchange of a random string
that is named in the message. -/
theorem receiveR_created (v : World) (m : Message) (src : Endpoint) (r : Rand) (a : Answer)
    {e : Created} (he : e ∈ (v.receiveR m src r a).r.created) : e ∈ v.r.created ∨
      (∃ d, e.answer = .chkR1 d) ∨
      ∃ n ∈ KeyHost.nonceOf m, ∃ idr, e.answer = .dhR2 ⟨.hash n, idr⟩ := by
  unfold receiveR at he
  split at he
  · exact (gotChkI1_created v _ src a he).imp_right .inl
  · rw [(gotDhI1_frame v _ src r).1] at he
    exact .inl he
  · rename_i d rest
    refine (gotDhI2_created v d src r a he).imp_right fun ⟨idr, h⟩ => .inr ⟨d.ni, ?_, idr, h⟩
    exact List.mem_cons_self
  · exact .inl he

end World

namespace KeyHost

variable {w w' : KeyHost} {k : ℕ} {x y : Attempt}

/-! ## Both sides -/

/-- **The initiators are careful**, and a responder has a flow only for the exchange of a random
string that was named to it; if an initiator has drawn the string, it has sent it. -/
structure Guarded (w : KeyHost) : Prop where
  careful : ∀ x ∈ w.objs, x.Careful
  hashed : ∀ x ∈ w.objs, x.nhi = .hash x.ni
  flows : ∀ j, ∀ e ∈ (w.resp j).r.created, ∀ d, e.answer = .dhR2 d → ∃ n ∈ w.nonces,
    d.nhi = .hash n ∧ ∀ x ∈ w.objs, x.methAes = true → x.ni = n → SentI2 x

theorem forall_mem_set {P : Attempt → Prop} (h : ∀ x ∈ w.objs, P x) (hy : P y) :
    ∀ x ∈ w.objs.set k y, P x := by
  intro z hz
  rcases List.mem_or_eq_of_mem_set hz with hz | rfl
  · exact h z hz
  · exact hy

theorem forall_mem_concat {P : Attempt → Prop} (h : ∀ x ∈ w.objs, P x) (hy : P y) :
    ∀ x ∈ w.objs ++ [y], P x := by
  intro z hz
  rcases List.mem_append.1 hz with hz | hz
  · exact h z hz
  · rwa [List.mem_singleton.1 hz]

theorem Guarded.set (h : Guarded w) (hx : w.objs[k]? = some x) (hc : y.Careful)
    (ha : y.methAes = x.methAes) (hn : y.ni = x.ni) (hh : y.nhi = x.nhi) (hl : x.log ⊆ y.log) :
    Guarded { w with objs := w.objs.set k y } := by
  have hxm := List.mem_of_getElem? hx
  refine ⟨forall_mem_set h.careful hc, forall_mem_set h.hashed ?_, fun j e he d hd => ?_⟩
  · rw [hh, hn]
    exact h.hashed x hxm
  · obtain ⟨n, hm, hnhi, hs⟩ := h.flows j e he d hd
    refine ⟨n, hm, hnhi, forall_mem_set hs fun hya hyn => ?_⟩
    obtain ⟨m, d', h1, h2⟩ := hs x hxm (ha.symm.trans hya) (hn.symm.trans hyn)
    exact ⟨m, d', hl h1, h2⟩

/-- **Elementary steps.** -/
theorem Micro.guarded (hm : Micro w w') (h : Guarded w) : Guarded w' := by
  cases hm with
  | frame h' initors up => exact ⟨h.careful, h.hashed, h.flows⟩
  | act k x y hx ha =>
    obtain ⟨h1, h2, h3⟩ := ha.keys
    exact h.set hx (ha.careful (h.careful x (List.mem_of_getElem? hx))) h1 h2 h3 ha.log
  | cancel k =>
    unfold KeyHost.cancel
    cases hx : w.objs[k]? with
    | none => exact h
    | some x =>
      have hc := h.careful x (List.mem_of_getElem? hx)
      have hg := h.set (y := { x with registered := false }) hx
        ⟨hc.late, hc.early, fun hr => ⟨(hc.removed hr).1, rfl⟩⟩ rfl rfl rfl (List.Subset.refl _)
      exact ⟨hg.careful, hg.hashed, hg.flows⟩
  | create x y hx hi hs he m hl hm =>
    obtain ⟨chan, sepr, idr, dhgroup, chkkey, nonce, sock, hnew⟩ := hx.new
    have hlog : y.log = .sent m :: [] := hl
    refine ⟨forall_mem_concat h.careful ⟨fun hc => ?_, fun hy => ?_, fun hr => ?_⟩,
      forall_mem_concat h.hashed ?_, fun j e he' d hd => ?_⟩
    · rw [he, ← hi.methChk, hc]
      exact Bool.and_false _
    · rw [he, Bool.and_eq_true, Bool.not_eq_true'] at hy
      refine ⟨fun m' hm' c hc hf => ?_, by rw [hs]; decide⟩
      rw [hl] at hm'
      cases List.mem_singleton.1 hm'
      exact absurd (hy.2.symm.trans (hm c hc hf).1) nofun
    · rw [hi.removed, hnew] at hr
      cases hr
    · rw [hi.nhi, hi.ni, hnew]
      rfl
    · obtain ⟨n, hmem, hnhi, hsent⟩ := h.flows j e he' d hd
      refine ⟨n, List.mem_cons_of_mem _ hmem, hnhi, forall_mem_concat hsent fun _ hyn => ?_⟩
      exact absurd (hyn ▸ hmem) (hi.ni ▸ hx.nonces)
  | unknown =>
    refine ⟨forall_mem_concat h.careful ⟨nofun, fun _ => ⟨fun m hm => ?_, nofun⟩, nofun⟩,
      forall_mem_concat h.hashed rfl, fun j e he d hd => ?_⟩
    · exact absurd (List.mem_singleton.1 hm) nofun
    · obtain ⟨n, hmem, hnhi, hsent⟩ := h.flows j e he d hd
      exact ⟨n, hmem, hnhi, forall_mem_concat hsent nofun⟩

theorem Path.guarded (hp : Path w w') (h : Guarded w) : Guarded w' :=
  hp.invariant (fun _ _ hm => hm.guarded) h

/-- A message that names no unsent random string reaches a responder. -/
theorem Guarded.deliver (h : Guarded w) {m : Message} (hf : w.Fair m) (j : ℕ) (src : Endpoint)
    (r : Rand) (a : Answer) : Guarded
      { w.onResp j (·.receiveR m src r a) with nonces := nonceOf m ++ w.nonces } := by
  refine ⟨h.careful, h.hashed, fun i e he d hd => ?_⟩
  have hold : e ∈ (w.resp i).r.created → ∃ n ∈ nonceOf m ++ w.nonces, d.nhi = .hash n ∧
      ∀ x ∈ w.objs, x.methAes = true → x.ni = n → SentI2 x := fun he => by
    obtain ⟨n, hn, h1⟩ := h.flows i e he d hd
    exact ⟨n, List.mem_append_right _ hn, h1⟩
  rcases eq_or_ne i j with rfl | hne
  · change e ∈ (Function.update w.resp i _ i).r.created at he
    rw [Function.update_self] at he
    rcases World.receiveR_created _ m src r a he with he | ⟨d', hc⟩ | ⟨n, hn, idr, hc⟩
    · exact hold he
    · rw [hd] at hc
      cases hc
    · rw [hd] at hc
      cases hc
      exact ⟨n, List.mem_append_left _ hn, rfl, fun x hx ha hxn => hf x hx ha (hxn ▸ hn)⟩
  · change e ∈ (Function.update w.resp j _ i).r.created at he
    rw [Function.update_of_ne hne] at he
    exact hold he

/-- **One operation**; a message that reaches a responder is fair. -/
theorem Guarded.step (h : Guarded w) (hw : Sound w) {target : Ident} {op : Op}
    (hs : w.step target op = some w') (hf : FairStep w op) : Guarded w' := by
  rcases step_cases hw.tables (fun x hx => (hw.settled x hx).txtimer) hs with
    hp | ⟨j, m, src, r, a, rfl, rfl⟩ | ⟨j, f, rfl, hcr⟩
  · exact hp.guarded h
  · exact h.deliver (hf j m src r a rfl) j src r a
  · refine ⟨h.careful, h.hashed, fun i e he => ?_⟩
    rcases eq_or_ne i j with rfl | hne
    · change e ∈ (Function.update w.resp i _ i).r.created at he
      rw [Function.update_self, hcr] at he
      exact h.flows i e he
    · change e ∈ (Function.update w.resp j _ i).r.created at he
      rw [Function.update_of_ne hne] at he
      exact h.flows i e he

variable {hostIdent : ℕ} {target : Ident} {c : ℕ → Config}

/-- The initiator was removed. -/
def Removed (w : KeyHost) (k : ℕ) : Prop := Named w.objs k fun x => x.removed = true

theorem Micro.keeps_removed (hm : Micro w w') (h : Removed w k) : Removed w' k := by
  cases hm with
  | frame h' initors up => exact h
  | act j x y hx ha =>
    refine Named.set h hx fun _ hP => ?_
    cases ha with
    | tune hi => exact hi.removed.trans hP
    | sendI1 _ hi => exact hi.removed.trans hP
    | sendDhI2 _ _ hi => exact hi.removed.trans hP
    | finish _ hi => exact hi.removed.trans hP
    | fail _ hi => exact hi.removed.trans hP
    | remove _ _ h' => rw [h']
  | cancel j =>
    unfold KeyHost.cancel
    cases hx : w.objs[j]? with
    | none => exact h
    | some x => exact Named.set h hx fun _ hP => hP
  | create x y => exact Named.append h y
  | unknown => exact Named.append h _

/-- **Every run** in which the messages delivered to the responders are fair. -/
theorem guarded_of_reach (h : (keyHost hostIdent target c).Reach FairStep w) : Guarded w :=
  h.invariant ⟨fun _ hx => absurd hx List.not_mem_nil, fun _ hx => absurd hx List.not_mem_nil,
    fun _ _ he => absurd he List.not_mem_nil⟩
    fun _ _ _ hr ih hf hs => ih.step (sound_of_reach hr) hs hf

/-- An initiator that was removed stays removed. -/
theorem removed_of_reach {C : KeyHost → Op → Prop} (h : (keyHost hostIdent target c).Reach C w)
    (hr : Removed w k) (h' : ((keyHost hostIdent target c).startAt w).Reach C w') :
    Removed w' k := by
  have hboth : Sound w' ∧ Removed w' k := by
    refine h'.invariant (P := fun v => Sound v ∧ Removed v k) ⟨sound_of_reach h, hr⟩
      fun u v op _ ih _ hs => ⟨(ih.1.step hs).1, ?_⟩
    rcases step_cases ih.1.tables (fun x hx => (ih.1.settled x hx).txtimer) hs with
      hp | ⟨j, m, src, r, a, -, rfl⟩ | ⟨j, f, rfl, -⟩
    · exact hp.invariant (fun _ _ hm => hm.keeps_removed) ih.2
    · exact ih.2
    · exact ih.2
  exact hboth.2

end KeyHost

/-- **Safe cancellation.** In every run, an initiator that was removed because the stream peer has
a working primary flow has sent no ChkI1 and no DhI2, and sends none in any continuation of the run:
it has no checksum exchange, and no responder ever creates a flow for its Diffie-Hellman
exchange. -/
theorem safe_cancellation {hostIdent : ℕ} {target : Ident} {c : ℕ → Config} {w w' : KeyHost}
    (h : (keyHost hostIdent target c).Reach KeyHost.FairStep w) {k : ℕ} {x : Attempt}
    (hx : w.objs[k]? = some x) (hr : x.removed = true)
    (h' : ((keyHost hostIdent target c).startAt w).Reach KeyHost.FairStep w') :
    ∃ y, w'.objs[k]? = some y ∧
      (∀ m, .sent m ∈ y.log → ∀ chunk ∈ m, ¬KeyHost.Founding chunk) ∧ y.methChk = false ∧
      (y.methAes = true → ∀ j, ∀ e ∈ (w'.resp j).r.created, ∀ d, e.answer = .dhR2 d →
        d.nhi ≠ y.nhi) := by
  obtain ⟨y, hy, hyr⟩ := KeyHost.removed_of_reach h ⟨x, hx, hr⟩ h'
  have hg := KeyHost.guarded_of_reach (h.trans h')
  have hym := List.mem_of_getElem? hy
  have hc := hg.careful y hym
  have he := (hc.removed hyr).1
  have hu := (hc.early he).1
  refine ⟨y, hy, hu, ?_, fun ha j e hej d hd heq => ?_⟩
  · cases hm : y.methChk with
    | false => rfl
    | true => exact absurd ((hc.late hm).symm.trans he) nofun
  · obtain ⟨n, -, hn, hsent⟩ := hg.flows j e hej d hd
    rw [heq, hg.hashed y hym] at hn
    obtain ⟨m, d', h1, h2⟩ := hsent y hym ha (Nonce.hash.inj hn)
    exact hu m h1 _ h2 trivial

/-- A stream peer starts an initiator and gives it up; it sends its I1 message once more. -/
def givenUp : List KeyHost.Op :=
  [.initiate ⟨7, 0, 1, .null, 0, 5, 3⟩ ⟨1, 1, 1⟩, .primaryStatusChanged .up]

theorem safe_cancellation_givenUp : ∃ (w : KeyHost) (y : Attempt), w.objs[0]? = some y ∧
    y.log.length = 2 ∧ y.removed = true ∧
      ∀ m, .sent m ∈ y.log → ∀ chunk ∈ m, ¬KeyHost.Founding chunk := by
  have hrun : ∃ v w x y, (keyHost 1 (.key 2) fun _ => toHost2).run
      (keyHost 1 (.key 2) fun _ => toHost2).init givenUp = some v ∧ v.objs[0]? = some x ∧
      x.removed = true ∧
      (keyHost 1 (.key 2) fun _ => toHost2).step v (.timeout 0 false ⟨1, 1, 1⟩) = some w ∧
      w.objs[0]? = some y ∧ y.log.length = 2 ∧ y.removed = true :=
    ⟨_, _, _, _, rfl, rfl, rfl, rfl, rfl, rfl, rfl⟩
  obtain ⟨v, w, x, y, hv, hx, hr, hw, hy, hl, hyr⟩ := hrun
  have hreach : (keyHost 1 (.key 2) fun _ => toHost2).Reach KeyHost.FairStep v := by
    refine Machine.Reach.init.extend (fun op hop u j m src r a he => ?_) hv
    subst he
    simp [givenUp] at hop
  have hfair : KeyHost.FairStep v (.timeout 0 false ⟨1, 1, 1⟩) :=
    fun _ _ _ _ _ h => (nomatch h)
  have hcont : ((keyHost 1 (.key 2) fun _ => toHost2).startAt v).Reach KeyHost.FairStep w :=
    Machine.Reach.init.step (i := .timeout 0 false ⟨1, 1, 1⟩) hfair hw
  obtain ⟨y', hy', hu, -⟩ := safe_cancellation hreach hx hr hcont
  obtain rfl : y = y' := Option.some.inj (hy.symm.trans hy')
  exact ⟨w, y, hy, hl, hyr, hu⟩

end Sst.Key
