import Sst.Strm.Moves

/-!
# What a peer sends

A step of a peer sends at most one packet, and it does so when the congestion window of the flow is
open, or when the flow is forced to transmit.

* `Peer.apply_sent`, `Peer.sends_sent`: what the acts send.
* **`Exec.step_sent`**: what a step sends.
* **`window_compliance`**: a packet outside the window is the first one of a `readyTransmit` that
  asks for no window.
-/

namespace Sst.Strm

open Transition

namespace Peer

variable {w w' : Peer} {f k : ℕ} {s : StrmId} {forced : Bool}

theorem modFlow_sent {g : StreamFlow → StreamFlow} (h : (g (w.flows f)).sent = (w.flows f).sent) :
    ((w.modFlow f g).flows k).sent = (w.flows k).sent := by
  rw [modFlow_flows]
  split_ifs with hk
  · rw [h, hk]
  · rfl

theorem shrunk_sent (h : Shrunk w w') (k : ℕ) : (w'.flows k).sent = (w.flows k).sent := by
  have := h.flows k
  simp only [StreamFlow.fixed, Prod.mk.injEq] at this
  exact this.2.2.2.2.2

theorem endflight_sent (w : Peer) (p : Packet) (k : ℕ) :
    ((w.endflight p).flows k).sent = (w.flows k).sent := by
  rw [(endflight_flow w p).2]

theorem setPriority_sent (w : Peer) (s : StrmId) (newpri : ℤ) (k : ℕ) :
    ((w.setPriority s newpri).flows k).sent = (w.flows k).sent := by
  unfold setPriority
  dsimp only
  split
  · rw [enqueueStream_flows]
    have hdeq : ∀ f k, (((w.modStream s fun b => { b with priority := newpri }).dequeueStream f
        s).flows k).sent = (w.flows k).sent := fun f k => by
      unfold dequeueStream
      exact modFlow_sent rfl
    split_ifs with hk
    · rw [hk]
      exact hdeq _ _
    · exact hdeq _ _
  · rfl

/-- **Acts** other than transmissions send nothing. -/
theorem apply_sent {a : Act} (h : w.Good none none) (hadm : w.Admits a)
    (ha : ∀ f s forced, ¬a.Sends f s forced) (hk : a = .newFlow → k < w.nextFlow) :
    ((w.apply a).flows k).sent = (w.flows k).sent := by
  cases a with
  | attach f s ctr i =>
    rw [apply, takeName_flows, joinFlow_flows]
    split_ifs with hkf
    · rw [hkf]
    · rfl
  | line f s =>
    change ((w.enqueueStream f s).flows k).sent = _
    rw [enqueueStream_flows]
    split_ifs with hkf
    · rw [hkf]
    · rfl
  | prioritize s newpri => exact setPriority_sent w s newpri k
  | pick f s rest =>
    rw [pick_flows]
    split_ifs with hkf
    · rw [hkf]
    · rfl
  | sendData f s q p rest type wire forced => exact absurd ⟨rfl, rfl, rfl⟩ (ha f s forced)
  | sendDatagram f s p rest wire forced => exact absurd ⟨rfl, rfl, rfl⟩ (ha f s forced)
  | sendAttach f s p wire forced => exact absurd ⟨rfl, rfl, rfl⟩ (ha f s forced)
  | ack f seq p =>
    have htake : (((w.takePacket f seq).report f seq).flows k).sent = (w.flows k).sent := by
      change ((w.takePacket f seq).flows k).sent = _
      unfold takePacket
      exact modFlow_sent rfl
    unfold apply
    dsimp only
    split_ifs
    · exact (endflight_sent ..).trans htake
    · exact htake
  | miss f seq p =>
    have hmark : (((w.report f seq).markLate f seq p).flows k).sent = (w.flows k).sent := by
      unfold markLate
      exact modFlow_sent rfl
    unfold apply
    dsimp only
    split_ifs
    · exact (endflight_sent ..).trans hmark
    · exact hmark
  | drop f seq =>
    unfold apply takePacket
    exact modFlow_sent rfl
  | create f p u sid slot pktseq =>
    have hsub : (w.createSub f p u).flows = w.flows := by
      unfold createSub
      dsimp only
      split_ifs <;> rfl
    have hctr : (((w.createSub f p u).followCtr f sid).flows k).sent = (w.flows k).sent := by
      rw [← hsub]
      unfold followCtr
      exact modFlow_sent rfl
    rw [← hctr]
    unfold apply setActive
    exact modFlow_sent rfl
  | setActive s i f sid rxseq =>
    unfold apply setActive
    exact modFlow_sent rfl
  | clearRx s i =>
    change ((w.clearRx s i).flows k).sent = _
    unfold clearRx
    split
    · rfl
    · rename_i a _
      exact modFlow_sent (f := a.flow) (w := w.modStream s fun b =>
        { b with ratt := Function.update b.ratt i none }) rfl
  | newFlow =>
    change (Function.update w.flows _ _ k).sent = _
    rw [Function.update_of_ne (hk rfl).ne]
  | activateFlow f nocc tx rx =>
    unfold apply activateFlow
    exact modFlow_sent rfl
  | channel f g =>
    have hkept := hadm.1
    simp only [StreamFlow.kept, Prod.mk.injEq] at hkept
    exact modFlow_sent hkept.2.2.2.2.2.2.2.2.2.2.2
  | rehash f ackwait =>
    unfold apply
    exact modFlow_sent rfl
  | clearPrimary => exact shrunk_sent (clearPrimary_spec h).2.2.2.1 k
  | stop f => exact shrunk_sent (stop_spec h hadm).2.2.1 k
  | delete s => exact shrunk_sent (deleteStream_spec h s).2.1 k
  | _ => rfl

theorem calm_nextFlow {a : Act} (h : w.Placed none) (ha : a.Calm) (hadm : w.Admits a) :
    w.nextFlow ≤ (w.apply a).nextFlow := by
  by_cases hstill : a.Still
  · exact (congrArg Layout.nextFlow (apply_layout hstill hadm)).ge
  cases a with
  | attach f s ctr i => exact (congrArg Layout.nextFlow (attach_layout w f s ctr i)).ge
  | create f p u sid slot pktseq =>
    have hl : (w.apply (.create f p u sid slot pktseq)).layout = w.layout.create :=
      (setActive_layout ..).trans ((followCtr_layout ..).trans (createSub_layout h f p u))
    exact (congrArg Layout.nextFlow hl).ge
  | newFlow => exact Nat.le_succ _
  | line | openStream | activateFlow | primary => exact le_rfl
  | prioritize | pick | clearPrimary | stop | delete => exact ha.elim
  | _ => exact absurd trivial hstill

theorem calm_sent (h : w.Good none none) (hs : Steps Act.Calm w w') (hk : k < w.nextFlow) :
    (w'.flows k).sent = (w.flows k).sent ∧ k < w'.nextFlow := by
  refine (hs.invariant (I := fun w' => w'.Good none none ∧
    (w'.flows k).sent = (w.flows k).sent ∧ k < w'.nextFlow) ?_ ⟨h, rfl, hk⟩).2
  rintro v a ha hadm ⟨hg, hsent, hv⟩
  refine ⟨good_apply hg hadm, (apply_sent hg hadm (fun f s forced hn => ?_) fun _ => hv).trans
    hsent, hv.trans_le (calm_nextFlow hg.placed ha hadm)⟩
  cases a with
  | sendData | sendDatagram | sendAttach => exact ha.elim
  | _ => exact hn.elim

theorem closing_sent (h : w.Good none none) (hs : Steps Act.Closing w w') :
    (w'.flows k).sent = (w.flows k).sent := by
  refine (hs.invariant (I := fun w' => w'.Good none none ∧
    (w'.flows k).sent = (w.flows k).sent) ?_ ⟨h, rfl⟩).2
  rintro v a ha hadm ⟨hg, hsent⟩
  refine ⟨good_apply hg hadm, (apply_sent hg hadm (fun f s forced hn => ?_) fun hn => ?_).trans
    hsent⟩
  · cases a with
    | sendData | sendDatagram | sendAttach => exact ha.elim
    | _ => exact hn.elim
  · rw [hn] at ha
    exact ha.elim

theorem flowTransmit_sent (w : Peer) (f k : ℕ) (s : StrmId) (wire : Wire) (forced : Bool) :
    ((w.flowTransmit f s wire forced).flows k).sent = if k = f then
      ⟨(w.flows f).txseq, s, wire, (w.flows f).nocc, (w.flows f).mayTransmit, forced⟩ ::
        (w.flows f).sent
    else (w.flows k).sent := by
  unfold flowTransmit
  rw [modFlow_flows]
  split_ifs <;> rfl

/-- **A transmission** is one packet, and the flow may transmit at that moment, or is forced to. -/
theorem sends_sent {a : Act} (ha : a.Sends f s forced) (hadm : w.Admits a) :
    ∃ r : Sent, (∀ k, ((w.apply a).flows k).sent =
      if k = f then r :: (w.flows f).sent else (w.flows k).sent) ∧
      (r.may = true ∨ forced = true) ∧ r.forced = forced := by
  have hawait : ∀ (v : Peer) (p : Packet) wire, v.flows = w.flows → w.Turn f forced →
      ∃ r : Sent, (∀ k, (((v.awaitAck f p).flowTransmit f s wire forced).flows k).sent =
        if k = f then r :: (w.flows f).sent else (w.flows k).sent) ∧
        (r.may = true ∨ forced = true) ∧ r.forced = forced := by
    intro v p wire hv ht
    have hflow : ∀ k, ((v.awaitAck f p).flows k).sent = (w.flows k).sent := fun k => by
      rw [← hv]
      unfold awaitAck
      exact modFlow_sent rfl
    have hmay : ((v.awaitAck f p).flows f).mayTransmit = (w.flows f).mayTransmit := by
      rw [← hv, awaitAck, modFlow_self]
      rfl
    refine ⟨⟨((v.awaitAck f p).flows f).txseq, s, wire, ((v.awaitAck f p).flows f).nocc,
      ((v.awaitAck f p).flows f).mayTransmit, forced⟩, fun k => ?_, ?_, rfl⟩
    · rw [flowTransmit_sent, hflow, hflow]
    · rw [hmay]
      exact ht.symm
  cases a with
  | sendData f' s' q p rest type wire forced' =>
    obtain ⟨rfl, rfl, rfl⟩ := ha
    obtain ⟨i, a, -, -, -, ht, -⟩ := hadm
    exact hawait _ _ wire rfl ht
  | sendDatagram f' s' p rest wire forced' =>
    obtain ⟨rfl, rfl, rfl⟩ := ha
    obtain ⟨i, a, -, -, -, ht, -⟩ := hadm
    refine ⟨⟨(w.flows f').txseq, s', wire, (w.flows f').nocc, (w.flows f').mayTransmit, forced'⟩,
      fun k => ?_, ht.symm, rfl⟩
    unfold apply
    rw [flowTransmit_sent]
    rfl
  | sendAttach f' s' p wire forced' =>
    obtain ⟨rfl, rfl, rfl⟩ := ha
    obtain ⟨-, i, a, -, ht, -⟩ := hadm
    exact hawait w p wire rfl ht
  | _ => exact ha.elim

end Peer

namespace Exec

variable {x x' : Exec} {l : Label} {k : ℕ}

/-- **What a step sends** on a flow: nothing, or one packet when it has its turn. -/
theorem step_sent (h : x.Good) (hstep : x.step l = some x') (hk : k < x.peer.nextFlow) :
    (x'.peer.flows k).sent = (x.peer.flows k).sent ∨
      ∃ r forced, x.turn l = some (k, forced) ∧ (x.peer.flows k).tstreams ≠ [] ∧
        (x'.peer.flows k).sent = r :: (x.peer.flows k).sent ∧ (r.may = true ∨ forced = true) ∧
        r.forced = forced := by
  obtain ⟨r, stack, hm, rfl, -⟩ := step_moves h hstep
  cases hm with
  | calm _ _ hl => exact .inl (Peer.calm_sent h.peer hl.steps hk).1
  | @turn r f s rest forced ht hrest hturn =>
    obtain ⟨⟨w₁, w₂, h1, h2, h3⟩, -⟩ := hturn
    have hpick : (x.peer.apply (.pick f s rest)).Good none none := Peer.good_apply h.peer hrest
    have hg₁ := Peer.good_steps h1 hpick
    have hsent₀ : ((x.peer.apply (.pick f s rest)).flows k).sent = (x.peer.flows k).sent := by
      refine Peer.apply_sent h.peer hrest (fun _ _ _ hn => hn.elim) fun hn => (nomatch hn)
    obtain ⟨hsent₁, hk₁⟩ := Peer.calm_sent hpick (h1.mono fun _ ha => ha.minor.calm) (k := k) hk
    obtain rfl | ⟨a, ha, hadm, rfl⟩ := h2
    · obtain ⟨hsent₂, -⟩ := Peer.calm_sent hg₁ (h3.mono fun _ ha => ha.minor.calm) hk₁
      exact .inl (hsent₂.trans (hsent₁.trans hsent₀))
    · obtain ⟨r', hr, hmay, hforced⟩ := Peer.sends_sent ha hadm
      have hk₂ : k < (w₁.apply a).nextFlow := by
        cases a with
        | sendData | sendDatagram | sendAttach => exact hk₁
        | _ => exact ha.elim
      obtain ⟨hsent₂, -⟩ := Peer.calm_sent (Peer.good_apply hg₁ hadm)
        (h3.mono fun _ ha => ha.minor.calm) hk₂
      have hall := hsent₂.trans (hr k)
      by_cases hkf : k = f
      · subst hkf
        rw [if_pos rfl, hsent₁, hsent₀] at hall
        exact .inr ⟨r', forced, ht, by rw [hrest]; exact List.cons_ne_nil _ _, hall, hmay, hforced⟩
      · rw [if_neg hkf, hsent₁, hsent₀] at hall
        exact .inl hall
  | @priority s newpri _ => exact .inl (Peer.setPriority_sent x.peer s newpri k)
  | closing _ _ hl => exact .inl (Peer.closing_sent h.peer hl.steps)

end Exec

theorem Exec.turn_may {x x' : Exec} {l : Label} {f : ℕ} {forced : Bool}
    (ht : x.turn l = some (f, forced)) (hstep : x.step l = some x') :
    forced = true ∨ (x.peer.flows f).mayTransmit = true := by
  unfold turn at ht
  split at ht
  · split_ifs at ht with hmay
    cases ht
    exact .inr hmay
  · rename_i hx
    cases ht
    unfold step at hstep
    rw [hx] at hstep
    split at hstep
    · cases hstep
    obtain ⟨r, hr, -⟩ := Option.map_eq_some_iff.mp hstep
    simp only [Peer.event] at hr
    split_ifs at hr with hc
    simp only [Bool.and_eq_true, Bool.or_eq_true] at hc
    exact hc.2
  · cases ht
    exact .inl rfl
  · cases ht

/-- **Window compliance.** A step of a run sends at most one packet on a flow. On a flow with its
own congestion control there is room in the congestion window at that moment, unless the step is the
`readyTransmit` that a timeout or `start` raises. -/
theorem window_compliance {x x' : Exec} {l : Label} {f : ℕ}
    (h : peerMachine.Reach Machine.always x) (hstep : x.step l = some x')
    (hf : f < x.peer.nextFlow) :
    ∃ new : List Sent, (x'.peer.flows f).sent = new ++ (x.peer.flows f).sent ∧ new.length ≤ 1 ∧
      ((x.peer.flows f).nocc = false → ∀ r ∈ new,
        (r.may = true ∧ (x.peer.flows f).txfltcnt < (x.peer.flows f).cwnd) ∨
          x.turn l = some (f, true)) := by
  obtain hsent | ⟨r, forced, ht, -, hsent, hmay, -⟩ := Exec.step_sent (Exec.good_reach h) hstep hf
  · exact ⟨[], hsent, by simp, fun _ r hr => (nomatch hr)⟩
  refine ⟨[r], hsent, by simp, fun hcc q hq => ?_⟩
  rw [List.mem_singleton.mp hq]
  cases forced with
  | true => exact .inr ht
  | false =>
    have hopen := (Exec.turn_may ht hstep).resolve_left (by decide)
    unfold StreamFlow.mayTransmit at hopen
    rw [hcc] at hopen
    exact .inl ⟨hmay.resolve_right (by decide), of_decide_eq_true hopen⟩

/-- An application connects and writes while its first packet is in flight: the second one still
fits the window of two packets. -/
theorem window_compliance_second : ∃ (x x' : Exec) (r : Sent),
    peerMachine.run peerMachine.init [.event .newFlow, .event (.start 0 true false 5 6), .run,
      .back, .call (.connectTo [1, 2]), .run, .run, .back, .run, .run,
      .call (.writeData (.sub 0) [3] ⟨true, false, false⟩), .run] = some x ∧
    x.step .run = some x' ∧ (x'.peer.flows 0).sent = r :: (x.peer.flows 0).sent ∧
    (x.peer.flows 0).txfltcnt = 1 ∧ (x.peer.flows 0).cwnd = 2 ∧
    r.may = true ∧ (x.peer.flows 0).txfltcnt < (x.peer.flows 0).cwnd := by
  have hrun : ∃ x, peerMachine.run peerMachine.init [.event .newFlow,
      .event (.start 0 true false 5 6), .run, .back, .call (.connectTo [1, 2]), .run, .run, .back,
      .run, .run, .call (.writeData (.sub 0) [3] ⟨true, false, false⟩), .run] = some x ∧
      ∃ x', x.step .run = some x' ∧ 0 < x.peer.nextFlow ∧ (x.peer.flows 0).nocc = false ∧
      x.turn .run ≠ some (0, true) ∧ (x'.peer.flows 0).sent.length = 2 ∧
      (x.peer.flows 0).sent.length = 1 ∧ (x.peer.flows 0).txfltcnt = 1 ∧
      (x.peer.flows 0).cwnd = 2 :=
    ⟨_, rfl, _, rfl, Nat.one_pos, rfl, by decide +kernel, by decide +kernel, by decide +kernel,
      by decide +kernel, by decide +kernel⟩
  obtain ⟨x, hx, x', hstep, hf, hcc, hturn, hlen', hlen, hflt, hcwnd⟩ := hrun
  obtain ⟨new, hnew, -, hmay⟩ := window_compliance (Machine.reach_of_run hx) hstep hf
  have hone : new.length = 1 := by
    rw [hnew, List.length_append, hlen] at hlen'
    exact Nat.succ.inj hlen'
  obtain ⟨r, rfl⟩ := List.length_eq_one_iff.mp hone
  obtain ⟨h1, h2⟩ := (hmay hcc r (List.mem_singleton_self r)).resolve_right hturn
  exact ⟨x, x', r, hx, hstep, hnew, hflt, hcwnd, h1, h2⟩

end Sst.Strm
