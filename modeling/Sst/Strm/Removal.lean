import Sst.Strm.Moves

/-!
# What becomes of a packet in a step

A packet leaves the table of its flow when the flow reports it acknowledged, when the flow lets it
expire, or when its stream is detached. A step does one of the first two only if it is that report.

* `Act.Plain`: the other acts.
* `Removal`: what a step takes out of a table on behalf of the flow.
* **`Exec.step_plain`**: a step is a removal and a sequence of plain acts.
* **`Exec.reach_rule`**: the rule for invariants of runs under a condition on the reports.
-/

namespace Sst.Strm

open Transition

/-- The acts that are not reports which take a packet out of a table; a packet that names a stream
bears a position of 16 bits. -/
def Act.Plain : Act → Prop
  | .ack .. | .drop .. => False
  | a => a.Short

theorem Act.Quiet.plain {a : Act} (h : a.Quiet) : a.Plain := by
  cases a with
  | ack | drop | sendData => exact h.elim
  | _ => trivial

theorem Act.Closing.plain {a : Act} (h : a.Closing) : a.Plain := by
  cases a with
  | ack | drop | sendData => exact h.elim
  | _ => trivial

theorem Act.SendsShort.plain {a : Act} {f : ℕ} {s : StrmId} {forced : Bool}
    (h : a.SendsShort f s forced) : a.Plain := by
  cases a with
  | ack | drop => exact h.1
  | sendData => exact h.2
  | _ => trivial

theorem Act.For.plain {a : Act} {s : StrmId} (h : a.For s) : a.Plain := h.minor.quiet.plain

/-- What a step takes out of a table on behalf of the flow. -/
inductive Removal (w : Peer) (l : Label) : Peer → Prop
  | idle : Removal w l w
  | acked {f seq rxseq p} (hl : l = .event (.acked f seq rxseq))
      (hp : (w.flows f).ackwait.lookup seq = some p) : Removal w l (w.apply (.ack f seq p))
  | expired {f seq} (hl : l = .event (.expire f seq)) : Removal w l (w.apply (.drop f seq))

theorem Removal.good {w v : Peer} {l : Label} (h : Removal w l v) (hg : w.Good none none) :
    v.Good none none := by
  cases h with
  | idle => exact hg
  | acked _ hp => exact Peer.good_apply hg hp
  | @expired f seq _ => exact Peer.good_apply (a := .drop f seq) hg trivial

/-- **A turn** is a sequence of plain acts. -/
theorem Peer.Good.turn_plain {w : Peer} {f : ℕ} {forced : Bool} (h : w.Good none none)
    (ht : w.Turn f forced) : Steps Act.Plain w (w.readyTransmit f forced).1 := by
  cases hs : (w.flows f).tstreams with
  | nil =>
    unfold Peer.readyTransmit
    rw [hs]
    exact .refl
  | cons s rest =>
    obtain ⟨⟨w₁, w₂, h1, h2, h3⟩, -⟩ := h.short_turn ht hs
    have hpick : Steps Act.Plain w (w.apply (.pick f s rest)) := .single trivial hs
    have hsend : Steps Act.Plain w₁ w₂ := by
      obtain rfl | ⟨a, ha, hadm, rfl⟩ := h2
      · exact .refl
      · exact .single ha.plain hadm
    refine hpick.trans ((h1.mono fun _ ha => ha.plain).trans (hsend.trans ?_))
    exact h3.mono fun _ ha => ha.plain

namespace Exec

variable {x x' : Exec} {l : Label}

theorem call_plain (h : x.Good) {c : Call} {r : Peer × List Frame} (hr : x.peer.call c = some r) :
    Steps Act.Plain x.peer r.1 := by
  cases c with
  | setPriority s newpri =>
    simp only [Peer.call] at hr
    split_ifs at hr
    cases hr
    exact .single (a := .prioritize s newpri) trivial trivial
  | _ =>
    refine (Peer.call_leads h.peer.held hr fun _ _ hn => ?_).steps.mono fun _ ha => ha.plain
    cases hn

theorem run_plain (h : x.Good) {fr : Frame} {stack : List Frame} (hx : x.stack = fr :: stack) :
    Steps Act.Plain x.peer (x.peer.exec fr).1 := by
  have hsound : fr.Sound := h.stack fr (hx ▸ List.mem_cons_self)
  cases fr with
  | readyTransmit f =>
    change Steps Act.Plain x.peer (x.peer.prodFlow f).1
    unfold Peer.prodFlow
    split
    · rename_i hmay
      exact h.peer.turn_plain (.inr hmay)
    · exact .refl
  | _ =>
    refine (Peer.exec_leads h.peer.held hsound fun _ hn => ?_).steps.mono fun _ ha => ha.plain
    cases hn

theorem event_plain (h : x.Good) {e : Event} {r : Peer × List Frame}
    (hr : x.peer.event e = some r) :
    ∃ v, Removal x.peer (.event e) v ∧ Steps Act.Plain v r.1 := by
  cases e with
  | newFlow =>
    cases hr
    exact ⟨_, .idle, .single (a := .newFlow) trivial trivial⟩
  | start f initiator nocc tx rx =>
    simp only [Peer.event] at hr
    split_ifs at hr with hc
    cases hr
    simp only [Bool.and_eq_true, decide_eq_true_eq, Bool.not_eq_true'] at hc
    exact ⟨_, .idle, (Peer.start_leads h.peer hc.1.1 hc.1.2 ..).steps.mono fun _ ha => ha.plain⟩
  | channel f cwnd txfltcnt sockMay txseq =>
    simp only [Peer.event] at hr
    split_ifs at hr with hc
    cases hr
    simp only [Bool.and_eq_true, decide_eq_true_eq] at hc
    exact ⟨_, .idle, .single (a := .channel f fun y => { y with
      cwnd := cwnd, txfltcnt := txfltcnt, sockMay := sockMay, txseq := txseq }) trivial
      ⟨rfl, hc.2⟩⟩
  | rehash f ackwait =>
    simp only [Peer.event] at hr
    split_ifs at hr with hc
    cases hr
    exact ⟨_, .idle, .single (a := .rehash f ackwait) trivial hc⟩
  | linkStatus f status =>
    simp only [Peer.event] at hr
    split_ifs at hr
    cases hr
    exact ⟨_, .idle, (Peer.setLinkStatus_leads h.peer f status).steps.mono fun _ ha => ha.plain⟩
  | destroyFlow f =>
    simp only [Peer.event] at hr
    split_ifs at hr with hc
    cases hr
    simp only [Bool.and_eq_true, decide_eq_true_eq] at hc
    exact ⟨_, .idle, (Peer.destroyFlow_leads h.peer hc.2 hc.1).steps.mono fun _ ha => ha.plain⟩
  | deleteStream n =>
    simp only [Peer.event] at hr
    split_ifs at hr with hc
    cases hr
    exact ⟨_, .idle, (Peer.deleteStream_leads h.peer hc).steps.mono fun _ ha => ha.plain⟩
  | acked f seq rxseq =>
    simp only [Peer.event] at hr
    split_ifs at hr
    cases hr
    obtain ⟨v, hv, hl⟩ := @Peer.acked_after x.peer f seq rxseq h.peer.held
    have hlast : Steps Act.Plain v (x.peer.acked f seq rxseq).1 := 
      hl.steps.mono fun _ ha => ha.plain
    obtain ⟨rfl, hnone⟩ | ⟨p, rfl, hp⟩ := hv
    · exact ⟨_, .idle, (Steps.single (a := .report f seq) trivial hnone).trans hlast⟩
    · exact ⟨_, .acked rfl hp, hlast⟩
  | missed f seq =>
    simp only [Peer.event] at hr
    split_ifs at hr
    cases hr
    exact ⟨_, .idle, (Peer.missed_leads h.peer.held).steps.mono fun _ ha => ha.plain⟩
  | expire f seq =>
    simp only [Peer.event] at hr
    split_ifs at hr
    cases hr
    exact ⟨_, .expired rfl, .refl⟩
  | readyTransmit f forced =>
    simp only [Peer.event] at hr
    split_ifs at hr with hc
    cases hr
    simp only [Bool.and_eq_true, Bool.or_eq_true] at hc
    exact ⟨_, .idle, h.peer.turn_plain hc.2⟩
  | receive f rx =>
    simp only [Peer.event] at hr
    split_ifs at hr with hc
    cases hr
    exact ⟨_, .idle, (Peer.receive_leads hc rx).steps.mono fun _ ha => ha.plain⟩

/-- **A step** is a removal and a sequence of plain acts. -/
theorem step_plain (h : x.Good) (hstep : x.step l = some x') :
    ∃ v, Removal x.peer l v ∧ Steps Act.Plain v x'.peer := by
  unfold step at hstep
  split at hstep
  · cases hstep
  split at hstep
  · cases hstep
  · rename_i fr stack hne hx
    cases hstep
    exact ⟨_, .idle, run_plain h hx⟩
  · cases hstep
    exact ⟨_, .idle, .refl⟩
  · split_ifs at hstep
    obtain ⟨r, hr, rfl⟩ := Option.map_eq_some_iff.mp hstep
    exact ⟨_, .idle, call_plain h hr⟩
  · obtain ⟨r, hr, rfl⟩ := Option.map_eq_some_iff.mp hstep
    exact event_plain h hr
  · cases hstep

theorem plain_rule {I : Peer → Prop}
    (hI : ∀ w a, w.Good none none → w.Admits a → a.Plain → I w → I (w.apply a)) {w w' : Peer}
    (h : Steps Act.Plain w w') (hg : w.Good none none) (hw : I w) : I w' := by
  have hboth := h.invariant (I := fun w => w.Good none none ∧ I w)
    (fun w a ha hadm hw => ⟨Peer.good_apply hw.1 hadm, hI w a hw.1 hadm ha hw.2⟩) ⟨hg, hw⟩
  exact hboth.2

/-- **The rule** for invariants of runs: a run keeps what plain acts keep, and the reports that take
a packet out of its table, where the condition on the run allows them. -/
theorem reach_rule {C : Exec → Label → Prop} {I : Peer → Prop} (h0 : I .new)
    (hI : ∀ w a, w.Good none none → w.Admits a → a.Plain → I w → I (w.apply a))
    (hack : ∀ x f seq rxseq p, x.Good → C x (.event (.acked f seq rxseq)) →
      (x.peer.flows f).ackwait.lookup seq = some p → I x.peer → I (x.peer.apply (.ack f seq p)))
    (hdrop : ∀ x f seq, x.Good → C x (.event (.expire f seq)) → I x.peer →
      I (x.peer.apply (.drop f seq)))
    (h : peerMachine.Reach C x) : I x.peer := by
  induction h with
  | init => exact h0
  | @step x y l hr hc hst ih =>
    have hg := good_reach hr
    obtain ⟨v, hv, hsteps⟩ := step_plain hg hst
    refine plain_rule hI hsteps (hv.good hg.peer) ?_
    cases hv with
    | idle => exact ih
    | @acked f seq rxseq p hl hp => exact hack x f seq rxseq p hg (hl ▸ hc) hp ih
    | @expired f seq hl => exact hdrop x f seq hg (hl ▸ hc) ih

end Exec

end Sst.Strm
