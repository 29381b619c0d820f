import Sst.Strm.Detach

/-!
# What a step of a peer does

A step makes a few changes that leave every stream where it is in its queue, or gives the first
stream in line a turn, or sets a priority, or detaches streams.

* `Act.Calm`, `Act.Closing`: the acts of the first and of the last kind.
* `Peer.acked_leads`, `receive_leads`, …: the functions of the first kind.
* `Exec.turn`, `Exec.picks`: the flow that transmits, and the stream that it chooses.
* `Moves`, **`Exec.step_moves`**: what a step does.
* **`Exec.good_reach`**: the invariants hold throughout every run.
-/

namespace Sst.Strm

/-- The acts that leave every stream where it is in its queue. -/
def Act.Calm : Act → Prop
  | .prioritize .. | .pick .. | .sendData .. | .sendDatagram .. | .sendAttach .. | .clearPrimary
  | .stop .. | .delete .. => False
  | _ => True

/-- The acts of flows and streams that come and go. -/
def Act.Closing : Act → Prop
  | .signal .. | .channel .. | .activateFlow .. | .nameRoot .. | .primary .. | .clearPrimary
  | .stop .. | .delete .. => True
  | _ => False

/-- The calm acts that take no packet out of the table of its flow. -/
def Act.Quiet : Act → Prop
  | .ack .. | .drop .. => False
  | a => a.Calm

theorem Act.Quiet.calm {a : Act} (h : a.Quiet) : a.Calm := by
  cases a with
  | ack | drop => exact h.elim
  | _ => exact h

theorem Act.Minor.quiet {a : Act} (h : a.Minor) : a.Quiet := by
  cases a with
  | misc | signal | adopt | attach | line => trivial
  | _ => exact h.elim

theorem Act.Minor.calm {a : Act} (h : a.Minor) : a.Calm := h.quiet.calm

theorem Leads.quiet {w : Peer} {r : Peer × List Frame} (h : Leads Act.Minor w r) :
    Leads Act.Quiet w r :=
  h.mono fun _ => Act.Minor.quiet

theorem Leads.calm {w : Peer} {r : Peer × List Frame} (h : Leads Act.Quiet w r) :
    Leads Act.Calm w r :=
  h.mono fun _ => Act.Quiet.calm

namespace Peer

variable {w : Peer} {f seq rxseq : ℕ} {s : StrmId} {p : Packet}

/-- **Acts** preserve the invariants. -/
theorem good_apply {a : Act} (h : Good none none w) (hadm : w.Admits a) :
    Good none none (w.apply a) := by
  cases a with
  | primary f => exact ⟨placed_primary h.placed hadm, held_apply h.held h.placed trivial hadm⟩
  | clearPrimary => exact (clearPrimary_spec h).2.1
  | stop f => exact (stop_spec h hadm).2.1
  | delete s => exact (deleteStream_spec h s).1
  | _ => exact ⟨placed_apply h.placed trivial hadm, held_apply h.held h.placed trivial hadm⟩

theorem good_steps {P : Act → Prop} {w w' : Peer} (h : Steps P w w') (hg : Good none none w) :
    Good none none w' :=
  h.invariant (fun _ _ _ hadm hg => good_apply hg hadm) hg

/-! ## Reports -/

theorem attachAcked_leads (w : Peer) (f : ℕ) (s : StrmId) (rxseq : ℕ) :
    Leads Act.Quiet w (w.attachAcked f s rxseq) := by
  unfold attachAcked
  split
  · rename_i i a hi ha
    obtain ⟨j, hj, hslot⟩ := curatt_eq.mp ha
    rw [hi] at hj
    cases hj
    split
    · rename_i h
      simp only [Bool.and_eq_true, decide_eq_true_eq, Bool.not_eq_true'] at h
      obtain ⟨rfl, hack⟩ := h
      refine .after (.single (a := .activate s i a rxseq) trivial ⟨⟨hi, hslot, rfl⟩, hack⟩) ?_
      have hatt : ∃ j a', (w.apply (.activate s i a rxseq)).Attached s a.flow j a' := by
        refine ⟨i, { a with sidseq := rxseq, active := true }, ?_, ?_, rfl⟩
        · rw [apply, activateTx, modStream_self]
          exact hi
        · rw [apply, activateTx, modStream_self]
          exact Function.update_self ..
      refine (queueOn_leads hatt).quiet.append fun fr hfr => ?_
      simp only [List.mem_cons, List.not_mem_nil, or_false] at hfr
      obtain rfl | rfl := hfr <;> trivial
    · exact .stay
  · exact .stay

/-- **A packet reported acknowledged** leaves its table, and then its stream goes on. -/
theorem acked_after (h : w.Held none) : ∃ v, (v = w.apply (.report f seq) ∧
    (w.flows f).ackwait.lookup seq = none ∨ ∃ p, v = w.apply (.ack f seq p) ∧
      (w.flows f).ackwait.lookup seq = some p) ∧ Leads Act.Quiet v (w.acked f seq rxseq) := by
  unfold acked
  split
  · rename_i hnone
    exact ⟨_, .inl ⟨rfl, hnone⟩, .stay⟩
  · rename_i p hp
    refine ⟨_, .inr ⟨p, rfl, hp⟩, ?_⟩
    obtain ⟨-, htype, -⟩ := h.waiting f seq p hp
    unfold strmAcked
    obtain htype | htype := htype
    · simp only [htype, apply, if_true]
      refine ⟨.refl, fun fr hfr => ?_⟩
      obtain hfr | hfr := List.mem_append.mp hfr
      · exact BaseStream.callback_sound _ fr hfr
      · rw [List.mem_singleton.mp hfr]
        trivial
    · simp only [htype, apply, reduceCtorEq, if_false]
      exact attachAcked_leads ..

theorem acked_leads (h : w.Held none) : Leads Act.Calm w (w.acked f seq rxseq) := by
  obtain ⟨v, hv, hl⟩ := @acked_after w f seq rxseq h
  refine .after ?_ hl.calm
  obtain ⟨rfl, hnone⟩ | ⟨p, rfl, hp⟩ := hv
  · exact .single (a := .report f seq) trivial hnone
  · exact .single (a := .ack f seq p) trivial hp

theorem missed_leads (h : w.Held none) : Leads Act.Quiet w (w.missed f seq) := by
  unfold missed
  split
  · rename_i hnone
    exact .silent (.single (a := .report f seq) trivial hnone)
  · rename_i p hp
    split
    · exact .stay
    · rename_i hlate
      have hmiss : Steps Act.Quiet w (w.apply (.miss f seq p)) :=
        .single trivial ⟨hp, Bool.eq_false_iff.mpr hlate⟩
      obtain ⟨-, htype, -⟩ := h.waiting f seq p hp
      unfold strmMissed
      obtain htype | htype := htype
      · simp only [htype, if_true]
        simp only [apply, htype, if_true] at hmiss
        exact .after hmiss (txenqflow_leads ..).quiet
      · simp only [htype, if_true]
        simp only [apply, htype, reduceCtorEq, if_false] at hmiss
        exact .after hmiss (txenqflow_leads ..).quiet

/-! ## Reception -/

theorem calcTransmitWindow_leads (w : Peer) (s : StrmId) (win : ℕ) :
    Leads Act.Quiet w (w.calcTransmitWindow s win) := by
  unfold calcTransmitWindow
  dsimp only
  have hmark := mark_steps w s fun b => { b with twin := Word.wrap 32 (2 ^ (win % 2 ^ 5) - 1) }
  split
  · exact (Leads.after hmark (txenqflow_leads ..)).quiet
  · exact (Leads.silent hmark).quiet

theorem rxOutcome_leads (h : w.Held none) (s : StrmId) (outcome : RxOutcome) :
    Leads Act.Quiet w (w.rxOutcome s outcome) := by
  unfold rxOutcome
  split
  · exact .stay
  · exact ⟨.refl, fun fr hfr => by rw [List.mem_singleton.mp hfr]; trivial⟩
  · exact (Leads.callback (misc_steps w s (.state (by decide))) _).quiet
  · rename_i hst
    have hsub : ∃ n, s = .sub n := by
      cases s with
      | root f => exact absurd hst (h.root f).state
      | sub n => exact ⟨n, rfl⟩
    refine ⟨.refl, fun fr hfr => ?_⟩
    simp only [List.mem_cons, List.not_mem_nil, or_false] at hfr
    obtain rfl | rfl := hfr
    · exact hsub
    · trivial
  · exact (disconnect_leads w s).quiet
  · exact (disconnect_leads w s).quiet
  · exact .stay

theorem deliver_leads (w : Peer) (s : StrmId) (rx : Rx) : Leads Act.Quiet w (w.deliver s rx) :=
  (calcTransmitWindow_leads ..).append fun fr hfr => by
    rw [List.mem_singleton.mp hfr]
    trivial

theorem acknowledge_steps (w : Peer) (f acks : ℕ) : Steps Act.Quiet w (w.acknowledge f acks) :=
  .single (a := .channel f fun x => { x with txseq := x.txseq + acks }) trivial
    ⟨rfl, Nat.le_add_right _ _⟩

theorem lowerSidseq_steps (w : Peer) (s : StrmId) (i : Fin 2) (pktseq : ℕ) :
    Steps Act.Quiet w (w.lowerSidseq s i pktseq) :=
  .single (a := .lowerSidseq s i pktseq) trivial trivial

theorem rxSubstream_leads (hf : (w.flows f).active = true) (q : StrmId) (pktseq sid : ℕ)
    (slot : Fin 2) (u : Usid) (acks : ℕ) :
    Leads Act.Quiet w ((w.rxSubstream f q pktseq sid slot u acks).1,
      (w.rxSubstream f q pktseq sid slot u acks).2.2) := by
  have hack := acknowledge_steps w f acks
  have hact : ((w.acknowledge f acks).flows f).active = true := by
    rw [acknowledge, modFlow_self]
    exact hf
  unfold rxSubstream
  dsimp only
  split
  · exact .silent hack
  · rename_i hl
    simp only [Bool.not_eq_true', Bool.not_eq_false] at hl
    refine .after (hack.trans (.single (a := .create f q u sid slot pktseq) trivial ⟨hact, hl⟩)) ?_
    split_ifs
    · exact .stay
    · exact .callback .refl _

theorem rxInitPacket_leads (hf : (w.flows f).active = true) (rx : Rx) (sid rsid : ℕ) :
    Leads Act.Quiet w (w.rxInitPacket f rx sid rsid) := by
  unfold rxInitPacket
  split
  · rename_i s i _
    exact .after (lowerSidseq_steps ..) (deliver_leads ..)
  split
  · exact .silent (acknowledge_steps ..)
  rename_i q i _
  split
  · exact .stay
  have hsub := rxSubstream_leads hf q rx.pktseq sid 0
    ⟨(w.flows f).extrapolate sid, (w.flows f).rxChannelId⟩ rx.acks
  dsimp only
  split
  · rename_i w' frames heq
    rw [heq] at hsub
    exact hsub
  · rename_i w' s frames heq
    rw [heq] at hsub
    refine hsub.append fun fr hfr => ?_
    simp only [List.mem_cons, List.not_mem_nil, or_false] at hfr
    obtain rfl | rfl := hfr <;> trivial

theorem rxReplyPacket_leads (hf : (w.flows f).active = true) (rx : Rx) (sid rsid : ℕ) :
    Leads Act.Quiet w (w.rxReplyPacket f rx sid rsid) := by
  unfold rxReplyPacket
  split
  · exact .after (lowerSidseq_steps ..) (deliver_leads ..)
  split
  · exact .silent (acknowledge_steps ..)
  rename_i s i _
  split
  · exact .stay
  · exact .after (.single (a := .setActive s 0 f sid rx.pktseq) trivial hf) (deliver_leads ..)

theorem rxDataPacket_leads (w : Peer) (f : ℕ) (rx : Rx) (sid : ℕ) :
    Leads Act.Quiet w (w.rxDataPacket f rx sid) := by
  unfold rxDataPacket
  split
  · exact .silent (acknowledge_steps ..)
  split
  · exact .stay
  · exact deliver_leads ..

theorem rxDatagramPacket_leads (w : Peer) (f : ℕ) (rx : Rx) (sid : ℕ) (begins ends : Bool) :
    Leads Act.Quiet w (w.rxDatagramPacket f rx sid begins ends) := by
  unfold rxDatagramPacket
  split
  · exact .silent (acknowledge_steps ..)
  split
  · exact .stay
  split
  · exact .silent (acknowledge_steps ..)
  split
  · exact .stay
  · exact .callback .refl _

theorem rxAckPacket_leads (w : Peer) (f : ℕ) (rx : Rx) (sid : ℕ) :
    Leads Act.Quiet w (w.rxAckPacket f rx sid) := by
  have hack := acknowledge_steps w f rx.acks
  unfold rxAckPacket
  dsimp only
  split
  · exact .silent hack
  split
  · exact .silent hack
  · exact .after hack (calcTransmitWindow_leads ..)

theorem rxAttachPacket_leads (hf : (w.flows f).active = true) (rx : Rx) (sid : ℕ) (slot : Fin 2)
    (usid : Option Usid) (pusid : Option (Option Usid)) :
    Leads Act.Quiet w (w.rxAttachPacket f rx sid slot usid pusid) := by
  unfold rxAttachPacket
  split
  · exact .stay
  · exact .stay
  split
  · rename_i s _
    split
    · exact .silent (lowerSidseq_steps ..)
    · have hclear : Steps Act.Quiet w (w.clearRx s slot) :=
        .single (a := .clearRx s slot) trivial trivial
      refine .silent (hclear.trans (.single (a := .setActive s slot f sid rx.pktseq) trivial ?_))
      have := congrArg (fun l : Layout => l.active f) (clearRx_layout w s slot)
      exact this.trans hf
  split
  · exact rxSubstream_leads hf ..
  · exact .silent (acknowledge_steps ..)

/-- **Reception** of any packet. -/
theorem receive_leads (hf : (w.flows f).active = true) (rx : Rx) :
    Leads Act.Quiet w (w.receive f rx) := by
  unfold receive
  split
  · exact rxInitPacket_leads hf ..
  · exact rxReplyPacket_leads hf ..
  · exact rxDataPacket_leads ..
  · exact rxDatagramPacket_leads ..
  · exact rxAckPacket_leads ..
  · exact rxAttachPacket_leads hf ..

/-! ## The transmit interface -/

theorem writeSegment_leads (hs : ∃ n, s = .sub n) (data : List UInt8) (endflags : Flags) :
    Leads Act.Quiet w (w.writeSegment s data endflags) := by
  unfold writeSegment txenqueue
  refine .after (.single (a := .write s (w.nextSegment s data endflags)) trivial
    ⟨hs, data, endflags, rfl⟩) ((txenqflow_leads ..).quiet.append fun fr hfr => ?_)
  split_ifs at hfr
  · rw [List.mem_singleton.mp hfr]
    trivial
  · cases hfr
  · rw [List.mem_singleton.mp hfr]
    exact hs

theorem newStream_steps {b : BaseStream} (hb : ∃ parent mode state toplev strm,
    b = { BaseStream.new parent mode state with toplev := toplev, strm := strm }) :
    Steps Act.Quiet w (w.newStream b) :=
  .single (a := .openStream b) trivial hb

theorem openSubstream_leads (w : Peer) (s : StrmId) : Leads Act.Quiet w (w.openSubstream s) :=
  .after (newStream_steps ⟨_, _, _, _, _, rfl⟩) (tattach_leads ..).quiet

theorem writeDatagram_leads (hs : ∃ n, s = .sub n) (data : List UInt8) (reliable : Bool) :
    Leads Act.Quiet w (w.writeDatagram s data reliable) := by
  unfold writeDatagram
  dsimp only
  split
  · refine (openSubstream_leads w s).append fun fr hfr => ?_
    rw [List.mem_singleton.mp hfr]
    exact ⟨_, rfl⟩
  · unfold txenqueue
    refine .after (.single (a := .writeDatagram s (w.nextDatagram s data)) trivial
      ⟨hs, data, rfl⟩) ((txenqflow_leads ..).quiet.append fun fr hfr => ?_)
    rw [List.mem_singleton.mp hfr]
    trivial

theorem shutdown_leads (hs : ∃ n, s = .sub n) (reset write : Bool) :
    Leads Act.Quiet w (w.shutdown s reset write) := by
  unfold shutdown
  split
  · exact (disconnect_leads w s).quiet
  split
  · refine ⟨.refl, fun fr hfr => ?_⟩
    rw [List.mem_singleton.mp hfr]
    exact hs
  · exact .stay

/-! ## Calls still to be made -/

theorem wake_leads {waiting : List StrmId} {drop : Peer → StrmId → Peer}
    (hdrop : ∀ s, Steps Act.Quiet w (drop w s)) (l : List StrmId) {signal : List StrmId → Frame}
    (hsignal : ∀ l, (signal l).Sound) : Leads Act.Quiet w (w.wake waiting drop l signal) := by
  cases l with
  | nil => exact .stay
  | cons s rest =>
    have hone : ∀ fr ∈ [signal rest], fr.Sound := fun fr hfr => by
      rw [List.mem_singleton.mp hfr]
      exact hsignal rest
    simp only [wake]
    split
    · exact .after (hdrop s) ((tattach_leads ..).quiet.append hone)
    · exact ⟨.refl, hone⟩

/-- **A call** other than a turn to transmit. -/
theorem exec_leads (h : w.Held none) {fr : Frame} (hfr : fr.Sound)
    (hne : ∀ f, fr ≠ .readyTransmit f) : Leads Act.Quiet w (w.exec fr) := by
  unfold exec
  cases fr with
  | app => exact .stay
  | tattach s => exact (tattach_leads w s).quiet
  | txenqflow s => exact (txenqflow_leads w s true).quiet
  | readyTransmit f => exact absurd rfl (hne f)
  | attachAcked f s rxseq => exact attachAcked_leads w f s rxseq
  | attached s children =>
    refine wake_leads (fun c => ?_) children fun _ => trivial
    exact (mark_steps w s fun b => { b with listeners := b.listeners.filter (· ≠ c) }).mono
      fun _ => Act.Minor.quiet
  | linkUp s =>
    dsimp only
    split_ifs
    · exact .callback .refl _
    · exact .stay
  | flowConnected waiters =>
    refine wake_leads (fun c => ?_) waiters fun _ => trivial
    exact .single (a := .signal _ w.stallcount w.fault) trivial trivial
  | writeData s data endflags => exact writeSegment_leads hfr data endflags
  | endWrite s =>
    exact (Leads.silent (mark_steps w s fun b => { b with endwrite := true })).quiet
  | waitService s =>
    exact .after ((misc_steps w s (.state (by decide))).mono fun _ => Act.Minor.quiet)
      (tattach_leads ..).quiet
  | bindStream s => exact .silent (.single (a := .bind s) trivial hfr)
  | calcTransmitWindow s win => exact calcTransmitWindow_leads w s win
  | rxData s outcome => exact rxOutcome_leads h s outcome
  | serviceAccepted s =>
    refine ⟨(misc_steps w s (.state (by decide))).mono fun _ => Act.Minor.quiet, fun fr hfr => ?_⟩
    rw [List.mem_singleton.mp hfr]
    trivial

/-! ## Calls of the application -/

theorem usable_sub (h : w.Held none) (hs : w.usable s = true) : ∃ n, s = .sub n := by
  unfold usable at hs
  rw [Bool.and_eq_true] at hs
  cases s with
  | root f =>
    rw [(h.root f).strm] at hs
    cases hs.2
  | sub n => exact ⟨n, rfl⟩

/-- **A call of the application** other than `setPriority`. -/
theorem call_leads (h : w.Held none) {c : Call} {r : Peer × List Frame} (hr : w.call c = some r)
    (hne : ∀ s newpri, c ≠ .setPriority s newpri) : Leads Act.Quiet w r := by
  cases c with
  | connectTo request =>
    cases hr
    refine ⟨newStream_steps ⟨none, 0, .fresh, true, true, rfl⟩, fun fr hfr => ?_⟩
    simp only [List.mem_cons, List.not_mem_nil, or_false] at hfr
    obtain rfl | rfl := hfr
    · exact ⟨_, rfl⟩
    · trivial
  | openSubstream s =>
    simp only [call] at hr
    split_ifs at hr with hu
    cases hr
    refine (openSubstream_leads w s).append fun fr hfr => ?_
    rw [List.mem_singleton.mp hfr]
    exact ⟨_, rfl⟩
  | acceptSubstream s =>
    simp only [call] at hr
    split at hr
    · rename_i c rsubs hu hrsubs
      cases hr
      have hc : ∃ n, c = .sub n := h.rsubs s c (by rw [hrsubs]; exact List.mem_cons_self)
      have hmisc : Steps Act.Quiet w (w.modStream s fun b => { b with rsubs := rsubs }) := by
        have htail : w.modStream s (fun b => { b with rsubs := rsubs }) =
            w.modStream s fun b => { b with rsubs := b.rsubs.tail } := by
          unfold modStream
          beta_reduce
          rw [hrsubs]
          rfl
        rw [htail]
        exact .single (a := .misc s fun b => { b with rsubs := b.rsubs.tail }) trivial
          ⟨fun _ => rfl, fun b => List.tail_subset b.rsubs, fun _ hs => hs, fun _ ha => ha⟩
      exact .silent (hmisc.trans (.single (a := .bind c) trivial hc))
    · cases hr
  | acceptStream s =>
    simp only [call] at hr
    split_ifs at hr with hu
    cases hr
    refine .silent (.single (a := .bind s) trivial ?_)
    cases s with
    | root f =>
      simp only [Bool.and_eq_true, (h.root f).parent, Option.any_none, Bool.false_eq_true,
        and_false] at hu
    | sub n => exact ⟨n, rfl⟩
  | listen s mode =>
    simp only [call] at hr
    split_ifs at hr
    cases hr
    exact (Leads.silent (mark_steps w s fun b => { b with listenMode := mode })).quiet
  | setPriority s newpri => exact absurd rfl (hne s newpri)
  | writeData s data endflags =>
    simp only [call] at hr
    split_ifs at hr with hu
    cases hr
    rw [Bool.and_eq_true] at hu
    refine ⟨.refl, fun fr hfr => ?_⟩
    rw [List.mem_singleton.mp hfr]
    exact usable_sub h hu.1
  | writeDatagram s data reliable =>
    simp only [call] at hr
    split_ifs at hr with hu
    cases hr
    exact writeDatagram_leads (usable_sub h hu) data reliable
  | shutdown s reset write =>
    simp only [call] at hr
    split_ifs at hr with hu
    cases hr
    exact shutdown_leads (usable_sub h hu) reset write
  | close s =>
    simp only [call] at hr
    split_ifs at hr with hu
    cases hr
    refine .after ?_ (shutdown_leads (usable_sub h hu) false true)
    exact .single (a := .misc s fun b => { b with strm := false }) trivial
      ⟨fun _ => rfl, fun _ => List.Subset.refl _, fun _ hs => (nomatch hs), fun _ ha => ha⟩

/-! ## Events -/

theorem Good.no_streams (h : Good none none w) (hf : w.flow ≠ some f) :
    (w.flows f).tstreams = [] := by
  rw [List.eq_nil_iff_forall_not_mem]
  intro s hs
  obtain ⟨hq, i, sid, hl⟩ := (h.placed.queued f s).mp hs
  cases s with
  | root k =>
    change (w.streams (.root k)).tqflow = true at hq
    rw [(h.held.root k).tqflow] at hq
    cases hq
  | sub n =>
    obtain hx | hx := h.placed.primary n i f sid hl
    · exact hf hx
    · cases hx

theorem Good.inactive (h : Good none none w) (hf : (w.flows f).active = false) :
    w.flow ≠ some f := fun hx => by
  have := h.placed.active f hx
  change (w.flows f).active = true at this
  rw [hf] at this
  cases this

theorem Good.not_started (h : Good none none w) (hf : (w.flows f).started = false) :
    w.flow ≠ some f := fun hx => by
  have := (h.placed.started f (h.placed.active f hx)).2
  change (w.flows f).started = true at this
  rw [hf] at this
  cases this

theorem flowStarted_leads (h : Good none none w) (hf : (w.flows f).active = true) :
    Leads Act.Closing w (w.flowStarted f) := by
  unfold flowStarted
  split
  · exact .stay
  obtain ⟨h1, h2, h3, -, h4⟩ := clearPrimary_spec h
  have hclear : Steps Act.Closing w w.clearPrimary.1 := .single (a := .clearPrimary) trivial trivial
  refine ⟨hclear.trans ((Steps.single (a := .primary f) trivial ⟨h3, (h4 f).trans hf⟩).trans
    (.single (a := .signal _ 0 _) trivial trivial)), fun fr hfr => ?_⟩
  change fr ∈ w.clearPrimary.2 ++ _ at hfr
  rw [h1] at hfr
  simp only [List.nil_append, List.mem_cons, List.not_mem_nil, or_false] at hfr
  obtain rfl | rfl := hfr <;> trivial

theorem channel_steps (w : Peer) (f : ℕ) (g : StreamFlow → StreamFlow)
    (h : (g (w.flows f)).kept = (w.flows f).kept) (hs : (w.flows f).txseq ≤ (g (w.flows f)).txseq) :
    Steps Act.Closing w (w.modFlow f g) :=
  .single (a := .channel f g) trivial ⟨h, hs⟩

/-- `start` finds no stream in line, so that it transmits nothing. -/
theorem start_leads (h : Good none none w) (hf : f < w.nextFlow)
    (hs : (w.flows f).started = false) (initiator nocc : Bool) (tx rx : ℕ) :
    Leads Act.Closing w (w.start f initiator nocc tx rx) := by
  have hact : Steps Act.Closing w (w.activateFlow f nocc tx rx) :=
    .single (a := .activateFlow f nocc tx rx) trivial ⟨hf, hs⟩
  have hnone : ((w.activateFlow f nocc tx rx).flows f).tstreams = [] := by
    rw [activateFlow, modFlow_self]
    exact h.no_streams (h.not_started hs)
  have hready : (w.activateFlow f nocc tx rx).readyTransmit f true =
      (w.activateFlow f nocc tx rx, []) := by
    unfold readyTransmit
    rw [hnone]
  have hup : Steps Act.Closing (w.activateFlow f nocc tx rx)
      ((w.activateFlow f nocc tx rx).modFlow f fun x => { x with linkstat := .up }) :=
    channel_steps _ _ _ rfl le_rfl
  have hname : Steps Act.Closing
      ((w.activateFlow f nocc tx rx).modFlow f fun x => { x with linkstat := .up })
      (((w.activateFlow f nocc tx rx).modFlow f fun x => { x with linkstat := .up }).nameRoot f
        (if initiator then tx else rx)) := .single (a := .nameRoot f _) trivial trivial
  have hsteps := hact.trans (hup.trans hname)
  unfold start
  rw [hready]
  refine .after hsteps (flowStarted_leads (good_steps hsteps h) ?_)
  rw [nameRoot, modStream_flows, modFlow_self, activateFlow, modFlow_self]

theorem stop_leads (h : Good none none w) (hf : w.flow ≠ some f) :
    Leads Act.Closing w (w.stop f) := by
  refine ⟨.single (a := .stop f) trivial hf, fun fr hfr => ?_⟩
  rw [(stop_spec h hf).1] at hfr
  cases hfr

theorem linkDown_leads (h : Good none none w) (f : ℕ) : Leads Act.Closing w (w.linkDown f) := by
  have hfirst : ∃ w', Leads Act.Closing w (w', []) ∧ w'.flow ≠ some f ∧
      (if w.flow = some f then w.clearPrimary else (w, [])) = (w', []) := by
    by_cases hf : w.flow = some f
    · obtain ⟨h1, -, h3, -⟩ := clearPrimary_spec h
      refine ⟨w.clearPrimary.1, .silent (.single (a := .clearPrimary) trivial trivial), ?_, ?_⟩
      · rw [h3]
        exact fun hn => (nomatch hn)
      · rw [if_pos hf, ← h1]
    · exact ⟨w, .stay, hf, if_neg hf⟩
  obtain ⟨w', hsteps, hf, heq⟩ := hfirst
  unfold linkDown
  rw [heq]
  exact .after hsteps.steps (stop_leads (good_steps hsteps.steps h) hf)

theorem notify_leads (w : Peer) (f : ℕ) (status : LinkStatus) : Leads Act.Closing w
    (if w.flow = some f then w.primaryStatusChanged status else (w, [])) := by
  have happ : ∀ fr ∈ [Frame.app], fr.Sound := fun fr hfr => by
    rw [List.mem_singleton.mp hfr]
    trivial
  split
  · unfold primaryStatusChanged
    cases status with
    | up => exact .silent (.single (a := .signal _ 0 _) trivial trivial)
    | stalled =>
      refine ⟨.single (a := .signal _ (w.stallcount + 1) _) trivial trivial, fun fr hfr => ?_⟩
      dsimp only at hfr
      split_ifs at hfr
      · cases hfr
      · exact happ fr hfr
    | down => exact ⟨.refl, happ⟩
  · exact .stay

theorem setLinkStatus_leads (h : Good none none w) (f : ℕ) (status : LinkStatus) :
    Leads Act.Closing w (w.setLinkStatus f status) := by
  unfold setLinkStatus
  split
  · exact .stay
  have hstat : Steps Act.Closing w (w.modFlow f fun x => { x with linkstat := status }) :=
    channel_steps _ _ _ rfl le_rfl
  have hg := good_steps hstat h
  have hdown : Leads Act.Closing (w.modFlow f fun x => { x with linkstat := status })
      (if status = .down then (w.modFlow f fun x => { x with linkstat := status }).linkDown f
        else (w.modFlow f fun x => { x with linkstat := status }, [])) := by
    split_ifs
    · exact linkDown_leads hg f
    · exact .stay
  exact .after hstat (hdown.seq (notify_leads _ f status))

theorem deleteStream_leads (h : Good none none w) (hs : (w.streams s).live = true) :
    Leads Act.Closing w (w.deleteStream s) :=
  ⟨.single (a := .delete s) trivial hs, (deleteStream_spec h s).2.2⟩

theorem destroyFlow_leads (h : Good none none w) (hf : w.flow ≠ some f)
    (hl : (w.streams (.root f)).live = true) : Leads Act.Closing w (w.destroyFlow f) := by
  have hstop := stop_leads h hf
  have hlive := (stop_spec h hf).2.2.2
  unfold destroyFlow
  generalize w.stop f = r at hstop hlive ⊢
  have hdel := deleteStream_leads (good_steps hstop.steps h) ((hlive (.root f)).trans hl)
  obtain ⟨v, frames⟩ := r
  dsimp only at hdel ⊢
  generalize v.deleteStream (.root f) = d at hdel ⊢
  exact hstop.seq hdel

end Peer

/-! ## Steps -/

namespace Exec

/-- The flow whose `readyTransmit` comes next, and whether it asks `mayTransmit`. -/
def turn (x : Exec) (l : Label) : Option (ℕ × Bool) :=
  match l, x.stack with
  | .run, .readyTransmit f :: _ => if (x.peer.flows f).mayTransmit then some (f, false) else none
  | .event (.readyTransmit f forced), [] => some (f, forced)
  | .event (.start f ..), [] => some (f, true)
  | _, _ => none

/-- The stream that is chosen for transmission, and its flow. -/
def picks (x : Exec) (l : Label) : Option (ℕ × StrmId) :=
  (x.turn l).bind fun r => (x.peer.flows r.1).tstreams.head?.map fun s => (r.1, s)

end Exec

theorem Peer.Good.short_turn {w : Peer} {f : ℕ} {s : StrmId} {rest : List StrmId} {forced : Bool}
    (h : w.Good none none) (ht : w.Turn f forced) (hrest : (w.flows f).tstreams = s :: rest) :
    TakesShortTurn f s forced (w.apply (.pick f s rest)) (w.readyTransmit f forced) := by
  obtain ⟨hq, i, sid, hl⟩ := (h.placed.queued f s).mp (by
    change s ∈ (w.flows f).tstreams
    rw [hrest]
    exact List.mem_cons_self)
  have hcur : (w.streams s).tcuratt = some i := (h.placed.cur s i).mpr (by
    rw [hl]
    exact Option.some_ne_none _)
  obtain ⟨a, ha, heq⟩ := Option.map_eq_some_iff.mp
    (show ((w.streams s).tatt i).map (fun a => (a.flow, a.sid)) = some (f, sid) from hl)
  have hsub : ∃ n, s = .sub n := by
    cases s with
    | root k =>
      change (w.streams (.root k)).tqflow = true at hq
      rw [(h.held.root k).tqflow] at hq
      cases hq
    | sub n => exact ⟨n, rfl⟩
  exact Peer.readyTransmit_turn hrest hsub ⟨hcur, ha, congrArg Prod.fst heq⟩ ht
    fun p hp => (h.held.own s p hp).2

theorem Peer.Good.turn {w : Peer} {f : ℕ} {s : StrmId} {rest : List StrmId} {forced : Bool}
    (h : w.Good none none) (ht : w.Turn f forced) (hrest : (w.flows f).tstreams = s :: rest) :
    TakesTurn f s forced (w.apply (.pick f s rest)) (w.readyTransmit f forced) :=
  (h.short_turn ht hrest).turn

/-- The events that raise `readyTransmit`. -/
def Event.Ready : Event → Prop
  | .start .. | .readyTransmit .. => True
  | _ => False

theorem Exec.picks_event {x : Exec} {e : Event} (hx : x.stack = []) (he : ¬e.Ready) :
    x.picks (.event e) = none := by
  have hturn : x.turn (.event e) = none := by
    unfold turn
    rw [hx]
    cases e with
    | start | readyTransmit => exact absurd trivial he
    | _ => rfl
  unfold picks
  rw [hturn]
  rfl

/-- What a step does: it leaves every stream where it is in its queue, gives the first stream in
line a turn, sets a priority, or detaches streams. -/
inductive Moves (x : Exec) (l : Label) : Peer × List Frame → Prop
  | calm {r} (hp : x.picks l = none) (hl : ∀ s newpri, l ≠ .call (.setPriority s newpri))
      (h : Leads Act.Calm x.peer r) : Moves x l r
  | turn {r f s rest forced} (ht : x.turn l = some (f, forced))
      (hrest : (x.peer.flows f).tstreams = s :: rest)
      (h : TakesTurn f s forced (x.peer.apply (.pick f s rest)) r) : Moves x l r
  | priority {s newpri} (hl : l = .call (.setPriority s newpri)) :
      Moves x l (x.peer.setPriority s newpri, [])
  | closing {r} (hp : x.picks l = none) (hl : ∀ s newpri, l ≠ .call (.setPriority s newpri))
      (h : Leads Act.Closing x.peer r) : Moves x l r

/-- The invariants of a peer in the middle of a run. -/
structure Exec.Good (x : Exec) : Prop where
  peer : x.peer.Good none none
  stack : ∀ fr ∈ x.stack, fr.Sound

namespace Moves

variable {x : Exec} {l : Label} {f : ℕ} {forced : Bool}

theorem ready (h : x.Good) (ht : x.turn l = some (f, forced)) (hturn : x.peer.Turn f forced)
    (hl : ∀ s newpri, l ≠ .call (.setPriority s newpri)) :
    Moves x l (x.peer.readyTransmit f forced) := by
  cases hs : (x.peer.flows f).tstreams with
  | nil =>
    refine .calm ?_ hl ?_
    · unfold Exec.picks
      rw [ht]
      simp only [Option.bind_some, hs, List.head?_nil, Option.map_none]
    · unfold Peer.readyTransmit
      rw [hs]
      exact .stay
  | cons s rest => exact .turn ht hs (h.peer.turn hturn hs)

theorem of_event (h : x.Good) {e : Event} {r : Peer × List Frame} (hx : x.stack = [])
    (hr : x.peer.event e = some r) : Moves x (.event e) r := by
  have hl : ∀ s newpri, Label.event e ≠ .call (.setPriority s newpri) :=
    fun _ _ hn => (nomatch hn)
  have hpick (he : ¬e.Ready) : x.picks (.event e) = none := Exec.picks_event hx he
  cases e with
  | newFlow =>
    cases hr
    exact .calm (hpick id) hl
      (.silent (.single (a := .newFlow) trivial trivial))
  | start f initiator nocc tx rx =>
    simp only [Peer.event] at hr
    split_ifs at hr with hc
    cases hr
    simp only [Bool.and_eq_true, decide_eq_true_eq, Bool.not_eq_true'] at hc
    obtain ⟨⟨hf, hs⟩, -⟩ := hc
    refine .closing ?_ hl (Peer.start_leads h.peer hf hs ..)
    unfold Exec.picks Exec.turn
    rw [hx]
    simp only [Option.bind_some, h.peer.no_streams (h.peer.not_started hs), List.head?_nil,
      Option.map_none]
  | channel f cwnd txfltcnt sockMay txseq =>
    simp only [Peer.event] at hr
    split_ifs at hr with hc
    cases hr
    simp only [Bool.and_eq_true, decide_eq_true_eq] at hc
    exact .calm (hpick id) hl
      (.silent (.single (a := .channel f fun y => { y with
        cwnd := cwnd, txfltcnt := txfltcnt, sockMay := sockMay, txseq := txseq }) trivial
        ⟨rfl, hc.2⟩))
  | rehash f ackwait =>
    simp only [Peer.event] at hr
    split_ifs at hr with hc
    cases hr
    exact .calm (hpick id) hl
      (.silent (.single (a := .rehash f ackwait) trivial hc))
  | linkStatus f status =>
    simp only [Peer.event] at hr
    split_ifs at hr with hc
    cases hr
    exact .closing (hpick id) hl
      (Peer.setLinkStatus_leads h.peer f status)
  | destroyFlow f =>
    simp only [Peer.event] at hr
    split_ifs at hr with hc
    cases hr
    simp only [Bool.and_eq_true, decide_eq_true_eq] at hc
    exact .closing (hpick id) hl (Peer.destroyFlow_leads h.peer hc.2 hc.1)
  | deleteStream n =>
    simp only [Peer.event] at hr
    split_ifs at hr with hc
    cases hr
    exact .closing (hpick id) hl
      (Peer.deleteStream_leads h.peer hc)
  | acked f seq rxseq =>
    simp only [Peer.event] at hr
    split_ifs at hr
    cases hr
    exact .calm (hpick id) hl
      (Peer.acked_leads h.peer.held)
  | missed f seq =>
    simp only [Peer.event] at hr
    split_ifs at hr
    cases hr
    exact .calm (hpick id) hl
      (Peer.missed_leads h.peer.held).calm
  | expire f seq =>
    simp only [Peer.event] at hr
    split_ifs at hr
    cases hr
    exact .calm (hpick id) hl
      (.silent (.single (a := .drop f seq) trivial trivial))
  | readyTransmit f forced =>
    simp only [Peer.event] at hr
    split_ifs at hr with hc
    cases hr
    simp only [Bool.and_eq_true, Bool.or_eq_true] at hc
    refine .ready h ?_ hc.2 hl
    unfold Exec.turn
    rw [hx]
  | receive f rx =>
    simp only [Peer.event] at hr
    split_ifs at hr with hc
    cases hr
    exact .calm (hpick id) hl
      (Peer.receive_leads hc rx).calm

theorem of_call (h : x.Good) {c : Call} {r : Peer × List Frame} (hr : x.peer.call c = some r) :
    Moves x (.call c) r := by
  cases c with
  | setPriority s newpri =>
    simp only [Peer.call] at hr
    split_ifs at hr
    cases hr
    exact .priority rfl
  | _ =>
    refine .calm rfl (fun _ _ hn => ?_) (Peer.call_leads h.peer.held hr fun _ _ hn => ?_).calm
    · cases hn
    · cases hn

theorem of_run (h : x.Good) {fr : Frame} {stack : List Frame} (hx : x.stack = fr :: stack) :
    Moves x .run (x.peer.exec fr) := by
  have hl : ∀ s newpri, Label.run ≠ .call (.setPriority s newpri) := fun _ _ hn => (nomatch hn)
  have hsound : fr.Sound := h.stack fr (hx ▸ List.mem_cons_self)
  by_cases hready : ∃ f, fr = .readyTransmit f
  · obtain ⟨f, rfl⟩ := hready
    change Moves x .run (x.peer.prodFlow f)
    unfold Peer.prodFlow
    split
    · rename_i hmay
      refine .ready h ?_ (.inr hmay) hl
      unfold Exec.turn
      rw [hx]
      exact if_pos hmay
    · rename_i hmay
      refine .calm ?_ hl .stay
      unfold Exec.picks Exec.turn
      rw [hx]
      simp only [if_neg hmay, Option.bind_none]
  · have hne : ∀ f, fr ≠ .readyTransmit f := fun f hf => hready ⟨f, hf⟩
    refine .calm ?_ hl (Peer.exec_leads h.peer.held hsound hne).calm
    have hturn : x.turn .run = none := by
      unfold Exec.turn
      rw [hx]
      cases fr with
      | readyTransmit f => exact absurd rfl (hne f)
      | _ => rfl
    unfold Exec.picks
    rw [hturn]
    rfl

end Moves

namespace Exec

variable {x x' : Exec} {l : Label}

/-- **What a step does.** -/
theorem step_moves (h : x.Good) (hstep : x.step l = some x') :
    ∃ r stack, Moves x l r ∧ x' = ⟨r.1, r.2 ++ stack⟩ ∧ ∀ fr ∈ stack, fr ∈ x.stack := by
  unfold step at hstep
  split at hstep
  · cases hstep
  split at hstep
  · cases hstep
  · rename_i fr stack hne hx
    cases hstep
    exact ⟨_, stack, .of_run h hx, rfl, fun fr hfr => hx ▸ List.mem_cons_of_mem _ hfr⟩
  · rename_i stack hx
    cases hstep
    refine ⟨(x.peer, []), stack, .calm ?_ (fun _ _ hn => (nomatch hn)) .stay, rfl,
      fun fr hfr => hx ▸ List.mem_cons_of_mem _ hfr⟩
    unfold picks turn
    rw [hx]
    rfl
  · rename_i c
    split_ifs at hstep
    obtain ⟨r, hr, rfl⟩ := Option.map_eq_some_iff.mp hstep
    exact ⟨r, x.stack, .of_call h hr, rfl, fun _ hfr => hfr⟩
  · rename_i e hx
    obtain ⟨r, hr, rfl⟩ := Option.map_eq_some_iff.mp hstep
    exact ⟨r, [], .of_event h hx hr, rfl, fun _ hfr => (nomatch hfr)⟩
  · cases hstep

end Exec

/-! ## Runs -/

theorem Moves.good {x : Exec} {l : Label} {r : Peer × List Frame} (hm : Moves x l r)
    (h : x.Good) : r.1.Good none none ∧ ∀ fr ∈ r.2, fr.Sound := by
  cases hm with
  | calm _ _ hl => exact ⟨Peer.good_steps hl.steps h.peer, hl.frames⟩
  | @turn r f s rest forced ht hrest hturn =>
    obtain ⟨⟨w₁, w₂, h1, h2, h3⟩, hfr⟩ := hturn
    have hpick : (x.peer.apply (.pick f s rest)).Good none none := Peer.good_apply h.peer hrest
    have hg₁ := Peer.good_steps h1 hpick
    have hg₂ : w₂.Good none none := by
      obtain rfl | ⟨a, -, ha, rfl⟩ := h2
      · exact hg₁
      · exact Peer.good_apply hg₁ ha
    exact ⟨Peer.good_steps h3 hg₂, hfr⟩
  | @priority s newpri _ =>
    exact ⟨Peer.good_apply (a := .prioritize s newpri) h.peer trivial, fun _ hfr => (nomatch hfr)⟩
  | closing _ _ hl => exact ⟨Peer.good_steps hl.steps h.peer, hl.frames⟩

namespace Exec

theorem good_step {x x' : Exec} {l : Label} (h : x.Good) (hstep : x.step l = some x') :
    x'.Good := by
  obtain ⟨r, stack, hm, rfl, hsub⟩ := step_moves h hstep
  obtain ⟨h1, h2⟩ := hm.good h
  refine ⟨h1, fun fr hfr => ?_⟩
  exact (List.mem_append.mp hfr).elim (h2 fr) fun hfr => h.stack fr (hsub fr hfr)

/-- **The invariants** hold throughout every run. -/
theorem good_reach {C : Exec → Label → Prop} {x : Exec} (h : peerMachine.Reach C x) : x.Good := by
  refine h.invariant ⟨⟨Peer.placed_new, Peer.held_new⟩, fun fr hfr => (nomatch hfr)⟩ ?_
  exact fun s t i _ hs _ hst => good_step hs hst

end Exec

end Sst.Strm
