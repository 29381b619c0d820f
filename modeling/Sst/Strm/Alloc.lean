import Sst.Strm.Moves

/-!
# Allocation of stream ids

`tattach` looks for a stream id that is not in use, from the counter of the flow on.

* `StreamFlow.scanSid_isSome`, `StreamFlow.allocSid_isSome`: when the search succeeds.
* `Peer.Allocates`: `tattach` gets to the search.
* `Peer.AttachesFresh`: the stream is attached under a new stream id.
* `Worn`: a flow that has carried many streams.
* **`sid_allocation_iff`**: when a stream is attached, in every run.
* **`sid_allocation_exhausted`**: the search fails on a flow that has carried 65535 streams.
-/

namespace Sst.Strm

open Transition

/-! ## The search -/

namespace StreamFlow

variable {x : StreamFlow}

/-- The search for a free stream id behind `c`. -/
theorem scanSid_isSome (x : StreamFlow) (n c : ℕ) :
    (x.scanSid n c).isSome ↔ ∃ k, 1 ≤ k ∧ k ≤ n ∧ x.usesSid (c + k) = false := by
  induction n generalizing c with
  | zero =>
    refine iff_of_false (fun h => Bool.false_ne_true h) ?_
    rintro ⟨k, h1, h2, -⟩
    omega
  | succ n ih =>
    unfold scanSid
    split_ifs with hu
    · rw [ih]
      constructor
      · rintro ⟨k, h1, h2, h3⟩
        refine ⟨k + 1, by omega, by omega, ?_⟩
        rwa [Nat.add_comm k 1, ← Nat.add_assoc]
      · rintro ⟨k, h1, h2, h3⟩
        -- the next stream id is in use
        obtain ⟨j, rfl⟩ : ∃ j, k = j + 1 := ⟨k - 1, by omega⟩
        have hj : j ≠ 0 := by
          rintro rfl
          rw [Nat.zero_add, hu] at h3
          cases h3
        refine ⟨j, by omega, by omega, ?_⟩
        rwa [Nat.add_comm j 1, ← Nat.add_assoc] at h3
    · exact ⟨fun _ => ⟨1, le_rfl, by omega, Bool.eq_false_of_not_eq_true hu⟩, fun _ => rfl⟩

theorem scanSid_gt {n c ctr : ℕ} (h : x.scanSid n c = some ctr) : c < ctr := by
  induction n generalizing c with
  | zero => cases h
  | succ n ih =>
    unfold scanSid at h
    split_ifs at h
    · exact (Nat.lt_succ_self c).trans (ih h)
    · cases h
      exact Nat.lt_succ_self c

/-- How far the search looks behind the counter. -/
def budget (x : StreamFlow) : ℤ := Word.wrap 32 (0x7ff0 - (x.txctr - x.txackctr : ℤ))

/-- The stream id of the counter is free, or one behind it and within the budget. -/
def HasFreeSid (x : StreamFlow) : Prop :=
  x.usesSid x.txctr = false ∨
    ∃ k, 1 ≤ k ∧ k ≤ maxSidSkip ∧ (k : ℤ) ≤ x.budget ∧ x.usesSid (x.txctr + k) = false

/-- **The search succeeds** if it finds a free stream id within its budget. -/
theorem allocSid_isSome (x : StreamFlow) : x.allocSid.isSome ↔ x.HasFreeSid := by
  unfold allocSid HasFreeSid
  split_ifs with hu
  · rw [scanSid_isSome, hu, or_iff_right (by decide)]
    refine exists_congr fun k => and_congr_right fun h1 => ?_
    rw [← and_assoc]
    refine and_congr_left fun _ => ?_
    change k ≤ (min x.budget maxSidSkip).toNat ↔ _
    omega
  · exact ⟨fun _ => .inl (Bool.eq_false_of_not_eq_true hu), fun _ => rfl⟩

theorem usesSid_of_allocSid {ctr : ℕ} (h : x.allocSid = some ctr) : x.usesSid ctr = false := by
  rw [usesSid, Peer.allocSid_free h]
  rfl

theorem allocSid_ge {ctr : ℕ} (h : x.allocSid = some ctr) : x.txctr ≤ ctr := by
  unfold allocSid at h
  split_ifs at h
  · exact (scanSid_gt h).le
  · cases h
    exact le_rfl

end StreamFlow

namespace Peer

variable {w w' : Peer} {s t : StrmId} {f ctr : ℕ} {i : Fin 2}

/-! ## Attaching -/

/-- A stream has joined a flow: its slot, and the counter and the stream ids of the flow. -/
structure Joined (w w' : Peer) (s : StrmId) (f ctr : ℕ) (i : Fin 2) : Prop where
  fault : w'.fault = w.fault
  flow : w'.flow = w.flow
  nextStream : w'.nextStream = w.nextStream
  others : ∀ t ≠ s, w'.streams t = w.streams t
  slots : (w'.streams s).toSlots = { (w.streams s).toSlots with
    tatt := Function.update (w.streams s).tatt i (some ⟨f, ctr % 2 ^ 16, maxPacketSeq, false⟩)
    tcuratt := some i }
  rsubs : (w'.streams s).rsubs = (w.streams s).rsubs
  live : (w'.streams s).live = (w.streams s).live
  txctr : (w'.flows f).txctr = ctr + 1
  txackctr : (w'.flows f).txackctr = (w.flows f).txackctr
  txsids : (w'.flows f).txsids =
    AList.insert (β := fun _ => StrmId × Fin 2) (ctr % 2 ^ 16) (s, i) (w.flows f).txsids
  channel : (w'.flows f).toChannel = (w.flows f).toChannel
  ackwait : (w'.flows f).ackwait = (w.flows f).ackwait

theorem joined_joinFlow (w : Peer) (f : ℕ) (s : StrmId) (ctr : ℕ) (i : Fin 2) :
    Joined w (w.joinFlow f s ctr i) s f ctr i := by
  have hs : (w.joinFlow f s ctr i).streams s = { w.streams s with
      tatt := Function.update (w.streams s).tatt i (some ⟨f, ctr % 2 ^ 16, maxPacketSeq, false⟩)
      tcuratt := some i } := by
    unfold joinFlow setAttaching
    rw [modStream_self, modFlow_streams, modStream_self]
    rfl
  have ht : ∀ t ≠ s, (w.joinFlow f s ctr i).streams t = w.streams t := by
    intro t ht
    unfold joinFlow setAttaching
    rw [modStream_streams, if_neg ht, modFlow_streams, modStream_streams, if_neg ht]
    rfl
  have hf : (w.joinFlow f s ctr i).flows f = { w.flows f with
      txctr := ctr + 1
      txsids := (w.flows f).txsids.insert (ctr % 2 ^ 16) (s, i) } := by
    unfold joinFlow setAttaching
    rw [modStream_flows, modFlow_self, modStream_flows, modFlow_self]
  refine ⟨rfl, rfl, rfl, ht, ?_, ?_, ?_, ?_, ?_, ?_, ?_, ?_⟩ <;> first | rw [hs] | rw [hf]

variable {v : Peer}

theorem Joined.congr (h : Joined w w' s f ctr i) (hfault : v.fault = w'.fault)
    (hflow : v.flow = w'.flow) (hnext : v.nextStream = w'.nextStream)
    (ht : ∀ t ≠ s, v.streams t = w'.streams t)
    (hs : (v.streams s).toSlots = (w'.streams s).toSlots)
    (hrsubs : (v.streams s).rsubs = (w'.streams s).rsubs)
    (hlive : (v.streams s).live = (w'.streams s).live)
    (hf : ∃ q, v.flows f = { w'.flows f with tstreams := q }) : Joined w v s f ctr i := by
  obtain ⟨q, hq⟩ := hf
  refine ⟨hfault.trans h.fault, hflow.trans h.flow, hnext.trans h.nextStream,
    fun t hne => (ht t hne).trans (h.others t hne), hs.trans h.slots, hrsubs.trans h.rsubs,
    hlive.trans h.live, ?_, ?_, ?_, ?_, ?_⟩ <;> rw [hq]
  · exact h.txctr
  · exact h.txackctr
  · exact h.txsids
  · exact h.channel
  · exact h.ackwait

theorem Joined.takeName (h : Joined w w' s f ctr i) :
    Joined w (w'.takeName f s ctr) s f ctr i := by
  unfold Peer.takeName
  split_ifs
  · have hs : (w'.setUsid s ⟨ctr, (w'.flows f).txChannelId⟩).streams s =
        { w'.streams s with usid := some ⟨ctr, (w'.flows f).txChannelId⟩ } :=
      Function.update_self ..
    refine h.congr rfl rfl rfl (fun t ht => Function.update_of_ne ht ..) ?_ ?_ ?_ ⟨_, rfl⟩ <;>
      rw [hs]
  · exact h

theorem standInLine_self (w : Peer) (f : ℕ) (s : StrmId) : (w.standInLine f s).streams s =
    { w.streams s with stamp := w.clock, tqflow := true } := by
  unfold standInLine enqueueStream
  rw [modStream_self, modFlow_streams]
  exact congrArg (fun b : BaseStream => { b with tqflow := true })
    (modStream_self w s fun b => { b with stamp := w.clock })

theorem queueOn_cases (w : Peer) (f : ℕ) (s : StrmId) :
    (w.queueOn f s).1 = w ∨ (w.queueOn f s).1 = w.standInLine f s := by
  unfold queueOn
  dsimp only
  split_ifs
  · exact .inl rfl
  · exact .inl rfl
  · exact .inr rfl

theorem Joined.queueOn (h : Joined w w' s f ctr i) : Joined w (w'.queueOn f s).1 s f ctr i := by
  rcases w'.queueOn_cases f s with he | he <;> rw [he]
  · exact h
  · have ht : ∀ t ≠ s, (w'.standInLine f s).streams t = w'.streams t := by
      intro t ht
      unfold standInLine enqueueStream
      rw [modStream_streams, if_neg ht, modFlow_streams]
      exact Function.update_of_ne ht ..
    have hf : ∃ q, (w'.standInLine f s).flows f = { w'.flows f with tstreams := q } := by
      unfold standInLine enqueueStream
      rw [modStream_flows, modFlow_self]
      exact ⟨_, rfl⟩
    refine h.congr rfl rfl rfl ht ?_ ?_ ?_ hf <;> rw [standInLine_self]

theorem queueOn_usid (w : Peer) (f : ℕ) (s : StrmId) :
    ((w.queueOn f s).1.streams s).usid = (w.streams s).usid := by
  rcases w.queueOn_cases f s with he | he <;> rw [he]
  rw [standInLine_self]

/-- **The end of `tattach`**, with a free stream id and a free slot. -/
theorem attachTo_joined (hctr : (w.flows f).allocSid = some ctr)
    (hi : (w.streams s).freeSlot = some i) :
    Joined w (w.attachTo f s).1 s f ctr i ∧ ((w.streams s).usid = none →
      ((w.attachTo f s).1.streams s).usid = some ⟨ctr, (w.flows f).txChannelId⟩) := by
  have hjoin := joined_joinFlow w f s ctr i
  have hpeer : (w.attachTo f s).1 = (((w.joinFlow f s ctr i).takeName f s ctr).queueOn f s).1 := by
    unfold attachTo
    rw [hctr, hi]
  rw [hpeer]
  refine ⟨hjoin.takeName.queueOn, fun hu => ?_⟩
  have hnone : ((w.joinFlow f s ctr i).streams s).usid = none := by
    unfold joinFlow setAttaching
    rw [modStream_self, modFlow_streams, modStream_self]
    exact hu
  have hchan : ((w.joinFlow f s ctr i).flows f).txChannelId = (w.flows f).txChannelId :=
    congrArg Channel.txChannelId hjoin.channel
  rw [queueOn_usid, Peer.takeName, if_pos hnone, hchan, setUsid]
  dsimp only
  rw [modStream_self]

/-! ## Getting to the search -/

/-- **`tattach` gets to the search**: the stream is live, not attached and not disconnected, there
is a primary flow, and the parent of a new stream has a name. -/
structure Allocates (w : Peer) (s : StrmId) (f : ℕ) : Prop where
  idle : (w.streams s).tcuratt = none
  state : (w.streams s).state ≠ .disconnected
  live : (w.streams s).live = true
  flow : w.flow = some f
  parent : (w.streams s).init = true → (w.streams s).pusid = none →
    ∃ p, (w.streams p).usid ≠ none ∧ (w.parentOf s = some p ∨
      w.parentOf s = none ∧ (w.streams s).toplev = true ∧ p = .root f)

/-- The stream is attached under a stream id that was free, the low 16 bits of the counter in its
name, and the counter has grown. -/
def AttachesFresh (w w' : Peer) (s : StrmId) (f : ℕ) : Prop :=
  w'.fault = w.fault ∧ ∃ ctr i, (w.flows f).usesSid ctr = false ∧
    (w'.streams s).tcuratt = some i ∧
    (w'.streams s).tatt i = some ⟨f, ctr % 2 ^ 16, maxPacketSeq, false⟩ ∧
    ((w.streams s).usid = none →
      (w'.streams s).usid = some ⟨ctr, (w.flows f).txChannelId⟩) ∧
    (w.flows f).txctr < (w'.flows f).txctr

theorem attachUnder_eq {p : StrmId} (hp : (w.streams p).usid ≠ none) :
    ∃ u, w.attachUnder f s p =
      (w.modStream s fun b => { b with pusid := some u }).attachTo f s := by
  unfold attachUnder
  split
  · rename_i hu
    exact absurd hu hp
  · exact ⟨_, rfl⟩

/-- The stream has learnt who its parent is. -/
structure Informed (w v : Peer) (s : StrmId) : Prop where
  flows : v.flows = w.flows
  fault : v.fault = w.fault
  flow : v.flow = w.flow
  nextStream : v.nextStream = w.nextStream
  others : ∀ t ≠ s, v.streams t = w.streams t
  slots : (v.streams s).toSlots = (w.streams s).toSlots
  tqueue : (v.streams s).tqueue = (w.streams s).tqueue
  usid : (v.streams s).usid = (w.streams s).usid
  rsubs : (v.streams s).rsubs = (w.streams s).rsubs
  live : (v.streams s).live = (w.streams s).live

theorem Informed.refl (w : Peer) (s : StrmId) : Informed w w s :=
  ⟨rfl, rfl, rfl, rfl, fun _ _ => rfl, rfl, rfl, rfl, rfl, rfl⟩

theorem Informed.modStream {v : Peer} (h : Informed w v s) {g : BaseStream → BaseStream}
    (hslots : (g (v.streams s)).toSlots = (v.streams s).toSlots)
    (hqueue : (g (v.streams s)).tqueue = (v.streams s).tqueue)
    (husid : (g (v.streams s)).usid = (v.streams s).usid)
    (hrsubs : (g (v.streams s)).rsubs = (v.streams s).rsubs)
    (hlive : (g (v.streams s)).live = (v.streams s).live) : Informed w (v.modStream s g) s := by
  refine ⟨h.flows, h.fault, h.flow, h.nextStream, fun t ht => ?_, ?_, ?_, ?_, ?_, ?_⟩
  · rw [modStream_streams, if_neg ht]
    exact h.others t ht
  · rw [modStream_self, hslots]
    exact h.slots
  · rw [modStream_self, hqueue]
    exact h.tqueue
  · rw [modStream_self, husid]
    exact h.usid
  · rw [modStream_self, hrsubs]
    exact h.rsubs
  · rw [modStream_self, hlive]
    exact h.live

/-- **`tattach` ends in `attachTo`.** -/
theorem tattach_eq (h : w.Allocates s f) :
    ∃ v : Peer, w.tattach s = v.attachTo f s ∧ Informed w v s := by
  have hgo : ((w.streams s).tcuratt.isSome || decide ((w.streams s).state = .disconnected) ||
      !(w.streams s).live) = false := by
    rw [h.idle, h.live, decide_eq_false h.state]
    rfl
  unfold tattach
  dsimp only
  rw [hgo, if_neg Bool.false_ne_true, h.flow]
  dsimp only
  split_ifs with hinit
  · obtain ⟨hi, hpu⟩ := (Bool.and_eq_true ..).mp hinit
    obtain ⟨p, hp, hpar | ⟨hpar, htop, rfl⟩⟩ := h.parent hi (Option.isNone_iff_eq_none.1 hpu)
    · rw [hpar]
      dsimp only
      obtain ⟨u, hu⟩ := attachUnder_eq (f := f) (s := s) hp
      rw [hu]
      exact ⟨_, rfl, (Informed.refl w s).modStream rfl rfl rfl rfl rfl⟩
    · rw [hpar, htop]
      dsimp only
      set v := w.modStream s fun b => { b with parent := some (.root f) } with hv
      have hvi : Informed w v s := (Informed.refl w s).modStream rfl rfl rfl rfl rfl
      have hvp : (v.streams (.root f)).usid ≠ none := by
        rcases eq_or_ne s (.root f) with rfl | hne
        · rw [hvi.usid]
          exact hp
        · rw [hvi.others _ hne.symm]
          exact hp
      obtain ⟨u, hu⟩ := attachUnder_eq (f := f) (s := s) hvp
      rw [hu]
      exact ⟨_, rfl, hvi.modStream rfl rfl rfl rfl rfl⟩
  · exact ⟨w, rfl, .refl w s⟩

end Peer

/-! ## A flow that has carried many streams -/

namespace Peer

variable {w : Peer} {s : StrmId} {f ctr : ℕ} {a : TxAttachment} {i : Fin 2}

theorem clearTx_unused (h : (w.streams s).tatt i = none) : w.clearTx s i = (w, []) := by
  rw [clearTx, h]

theorem clearRx_unused (h : (w.streams s).ratt i = none) : w.clearRx s i = w := by
  rw [clearRx, h]

theorem clearTx_quiet (h : (w.streams s).tatt i = some a) (hack : (w.flows a.flow).ackwait = ∅) :
    w.clearTx s i = (w.releaseTx s i a, []) := by
  have hkeys : ((w.releaseTx s i a).flows a.flow).ackwait.keys = [] := by
    unfold releaseTx dequeueStream
    rw [modFlow_self, modFlow_self, modStream_flows]
    dsimp only
    rw [hack]
    rfl
  rw [clearTx, h]
  dsimp only
  rw [hkeys, reclaim]

theorem deleteStream_quiet (h0 : (w.streams s).tatt 0 = some a) (h1 : (w.streams s).tatt 1 = none)
    (hr : ∀ i, (w.streams s).ratt i = none) (hsubs : (w.streams s).rsubs = [])
    (hack : (w.flows a.flow).ackwait = ∅) :
    ∃ v : Peer, w.deleteStream s = ((v.releaseTx s 0 a).modStream s fun b =>
        { b with rsubs := [], listeners := [] }, []) ∧
      v.flows = w.flows ∧ v.fault = w.fault ∧ v.flow = w.flow ∧ v.nextStream = w.nextStream ∧
      ∀ t ≠ s, v.streams t = w.streams t := by
  set v : Peer := { w.modStream s fun b =>
      { b with state := .disconnected, endwrite := true, live := false } with
    usids := fun u => if w.usids u = some s ∧ (w.streams s).usid = some u then none else w.usids u
    waiters := w.waiters.filter (· ≠ s) } with hv
  have hvs : v.streams s =
      { w.streams s with state := .disconnected, endwrite := true, live := false } :=
    Function.update_self ..
  have hs : (v.releaseTx s 0 a).streams s = { v.streams s with
      tcuratt := if (v.streams s).tcuratt = some 0 then none else (v.streams s).tcuratt
      tatt := Function.update (v.streams s).tatt 0 none
      tqflow := false } := by
    unfold releaseTx dequeueStream
    rw [modFlow_streams, modFlow_streams, modStream_self]
  refine ⟨v, ?_, rfl, rfl, rfl, rfl, fun t ht => Function.update_of_ne ht ..⟩
  have hc0 : v.clearTx s 0 = (v.releaseTx s 0 a, []) :=
    clearTx_quiet (by rw [hvs]; exact h0) hack
  have hr0 : ∀ i, (v.releaseTx s 0 a).clearRx s i = v.releaseTx s 0 a := by
    intro i
    refine clearRx_unused ?_
    rw [hs, hvs]
    exact hr i
  have hc1 : (v.releaseTx s 0 a).clearTx s 1 = (v.releaseTx s 0 a, []) := by
    refine clearTx_unused ?_
    rw [hs, hvs]
    exact h1
  have hunfold : w.deleteStream s =
      ((((((v.clearTx s 0).1.clearRx s 0).clearTx s 1).1.clearRx s 1).resetAll
          (w.streams s).rsubs).1.modStream s fun b => { b with rsubs := [], listeners := [] },
        (v.clearTx s 0).2 ++ (((v.clearTx s 0).1.clearRx s 0).clearTx s 1).2 ++
          (((((v.clearTx s 0).1.clearRx s 0).clearTx s 1).1.clearRx s 1).resetAll
            (w.streams s).rsubs).2) := rfl
  rw [hunfold, hc0]
  dsimp only
  rw [hr0, hc1]
  dsimp only
  rw [hr0, hsubs]
  rfl

theorem queueOn_frames (hq : (w.streams s).tqueue ≠ []) (f : ℕ) : (w.queueOn f s).2 = [] := by
  unfold queueOn
  dsimp only
  split_ifs
  · rfl
  · rfl

theorem attachTo_frames (hctr : (w.flows f).allocSid = some ctr)
    (hi : (w.streams s).freeSlot = some i) (hq : (w.streams s).tqueue ≠ []) :
    (w.attachTo f s).2 = [.readyTransmit f] := by
  have hqueue : (((w.joinFlow f s ctr i).takeName f s ctr).streams s).tqueue =
      (w.streams s).tqueue := by
    have hjoin : ((w.joinFlow f s ctr i).streams s).tqueue = (w.streams s).tqueue := by
      unfold joinFlow setAttaching
      rw [modStream_self, modFlow_streams, modStream_self]
      rfl
    unfold takeName
    split_ifs
    · rw [← hjoin, setUsid]
      dsimp only
      rw [modStream_self]
    · exact hjoin
  unfold attachTo
  rw [hctr, hi]
  dsimp only
  rw [queueOn_frames (hqueue ▸ hq)]
  rfl

/-- A new stream of the application, and its service request. -/
def opened (w : Peer) : Peer :=
  let s := StrmId.sub w.nextStream
  let w := w.newStream { BaseStream.new none 0 .fresh with toplev := true, strm := true }
  let p := w.nextSegment s [] messageFlag
  (w.recordSegment s p).modStream s (·.insertPacket p)

end Peer

/-- The flow 0 has carried `n` streams, all of which are gone, and nothing was sent on it. -/
structure Worn (w : Peer) (n : ℕ) : Prop where
  fault : w.fault = false
  flow : w.flow = some 0
  nextStream : w.nextStream = n
  txctr : (w.flows 0).txctr = n + 1
  txackctr : (w.flows 0).txackctr = 0
  sids : ∀ sid, ((w.flows 0).txsids.lookup sid).isSome = decide (sid = 0)
  nocc : (w.flows 0).nocc = true
  sockMay : (w.flows 0).sockMay = false
  ackwait : (w.flows 0).ackwait = ∅
  root : (w.streams (.root 0)).usid ≠ none

namespace Worn

variable {w : Peer} {n : ℕ}

theorem usesSid (h : Worn w n) (ctr : ℕ) : (w.flows 0).usesSid ctr = decide (ctr % 2 ^ 16 = 0) :=
  h.sids _

end Worn

namespace Peer

variable (w : Peer)

/-- A stream that was just opened. -/
structure JustOpened (b : BaseStream) : Prop where
  slots : b.toSlots = ⟨fun _ => none, fun _ => none, none⟩
  tqueue : b.tqueue ≠ []
  state : b.state = .fresh
  live : b.live = true
  usid : b.usid = none
  parent : b.parent = none
  toplev : b.toplev = true
  rsubs : b.rsubs = []

theorem opened_self : JustOpened (w.opened.streams (.sub w.nextStream)) := by
  unfold opened recordSegment newStream
  dsimp only
  rw [modStream_self, modStream_self]
  dsimp only
  rw [Function.update_self]
  exact ⟨rfl, List.append_ne_nil_of_right_ne_nil _ (List.cons_ne_nil _ _), rfl, rfl, rfl, rfl, rfl,
    rfl⟩

theorem newStream_others {b : BaseStream} {t : StrmId} (ht : t ≠ .sub w.nextStream) :
    (w.newStream b).streams t = w.streams t := by
  unfold newStream
  exact Function.update_of_ne ht ..

theorem opened_others {t : StrmId} (ht : t ≠ .sub w.nextStream) :
    w.opened.streams t = w.streams t := by
  unfold opened recordSegment
  dsimp only
  rw [modStream_streams, if_neg ht, modStream_streams, if_neg ht, newStream_others w ht]

end Peer

theorem Exec.step_run {w : Peer} {fr : Frame} {stack : List Frame} (hf : w.fault = false)
    (ha : fr ≠ .app) : (⟨w, fr :: stack⟩ : Exec).step .run = some (.resume (w.exec fr) stack) := by
  unfold Exec.step
  rw [hf, if_neg Bool.false_ne_true]
  cases fr with
  | app => exact absurd rfl ha
  | _ => rfl

namespace Worn

variable {w : Peer} {n : ℕ}

theorem allocates (h : Worn w n) : w.opened.Allocates (.sub n) 0 := by
  have ho := w.opened_self
  rw [h.nextStream] at ho
  have hpar : w.opened.parentOf (.sub n) = none := by
    rw [Peer.parentOf, ho.parent]
    rfl
  refine ⟨by rw [ho.slots], ?_, ho.live, h.flow,
    fun _ _ => ⟨.root 0, ?_, .inr ⟨hpar, ho.toplev, rfl⟩⟩⟩
  · rw [ho.state]
    decide
  · rw [w.opened_others (StrmId.noConfusion · : StrmId.root 0 ≠ .sub w.nextStream)]
    exact h.root

theorem allocSid (h : Worn w n) (hn : n + 1 < 2 ^ 16) : (w.flows 0).allocSid = some (n + 1) := by
  have hfree : (w.flows 0).usesSid (n + 1) = false := by
    rw [h.usesSid, Nat.mod_eq_of_lt hn]
    rfl
  rw [StreamFlow.allocSid, h.txctr, hfree]
  rfl

/-- **A stream is opened**: its request is written, the flow may not transmit, and it waits. -/
theorem opens (h : Worn w n) (hn : n + 1 < 2 ^ 16) : ∃ v u : Peer,
    peerMachine.run ⟨w, []⟩ [.call (.connectTo []), .run, .run, .run] =
      some ⟨u.modStream (.sub n) fun b => { b with state := .waitService }, []⟩ ∧
    Peer.Informed w.opened v (.sub n) ∧ Peer.Joined v u (.sub n) 0 (n + 1) 0 := by
  have ho := w.opened_self
  rw [h.nextStream] at ho
  obtain ⟨v, hv, hi⟩ := Peer.tattach_eq h.allocates
  have hctr : (v.flows 0).allocSid = some (n + 1) := by
    rw [hi.flows]
    exact h.allocSid hn
  have hslot : (v.streams (.sub n)).freeSlot = some 0 := by
    rw [BaseStream.freeSlot, hi.slots, ho.slots]
    rfl
  have hqueue : (v.streams (.sub n)).tqueue ≠ [] := by
    rw [hi.tqueue]
    exact ho.tqueue
  obtain ⟨hj, -⟩ := Peer.attachTo_joined hctr hslot
  have hframes := Peer.attachTo_frames hctr hslot hqueue
  set u := (v.attachTo 0 (.sub n)).1 with hu
  have hfault : u.fault = false := hj.fault.trans (hi.fault.trans h.fault)
  -- the request is written
  have hwrite : w.opened.txenqflow (.sub n) true = (u, [.readyTransmit 0]) := by
    rw [Peer.txenqflow, BaseStream.curatt, ho.slots]
    change w.opened.tattach (.sub n) = _
    rw [hv, ← hframes]
  -- the flow may not transmit
  have hprod : u.prodFlow 0 = (u, []) := by
    have hmay : (u.flows 0).mayTransmit = false := by
      have hnocc : (u.flows 0).nocc = true := by
        rw [hj.channel, hi.flows]
        exact h.nocc
      have hsock : (u.flows 0).sockMay = false := by
        rw [hj.channel, hi.flows]
        exact h.sockMay
      rw [StreamFlow.mayTransmit, hnocc, hsock]
      rfl
    rw [Peer.prodFlow, hmay]
    rfl
  -- it is attached
  have hwait : (u.modStream (.sub n) fun b => { b with state := .waitService }).tattach (.sub n) =
      (u.modStream (.sub n) fun b => { b with state := .waitService }, []) := by
    have hcur : (u.streams (.sub n)).tcuratt = some 0 := by rw [hj.slots]
    rw [Peer.tattach, Peer.modStream_self, hcur]
    rfl
  refine ⟨v, u, ?_, hi, hj⟩
  obtain rfl := h.nextStream
  set w₁ := w.newStream { BaseStream.new none 0 .fresh with toplev := true, strm := true }
  have h1 : (⟨w, []⟩ : Exec).step (.call (.connectTo [])) =
      some ⟨w₁, [.writeData (.sub w.nextStream) [] messageFlag,
        .waitService (.sub w.nextStream)]⟩ := by
    unfold Exec.step
    rw [h.fault]
    rfl
  have h2 : (⟨w₁, [.writeData (.sub w.nextStream) [] messageFlag,
      .waitService (.sub w.nextStream)]⟩ : Exec).step .run =
      some ⟨u, [.readyTransmit 0, .waitService (.sub w.nextStream)]⟩ := by
    have hexec : w₁.exec (.writeData (.sub w.nextStream) [] messageFlag) =
        (u, [.readyTransmit 0]) := by
      change ((w.opened.txenqflow (.sub w.nextStream) true).1,
        (w.opened.txenqflow (.sub w.nextStream) true).2 ++ []) = _
      rw [hwrite]
      rfl
    refine (Exec.step_run (w := w₁) h.fault (by rintro ⟨⟩)).trans ?_
    rw [hexec]
    rfl
  have h3 : (⟨u, [.readyTransmit 0, .waitService (.sub w.nextStream)]⟩ : Exec).step .run =
      some ⟨u, [.waitService (.sub w.nextStream)]⟩ := by
    refine (Exec.step_run hfault (by rintro ⟨⟩)).trans ?_
    rw [Peer.exec, hprod]
    rfl
  have h4 : (⟨u, [.waitService (.sub w.nextStream)]⟩ : Exec).step .run =
      some ⟨u.modStream (.sub w.nextStream) fun b => { b with state := .waitService }, []⟩ := by
    refine (Exec.step_run hfault (by rintro ⟨⟩)).trans ?_
    rw [Peer.exec, hwait]
    rfl
  have hsteps : ∀ (y : Exec) l, peerMachine.step y l = y.step l := fun _ _ => rfl
  simp only [Machine.run, hsteps, h1, h2, h3, h4, Option.bind_some]

/-- **The stream is deleted**, and its stream id is free again. -/
theorem next (h : Worn w n) (hn : n + 1 < 2 ^ 16) : ∃ w' : Peer,
    peerMachine.run ⟨w, []⟩ [.call (.connectTo []), .run, .run, .run, .event (.deleteStream n)] =
      some ⟨w', []⟩ ∧ Worn w' (n + 1) := by
  obtain ⟨v, u, hrun, hi, hj⟩ := h.opens hn
  have ho := w.opened_self
  rw [h.nextStream] at ho
  set w₃ := u.modStream (.sub n) fun b => { b with state := .waitService }
  have hs : w₃.streams (.sub n) = { u.streams (.sub n) with state := .waitService } :=
    Function.update_self ..
  have hslots : (w₃.streams (.sub n)).toSlots = ⟨Function.update (fun _ => none) 0
      (some ⟨0, (n + 1) % 2 ^ 16, maxPacketSeq, false⟩), fun _ => none, some 0⟩ := by
    rw [hs, hj.slots, hi.slots, ho.slots]
  have hrsubs : (w₃.streams (.sub n)).rsubs = [] := by
    rw [hs]
    exact hj.rsubs.trans (hi.rsubs.trans ho.rsubs)
  have hlive : (w₃.streams (.sub n)).live = true := by
    rw [hs]
    exact hj.live.trans (hi.live.trans ho.live)
  have hflows : v.flows = w.flows := hi.flows
  have hack : (w₃.flows 0).ackwait = ∅ := by
    refine hj.ackwait.trans ?_
    rw [hflows]
    exact h.ackwait
  have hfault : w₃.fault = false := hj.fault.trans (hi.fault.trans h.fault)
  obtain ⟨z, hz, hzflows, hzfault, hzflow, hznext, hzothers⟩ :=
    Peer.deleteStream_quiet (a := ⟨0, (n + 1) % 2 ^ 16, maxPacketSeq, false⟩)
      (by rw [hslots]; rfl) (by rw [hslots]; rfl) (fun i => by rw [hslots]) hrsubs hack
  have hdel : (⟨w₃, []⟩ : Exec).step (.event (.deleteStream n)) =
      some ⟨(w₃.deleteStream (.sub n)).1, (w₃.deleteStream (.sub n)).2 ++ []⟩ := by
    unfold Exec.step
    rw [hfault, if_neg Bool.false_ne_true]
    change Option.map _ (if (w₃.streams (.sub n)).live then _ else _) = _
    rw [if_pos hlive]
    rfl
  rw [hz] at hdel
  refine ⟨_, Machine.run_concat_of hrun hdel, ?_⟩
  -- the flow is as before, but for its counter
  have hflow : (z.releaseTx (.sub n) 0 ⟨0, (n + 1) % 2 ^ 16, maxPacketSeq, false⟩).flows 0 =
      { u.flows 0 with
        txsids := (u.flows 0).txsids.erase ((n + 1) % 2 ^ 16)
        tstreams := (u.flows 0).tstreams.filter (· ≠ .sub n) } := by
    unfold Peer.releaseTx Peer.dequeueStream
    rw [Peer.modFlow_self, Peer.modFlow_self, Peer.modStream_flows, hzflows]
    rfl
  have hroot : (z.releaseTx (.sub n) 0 ⟨0, (n + 1) % 2 ^ 16, maxPacketSeq, false⟩).streams
      (.root 0) = w.streams (.root 0) := by
    have hne : StrmId.root 0 ≠ .sub n := by rintro ⟨⟩
    have hne' : StrmId.root 0 ≠ .sub w.nextStream := by rintro ⟨⟩
    unfold Peer.releaseTx Peer.dequeueStream
    rw [Peer.modFlow_streams, Peer.modFlow_streams, Peer.modStream_streams, if_neg hne,
      hzothers _ hne, Peer.modStream_streams, if_neg hne, hj.others _ hne, hi.others _ hne,
      w.opened_others hne']
  refine ⟨hzfault.trans hfault, ?_, ?_, ?_, ?_, fun sid => ?_, ?_, ?_, ?_, ?_⟩
  · exact hzflow.trans (hj.flow.trans (hi.flow.trans h.flow))
  · exact hznext.trans (hj.nextStream.trans (hi.nextStream.trans (congrArg (· + 1) h.nextStream)))
  · rw [Peer.modStream_flows, hflow]
    exact hj.txctr
  · rw [Peer.modStream_flows, hflow]
    refine hj.txackctr.trans ?_
    rw [hflows]
    exact h.txackctr
  · rw [Peer.modStream_flows, hflow]
    dsimp only
    rw [hj.txsids, hflows]
    rcases eq_or_ne sid ((n + 1) % 2 ^ 16) with rfl | hne
    · rw [AList.lookup_erase, Nat.mod_eq_of_lt hn]
      rfl
    · rw [AList.lookup_erase_ne hne, AList.lookup_insert_ne hne]
      exact h.sids sid
  · rw [Peer.modStream_flows, hflow]
    dsimp only
    rw [hj.channel, hflows]
    exact h.nocc
  · rw [Peer.modStream_flows, hflow]
    dsimp only
    rw [hj.channel, hflows]
    exact h.sockMay
  · rw [Peer.modStream_flows, hflow]
    refine hj.ackwait.trans ?_
    rw [hflows]
    exact h.ackwait
  · have hne : StrmId.root 0 ≠ .sub n := by rintro ⟨⟩
    rw [Peer.modStream_streams, if_neg hne, hroot]
    exact h.root

/-- **Many streams come and go.** -/
theorem reach {n : ℕ} (hn : n < 2 ^ 16) :
    ∃ w : Peer, peerMachine.Reach Machine.always ⟨w, []⟩ ∧ Worn w n := by
  induction n with
  | zero =>
    have hrun : ∃ w : Peer, peerMachine.run peerMachine.init
        [.event .newFlow, .event (.start 0 true true 5 6), .run, .back] = some ⟨w, []⟩ ∧
        Worn w 0 := by
      refine ⟨_, rfl, rfl, rfl, rfl, rfl, rfl, fun sid => ?_, rfl, rfl, rfl, ?_⟩
      · change (List.dlookup sid [(⟨0, (.root 0, 0)⟩ : Σ _ : ℕ, StrmId × Fin 2)]).isSome = _
        rcases eq_or_ne sid 0 with rfl | hne
        · rfl
        · rw [List.dlookup_cons_ne _ _ hne, decide_eq_false hne]
          rfl
      · exact Option.some_ne_none _
    obtain ⟨w, hw, h⟩ := hrun
    exact ⟨w, Machine.reach_of_run hw, h⟩
  | succ n ih =>
    obtain ⟨w, hw, h⟩ := ih (Nat.lt_of_succ_lt hn)
    obtain ⟨w', hrun, h'⟩ := h.next hn
    exact ⟨w', hw.extend (fun _ _ _ => trivial) hrun, h'⟩

/-- **One more stream** is about to be attached. -/
theorem connects {n : ℕ} (hn : n < 2 ^ 16) : ∃ (x : Exec) (s : StrmId) (w : Peer),
    peerMachine.Reach Machine.always x ∧ x.peer.Allocates s 0 ∧ Worn w n ∧
      x.peer.flows = w.flows ∧ x.peer.fault = false := by
  obtain ⟨w, hw, h⟩ := reach hn
  set x : Exec := ⟨w.newStream { BaseStream.new none 0 .fresh with toplev := true, strm := true },
    [.writeData (.sub w.nextStream) [] messageFlag, .waitService (.sub w.nextStream)]⟩ with hx
  have hstep : (⟨w, []⟩ : Exec).step (.call (.connectTo [])) = some x := by
    unfold Exec.step
    rw [h.fault]
    rfl
  have hself : x.peer.streams (.sub w.nextStream) =
      { BaseStream.new none 0 .fresh with toplev := true, strm := true } :=
    Function.update_self ..
  have hne : StrmId.root 0 ≠ .sub w.nextStream := by rintro ⟨⟩
  have hroot : x.peer.streams (.root 0) = w.streams (.root 0) := w.newStream_others hne
  have hs : x.peer.Allocates (.sub w.nextStream) 0 := by
    have hpar : x.peer.parentOf (.sub w.nextStream) = none := by
      rw [Peer.parentOf, hself]
      rfl
    refine ⟨by rw [hself]; rfl, ?_, by rw [hself]; rfl, h.flow,
      fun _ _ => ⟨.root 0, ?_, .inr ⟨hpar, by rw [hself], rfl⟩⟩⟩
    · rw [hself]
      exact StreamState.noConfusion
    · rw [hroot]
      exact h.root
  exact ⟨x, _, w, hw.step (i := .call (.connectTo [])) trivial hstep, hs, h, rfl, h.fault⟩

/-- A flow that has carried 65535 streams has no stream id within the budget of the search. -/
theorem exhausted {w : Peer} (h : Worn w 65535) : ¬(w.flows 0).HasFreeSid := by
  rintro (hu | ⟨k, h1, -, h3, -⟩)
  · rw [h.usesSid, h.txctr] at hu
    exact absurd hu (by decide)
  · have hb : (w.flows 0).budget = -32784 := by
      rw [StreamFlow.budget, h.txctr, h.txackctr]
      decide +kernel
    omega

end Worn

/-! ## The last stream id -/

/-- **Allocation of stream ids.** In every run, a stream for which `tattach` gets to the search is
attached under a new stream id exactly if the search finds one within its budget. -/
theorem sid_allocation_iff {x : Exec} (h : peerMachine.Reach Machine.always x) {s : StrmId} {f : ℕ}
    (hs : x.peer.Allocates s f) :
    x.peer.AttachesFresh (x.peer.tattach s).1 s f ↔ (x.peer.flows f).HasFreeSid := by
  obtain ⟨v, hv, hi⟩ := Peer.tattach_eq hs
  have hfree : ∀ i, (x.peer.streams s).tatt i = none := by
    intro i
    by_contra hne
    have hlink : x.peer.layout.link s i ≠ none := by
      change ((x.peer.streams s).tatt i).map _ ≠ none
      rwa [ne_eq, Option.map_eq_none_iff]
    have hcur : (x.peer.streams s).tcuratt = some i :=
      ((Exec.good_reach h).peer.placed.cur s i).2 hlink
    rw [hs.idle] at hcur
    cases hcur
  have hslot : (v.streams s).freeSlot = some 0 := by
    rw [BaseStream.freeSlot, hi.slots, if_pos (hfree 0)]
  rw [hv, ← StreamFlow.allocSid_isSome]
  constructor
  · rintro ⟨-, ctr, i, -, hcur, -⟩
    by_contra hnone
    rw [Option.not_isSome_iff_eq_none, ← hi.flows] at hnone
    have hsame : ((v.attachTo f s).1.streams s).tcuratt = none := by
      unfold Peer.attachTo
      rw [hnone]
      dsimp only
      rw [hi.slots]
      exact hs.idle
    rw [hsame] at hcur
    cases hcur
  · intro hctr
    obtain ⟨ctr, hctr⟩ := Option.isSome_iff_exists.1 hctr
    have hge := StreamFlow.allocSid_ge hctr
    have hunused := StreamFlow.usesSid_of_allocSid hctr
    rw [← hi.flows] at hctr
    obtain ⟨hj, hu⟩ := Peer.attachTo_joined hctr hslot
    refine ⟨hj.fault.trans hi.fault, ctr, 0, hunused, ?_, ?_, fun hnone => ?_, ?_⟩
    · rw [hj.slots]
    · rw [hj.slots]
      dsimp only
      rw [Function.update_self]
    · rw [hu (hi.usid.trans hnone), hi.flows]
    · rw [hj.txctr]
      exact Nat.lt_succ_of_le hge

/-- **The last stream** on a flow gets the stream id 65535; for the one behind it the search begins
and fails at once. -/
theorem sid_allocation_last :
    (∃ (x : Exec) (s : StrmId), x.peer.Allocates s 0 ∧ (x.peer.flows 0).txctr = 65535 ∧
      x.peer.AttachesFresh (x.peer.tattach s).1 s 0) ∧
    ∃ (x : Exec) (s : StrmId), x.peer.Allocates s 0 ∧ (x.peer.flows 0).txctr = 65536 ∧
      (x.peer.flows 0).usesSid 65536 = true ∧
      ¬x.peer.AttachesFresh (x.peer.tattach s).1 s 0 := by
  constructor
  · obtain ⟨x, s, w, hx, hs, h, hflows, -⟩ := Worn.connects (n := 65534) (by decide)
    have htxctr : (x.peer.flows 0).txctr = 65535 := by rw [hflows, h.txctr]
    refine ⟨x, s, hs, htxctr, (sid_allocation_iff hx hs).2 (.inl ?_)⟩
    rw [htxctr, hflows, h.usesSid]
    decide
  · obtain ⟨x, s, w, hx, hs, h, hflows, -⟩ := Worn.connects (n := 65535) (by decide)
    refine ⟨x, s, hs, by rw [hflows, h.txctr], ?_, fun hfresh => ?_⟩
    · rw [hflows, h.usesSid]
      decide
    · have hfree := (sid_allocation_iff hx hs).1 hfresh
      rw [hflows] at hfree
      exact h.exhausted hfree

/-- **The search fails** on a flow that has carried 65535 streams, though the 16 stream ids behind
its counter are all free: the root stream has the one of the counter, and the budget is used up. -/
theorem sid_allocation_exhausted : ∃ (x : Exec) (s : StrmId),
    peerMachine.Reach Machine.always x ∧ x.peer.Allocates s 0 ∧
    (∀ k, 1 ≤ k → k ≤ maxSidSkip → (x.peer.flows 0).usesSid ((x.peer.flows 0).txctr + k) = false) ∧
    x.peer.fault = false ∧ (x.peer.tattach s).1.fault = true ∧
    ¬x.peer.AttachesFresh (x.peer.tattach s).1 s 0 := by
  obtain ⟨x, s, w, hx, hs, h, hflows, hok⟩ := Worn.connects (n := 65535) (by decide)
  obtain ⟨v, hv, hi⟩ := Peer.tattach_eq hs
  have hnone : (v.flows 0).allocSid = none := by
    rw [hi.flows, hflows, ← Option.not_isSome_iff_eq_none, StreamFlow.allocSid_isSome]
    exact h.exhausted
  have hfault : (x.peer.tattach s).1.fault = true := by rw [hv, Peer.attachTo, hnone]
  refine ⟨x, s, hx, hs, fun k h1 h2 => ?_, hok, hfault, ?_⟩
  · rw [hflows, h.usesSid, h.txctr]
    have hk : k ≤ 16 := h2
    exact decide_eq_false (by omega)
  · rintro ⟨hsame, -⟩
    rw [hfault] at hsame
    exact absurd (hsame.trans hok) (by decide)

end Sst.Strm
