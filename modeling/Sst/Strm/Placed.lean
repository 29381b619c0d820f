import Sst.Strm.Layout
import Sst.Strm.Turn

/-!
# The layout of a peer

The layout of a peer's streams on its flows, and what the acts make of it.

* `Peer.layout`, `Peer.Placed`: the layout of a peer, and its invariant.
* `Act.Still`, **`Peer.apply_layout`**: the acts that leave the layout as it is.
* `Peer.attach_layout`, `line_layout`, …: the acts that change it are its operations.
-/

namespace Sst.Strm

/-- The flow and the stream id of a transmit attachment. -/
def BaseStream.link (b : BaseStream) (i : Fin 2) : Option (ℕ × ℕ) :=
  (b.tatt i).map fun a => (a.flow, a.sid)

/-- What a stream has to do with the layout. -/
def BaseStream.place (b : BaseStream) :
    (Fin 2 → Option (ℕ × ℕ)) × Option (Fin 2) × Bool × ℤ × ℕ × Bool :=
  (b.link, b.tcuratt, b.tqflow, b.priority, b.stamp, b.live)

/-- What a flow has to do with the layout. -/
def StreamFlow.line (x : StreamFlow) :
    (AList fun _ : ℕ => StrmId × Fin 2) × List StrmId × Bool × Bool :=
  (x.txsids, x.tstreams, x.active, x.started)

/-- The acts that change neither attachments nor queues of streams. -/
def Act.Still : Act → Prop
  | .attach .. | .line .. | .prioritize .. | .pick .. | .openStream .. | .create .. | .newFlow
  | .activateFlow .. | .primary .. | .clearPrimary | .stop .. | .delete .. => False
  | _ => True

/-- The acts that do not change the primary flow. -/
def Act.Steady : Act → Prop
  | .primary .. | .clearPrimary | .stop .. | .delete .. => False
  | _ => True

namespace Peer

/-- The layout of a peer. -/
def layout (w : Peer) : Layout where
  link s := (w.streams s).link
  tcuratt s := (w.streams s).tcuratt
  tqflow s := (w.streams s).tqflow
  priority s := (w.streams s).priority
  stamp s := (w.streams s).stamp
  live s := (w.streams s).live
  txsids f := (w.flows f).txsids
  tstreams f := (w.flows f).tstreams
  active f := (w.flows f).active
  started f := (w.flows f).started
  flow := w.flow
  nextStream := w.nextStream
  nextFlow := w.nextFlow
  clock := w.clock

/-- The invariant of the layout, while the flow `d`, if any, is being detached. -/
def Placed (d : Option ℕ) (w : Peer) : Prop := w.layout.Sound d

variable {w w' : Peer} {f k sid : ℕ} {s t : StrmId} {i : Fin 2} {d : Option ℕ}

/-! ## Changes of one stream or flow -/

theorem layout_modStream (w : Peer) (s : StrmId) (g : BaseStream → BaseStream) :
    (w.modStream s g).layout = { w.layout with
      link := Function.update w.layout.link s (g (w.streams s)).link
      tcuratt := Function.update w.layout.tcuratt s (g (w.streams s)).tcuratt
      tqflow := Function.update w.layout.tqflow s (g (w.streams s)).tqflow
      priority := Function.update w.layout.priority s (g (w.streams s)).priority
      stamp := Function.update w.layout.stamp s (g (w.streams s)).stamp
      live := Function.update w.layout.live s (g (w.streams s)).live } := by
  apply Layout.ext
  all_goals first
    | rfl
    | funext t
      simp only [layout, modStream_streams, Function.update_apply]
      split_ifs <;> rfl

theorem layout_modFlow (w : Peer) (f : ℕ) (g : StreamFlow → StreamFlow) :
    (w.modFlow f g).layout = { w.layout with
      txsids := Function.update w.layout.txsids f (g (w.flows f)).txsids
      tstreams := Function.update w.layout.tstreams f (g (w.flows f)).tstreams
      active := Function.update w.layout.active f (g (w.flows f)).active
      started := Function.update w.layout.started f (g (w.flows f)).started } := by
  apply Layout.ext
  all_goals first
    | rfl
    | funext k
      simp only [layout, modFlow_flows, Function.update_apply]
      split_ifs <;> rfl

section Unchanged

variable (w : Peer) (s : StrmId) (f : ℕ)

@[simp] theorem update_link : Function.update w.layout.link s (w.streams s).link = w.layout.link :=
  Function.update_eq_self ..

@[simp] theorem update_tcuratt :
    Function.update w.layout.tcuratt s (w.streams s).tcuratt = w.layout.tcuratt :=
  Function.update_eq_self ..

@[simp] theorem update_tqflow :
    Function.update w.layout.tqflow s (w.streams s).tqflow = w.layout.tqflow :=
  Function.update_eq_self ..

@[simp] theorem update_priority :
    Function.update w.layout.priority s (w.streams s).priority = w.layout.priority :=
  Function.update_eq_self ..

@[simp] theorem update_stamp :
    Function.update w.layout.stamp s (w.streams s).stamp = w.layout.stamp :=
  Function.update_eq_self ..

@[simp] theorem update_live :
    Function.update w.layout.live s (w.streams s).live = w.layout.live :=
  Function.update_eq_self ..

@[simp] theorem update_txsids :
    Function.update w.layout.txsids f (w.flows f).txsids = w.layout.txsids :=
  Function.update_eq_self ..

@[simp] theorem update_tstreams :
    Function.update w.layout.tstreams f (w.flows f).tstreams = w.layout.tstreams :=
  Function.update_eq_self ..

@[simp] theorem update_active :
    Function.update w.layout.active f (w.flows f).active = w.layout.active :=
  Function.update_eq_self ..

@[simp] theorem update_started :
    Function.update w.layout.started f (w.flows f).started = w.layout.started :=
  Function.update_eq_self ..

end Unchanged

theorem modStream_layout {g : BaseStream → BaseStream}
    (h : (g (w.streams s)).place = (w.streams s).place) :
    (w.modStream s g).layout = w.layout := by
  simp only [BaseStream.place, Prod.mk.injEq] at h
  obtain ⟨h1, h2, h3, h4, h5, h6⟩ := h
  rw [layout_modStream, h1, h2, h3, h4, h5, h6]
  simp only [update_link, update_tcuratt, update_tqflow, update_priority, update_stamp,
    update_live]

theorem modFlow_layout {g : StreamFlow → StreamFlow} (h : (g (w.flows f)).line = (w.flows f).line) :
    (w.modFlow f g).layout = w.layout := by
  simp only [StreamFlow.line, Prod.mk.injEq] at h
  obtain ⟨h1, h2, h3, h4⟩ := h
  rw [layout_modFlow, h1, h2, h3, h4]
  simp only [update_txsids, update_tstreams, update_active, update_started]

/-! ## Acts that leave the layout as it is -/

@[simp] theorem setQueue_layout (w : Peer) (s : StrmId) (rest : List Packet) :
    (w.setQueue s rest).layout = w.layout := modStream_layout rfl

@[simp] theorem startflight_layout (w : Peer) (f : ℕ) (s : StrmId) (n : ℕ) :
    (w.startflight f s n).layout = w.layout :=
  modStream_layout (g := fun b => { b with tflt := Word.wrap 32 (b.tflt + n) }) rfl

@[simp] theorem awaitAck_layout (w : Peer) (f : ℕ) (p : Packet) :
    (w.awaitAck f p).layout = w.layout := modFlow_layout rfl

@[simp] theorem flowTransmit_layout (w : Peer) (f : ℕ) (s : StrmId) (wire : Wire)
    (forced : Bool) : (w.flowTransmit f s wire forced).layout = w.layout := modFlow_layout rfl

@[simp] theorem report_layout (w : Peer) (f seq : ℕ) : (w.report f seq).layout = w.layout := rfl

@[simp] theorem takePacket_layout (w : Peer) (f seq : ℕ) :
    (w.takePacket f seq).layout = w.layout := modFlow_layout rfl

@[simp] theorem markLate_layout (w : Peer) (f seq : ℕ) (p : Packet) :
    (w.markLate f seq p).layout = w.layout := modFlow_layout rfl

@[simp] theorem insertPacket_layout (w : Peer) (s : StrmId) (p : Packet) :
    (w.modStream s (·.insertPacket p)).layout = w.layout := modStream_layout rfl

@[simp] theorem endflight_layout (w : Peer) (p : Packet) :
    (w.endflight p).layout = w.layout := by
  unfold endflight
  dsimp only
  split
  · split
    · exact modStream_layout rfl
    · rfl
  · exact modStream_layout rfl

@[simp] theorem segmentAcked_layout (w : Peer) (p : Packet) :
    (w.segmentAcked p).layout = w.layout := by
  unfold segmentAcked
  refine (modStream_layout rfl).trans ((modStream_layout ?_).trans (endflight_layout w p))
  split_ifs <;> rfl

@[simp] theorem segmentMissed_layout (w : Peer) (p : Packet) :
    (w.segmentMissed p).layout = w.layout :=
  (insertPacket_layout ..).trans (endflight_layout w p)

@[simp] theorem recordSegment_layout (w : Peer) (s : StrmId) (p : Packet) :
    (w.recordSegment s p).layout = w.layout := modStream_layout rfl

@[simp] theorem setActive_layout (w : Peer) (s : StrmId) (i : Fin 2) (f sid rxseq : ℕ) :
    (w.setActive s i f sid rxseq).layout = w.layout :=
  (modFlow_layout rfl).trans (modStream_layout rfl)

@[simp] theorem clearRx_layout (w : Peer) (s : StrmId) (i : Fin 2) :
    (w.clearRx s i).layout = w.layout := by
  unfold clearRx
  split
  · rfl
  · exact (modFlow_layout rfl).trans (modStream_layout rfl)

theorem activateTx_layout {a : TxAttachment} (h : (w.streams s).tatt i = some a) (rxseq : ℕ) :
    (w.activateTx s i a rxseq).layout = w.layout := by
  refine modStream_layout ?_
  have hl : ∀ j, (Function.update (w.streams s).tatt i
      (some { a with sidseq := rxseq, active := true }) j).map (fun a => (a.flow, a.sid)) =
      (w.streams s).link j := by
    intro j
    rw [Function.update_apply]
    split_ifs with hj
    · rw [hj, BaseStream.link, h]
      rfl
    · rfl
  simp only [BaseStream.place, Prod.mk.injEq, and_true]
  exact funext hl

/-- **Acts** that change neither attachments nor queues leave the layout as it is. -/
theorem apply_layout {a : Act} (ha : a.Still) (h : w.Admits a) :
    (w.apply a).layout = w.layout := by
  cases a with
  | misc s g =>
    refine modStream_layout ?_
    have hk := h.kept (w.streams s)
    simp only [BaseStream.kept, Prod.mk.injEq, Naming.mk.injEq] at hk
    simp only [BaseStream.place, Prod.mk.injEq]
    obtain ⟨h1, h2, ⟨h3, -⟩, -⟩ := hk
    have hlink : (g (w.streams s)).link = (w.streams s).link := by
      unfold BaseStream.link
      rw [h1]
    exact ⟨hlink, by rw [h1], by rw [h2], by rw [h2], by rw [h2], h3⟩
  | signal => rfl
  | bind =>
    unfold apply
    exact modStream_layout rfl
  | adopt =>
    unfold apply
    exact modStream_layout rfl
  | sendData f s q p => 
    exact (flowTransmit_layout ..).trans ((awaitAck_layout ..).trans ((setQueue_layout ..).trans
      (startflight_layout _ f ..)))
  | sendDatagram f =>
    exact (flowTransmit_layout ..).trans ((startflight_layout _ f ..).trans (setQueue_layout ..))
  | sendAttach => exact (flowTransmit_layout ..).trans (awaitAck_layout ..)
  | ack f seq p =>
    simp only [apply]
    split_ifs
    · exact (segmentAcked_layout ..).trans ((report_layout _ f seq).trans (takePacket_layout ..))
    · exact (report_layout _ f seq).trans (takePacket_layout ..)
  | miss f seq p =>
    simp only [apply]
    split_ifs
    · exact (segmentMissed_layout ..).trans ((markLate_layout ..).trans (report_layout _ f seq))
    · exact (markLate_layout ..).trans (report_layout _ f seq)
  | report => rfl
  | drop => exact takePacket_layout ..
  | activate s i a rxseq => exact activateTx_layout h.1.2.1 rxseq
  | write => exact (insertPacket_layout ..).trans (recordSegment_layout ..)
  | writeDatagram => exact insertPacket_layout ..
  | setActive => exact setActive_layout ..
  | clearRx => exact clearRx_layout ..
  | lowerSidseq =>
    unfold apply lowerSidseq
    exact modStream_layout rfl
  | nameRoot =>
    unfold apply nameRoot
    exact modStream_layout rfl
  | channel f g =>
    refine modFlow_layout ?_
    have hk := h.1
    simp only [StreamFlow.kept, Prod.mk.injEq] at hk
    obtain ⟨h1, h2, -, -, -, -, -, -, h3, -, h4, -⟩ := hk
    simp only [StreamFlow.line, Prod.mk.injEq]
    exact ⟨by rw [h1], h3, h2, h4⟩
  | rehash =>
    unfold apply
    exact modFlow_layout rfl
  | _ => exact ha.elim

/-! ## Acts that change it -/

theorem takeName_layout (w : Peer) (f : ℕ) (s : StrmId) (ctr : ℕ) :
    (w.takeName f s ctr).layout = w.layout := by
  unfold takeName
  split_ifs
  · exact modStream_layout (g := fun b => { b with usid := some _ }) rfl
  · rfl

theorem attach_layout (w : Peer) (f : ℕ) (s : StrmId) (ctr : ℕ) (i : Fin 2) :
    (w.apply (.attach f s ctr i)).layout = w.layout.attach f s (ctr % 2 ^ 16) i := by
  refine (takeName_layout ..).trans ?_
  have hlink : ∀ sid, BaseStream.link { w.streams s with
      tatt := Function.update (w.streams s).tatt i (some ⟨f, sid, maxPacketSeq, false⟩)
      tcuratt := some i } = Function.update (w.streams s).link i (some (f, sid)) := by
    intro sid
    funext j
    simp only [BaseStream.link, Function.update_apply]
    split_ifs <;> rfl
  simp only [joinFlow, setAttaching, layout_modStream, layout_modFlow, modFlow_self,
    modFlow_streams, modStream_self, modStream_flows, Function.update_idem, hlink]
  simp only [update_tqflow, update_priority, update_stamp, update_live, update_tstreams,
    update_active, update_started]
  rfl

theorem layout_ext {l : Layout}
    (hp : ∀ t, (w.streams t).place =
      (l.link t, l.tcuratt t, l.tqflow t, l.priority t, l.stamp t, l.live t))
    (hl : ∀ k, (w.flows k).line = (l.txsids k, l.tstreams k, l.active k, l.started k))
    (hf : w.flow = l.flow) (hs : w.nextStream = l.nextStream) (hn : w.nextFlow = l.nextFlow)
    (hc : w.clock = l.clock) : w.layout = l := by
  simp only [BaseStream.place, Prod.mk.injEq] at hp
  simp only [StreamFlow.line, Prod.mk.injEq] at hl
  apply Layout.ext
  · exact funext fun t => (hp t).1
  · exact funext fun t => (hp t).2.1
  · exact funext fun t => (hp t).2.2.1
  · exact funext fun t => (hp t).2.2.2.1
  · exact funext fun t => (hp t).2.2.2.2.1
  · exact funext fun t => (hp t).2.2.2.2.2
  · exact funext fun k => (hl k).1
  · exact funext fun k => (hl k).2.1
  · exact funext fun k => (hl k).2.2.1
  · exact funext fun k => (hl k).2.2.2
  · exact hf
  · exact hs
  · exact hn
  · exact hc

theorem enqueueStream_streams (w : Peer) (f : ℕ) (s t : StrmId) :
    (w.enqueueStream f s).streams t =
      if t = s then { w.streams s with stamp := w.clock } else w.streams t :=
  modStream_streams w s t fun b => { b with stamp := w.clock }

theorem enqueueStream_flows (w : Peer) (f k : ℕ) (s : StrmId) :
    (w.enqueueStream f s).flows k = if k = f then
      { w.flows f with
        tstreams := Priority.insertBehind
          (fun t => (w.streams s).priority ≤ (w.streams t).priority) s (w.flows f).tstreams }
      else w.flows k := by
  have hpri : ∀ t, ((w.modStream s fun b => { b with stamp := w.clock }).streams t).priority =
      (w.streams t).priority := fun t => by
    rw [modStream_streams]
    split_ifs with ht
    · rw [ht]
    · rfl
  unfold enqueueStream
  rw [modFlow_flows]
  simp only [hpri]
  rfl

theorem standInLine_streams (w : Peer) (f : ℕ) (s t : StrmId) :
    (w.standInLine f s).streams t =
      if t = s then { w.streams s with stamp := w.clock, tqflow := true } else w.streams t := by
  rw [standInLine, modStream_streams, enqueueStream_streams, enqueueStream_streams, if_pos rfl]
  split_ifs <;> rfl

theorem line_layout (hs : s ∉ (w.flows f).tstreams) :
    (w.apply (.line f s)).layout = w.layout.enqueue f s (w.streams s).priority := by
  have hfilter : (w.flows f).tstreams.filter (· ≠ s) = (w.flows f).tstreams :=
    List.filter_eq_self.mpr fun t ht => decide_eq_true fun heq => hs (heq ▸ ht)
  refine layout_ext (fun t => ?_) (fun k => ?_) rfl rfl rfl rfl
  · rw [apply, standInLine_streams]
    simp only [Layout.enqueue, Function.update_apply]
    split_ifs with ht
    · rw [ht]
      rfl
    · rfl
  · change ((w.enqueueStream f s).flows k).line = _
    rw [enqueueStream_flows]
    simp only [Layout.enqueue, Function.update_apply]
    split_ifs with hk
    · subst hk
      have hpri : (fun t => decide ((w.streams s).priority ≤
          if t = s then (w.streams s).priority else w.layout.priority t)) =
          fun t => decide ((w.streams s).priority ≤ (w.streams t).priority) := by
        funext t
        split_ifs with ht
        · rw [ht]
        · rfl
      rw [hpri]
      change _ = (_, Priority.insertBehind _ s ((w.flows k).tstreams.filter (· ≠ s)), _, _)
      rw [hfilter]
      rfl
    · rfl

theorem setPriority_idle (hq : (w.streams s).tqflow = false) (newpri : ℤ) :
    (w.setPriority s newpri).layout =
      { w.layout with priority := Function.update w.layout.priority s newpri } := by
  have hmod : w.setPriority s newpri = w.modStream s fun b => { b with priority := newpri } := by
    unfold setPriority
    simp only [modStream_self, hq]
  rw [hmod, layout_modStream]
  simp only [update_tqflow, update_stamp, update_live, update_tcuratt]
  rw [show BaseStream.link { w.streams s with priority := newpri } = (w.streams s).link from rfl,
    update_link]

theorem setPriority_queued {a : TxAttachment} (hq : (w.streams s).tqflow = true)
    (ha : (w.streams s).curatt = some a) (newpri : ℤ) :
    (w.setPriority s newpri).layout = w.layout.enqueue a.flow s newpri := by
  have hset : w.setPriority s newpri =
      ((w.modStream s fun b => { b with priority := newpri }).dequeueStream a.flow s).enqueueStream
        a.flow s := by
    have hcur : ((w.modStream s fun b => { b with priority := newpri }).streams s).curatt =
        some a := by
      rw [modStream_self]
      exact ha
    have htq :
        ((w.modStream s fun b => { b with priority := newpri }).streams s).tqflow = true := by
      rw [modStream_self]
      exact hq
    unfold setPriority
    dsimp only
    rw [hcur, htq]
  rw [hset]
  refine layout_ext (fun t => ?_) (fun k => ?_) rfl rfl rfl rfl
  · rw [enqueueStream_streams]
    simp only [dequeueStream, modFlow_streams, modStream_self, modStream_streams, Layout.enqueue,
      Function.update_apply]
    split_ifs with ht
    · rw [ht]
      simp only [BaseStream.place, hq]
      rfl
    · rfl
  · rw [enqueueStream_flows]
    simp only [dequeueStream, modFlow_flows, modFlow_streams, modStream_flows, modStream_self,
      modStream_streams, Layout.enqueue, Function.update_apply]
    split_ifs with hk
    · rw [hk]
      have hpri : (fun t => decide (newpri ≤ if t = s then newpri else w.layout.priority t)) =
          fun t => decide (newpri ≤ (if t = s then { w.streams s with priority := newpri }
            else w.streams t).priority) := by
        funext t
        split_ifs <;> rfl
      rw [hpri]
      rfl
    · rfl

theorem pick_layout (w : Peer) (f : ℕ) (s : StrmId) (rest : List StrmId) :
    (w.apply (.pick f s rest)).layout = w.layout.pick f s rest := by
  refine layout_ext (fun t => ?_) (fun k => ?_) rfl rfl rfl rfl
  · rw [pick_streams]
    simp only [Layout.pick, Function.update_apply]
    split_ifs with ht
    · rw [ht]
      rfl
    · rfl
  · rw [pick_flows]
    simp only [Layout.pick, Function.update_apply]
    split_ifs with hk
    · rw [hk]
      rfl
    · rfl

/-- A stream just made: it has no attachments. -/
structure Made (b : BaseStream) : Prop where
  slots : ∀ i, b.tatt i = none
  tcuratt : b.tcuratt = none
  tqflow : b.tqflow = false
  priority : b.priority = 0
  stamp : b.stamp = 0
  live : b.live = true

theorem new_made (parent : Option StrmId) (mode : ℕ) (state : StreamState) :
    Made (.new parent mode state) :=
  ⟨fun _ => rfl, rfl, rfl, rfl, rfl, rfl⟩

theorem create_layout (h : w.Placed d) {b : BaseStream} (hb : Made b)
    (hp : ∀ t, (w'.streams t).place =
      if t = .sub w.nextStream then b.place else (w.streams t).place)
    (hl : ∀ k, (w'.flows k).line = (w.flows k).line) (hf : w'.flow = w.flow)
    (hs : w'.nextStream = w.nextStream + 1) (hn : w'.nextFlow = w.nextFlow)
    (hc : w'.clock = w.clock) : w'.layout = w.layout.create := by
  have hfree : w.layout.Free (.sub w.nextStream) := Layout.Sound.free h (h.freshStream _ le_rfl).2
  refine layout_ext (fun t => ?_) hl hf hs hn hc
  rw [hp]
  simp only [Layout.create, Function.update_apply]
  split_ifs with ht h2 h2
  · subst ht
    have hlink : b.link = w.layout.link (.sub w.nextStream) := funext fun i => by
      rw [hfree.link, BaseStream.link, hb.slots]
      rfl
    rw [BaseStream.place, hlink, hb.tcuratt, hb.tqflow, hb.priority, hb.stamp, hb.live]
    refine Prod.ext rfl (Prod.ext hfree.tcuratt.symm (Prod.ext hfree.tqflow.symm rfl))
  · exact absurd ht h2
  · exact absurd h2 ht
  · rfl

theorem newStream_layout (h : w.Placed d) {b : BaseStream} (hb : Made b) :
    (w.newStream b).layout = w.layout.create := by
  refine create_layout h hb (fun t => ?_) (fun _ => rfl) rfl rfl rfl rfl
  change (Function.update w.streams _ b t).place = _
  rw [Function.update_apply]
  split_ifs <;> rfl

@[simp] theorem setUsid_layout (w : Peer) (s : StrmId) (u : Usid) :
    (w.setUsid s u).layout = w.layout :=
  modStream_layout (g := fun b => { b with usid := some u }) rfl

theorem createSub_layout (h : w.Placed d) (f : ℕ) (p : StrmId) (u : Usid) :
    (w.createSub f p u).layout = w.layout.create := by
  have hnew : ∀ state, ((w.newStream (.new (some p) (w.streams p).listenMode state)).setUsid
      (.sub w.nextStream) u).layout = w.layout.create := fun state =>
    (setUsid_layout ..).trans (newStream_layout h (new_made ..))
  unfold createSub
  dsimp only
  split_ifs
  · exact hnew .accepting
  · exact (modStream_layout rfl).trans (hnew .connected)

theorem followCtr_layout (w : Peer) (f sid : ℕ) : (w.followCtr f sid).layout = w.layout :=
  modFlow_layout rfl

theorem newFlow_layout (w : Peer) : w.newFlow.layout = w.layout.newFlow sidRoot := by
  refine layout_ext (fun t => ?_) (fun k => ?_) rfl rfl rfl rfl
  · change (Function.update w.streams _ _ t).place = _
    simp only [Layout.newFlow, Function.update_apply]
    split_ifs with ht
    · have hlink : (rootStream w.nextFlow).link =
          Function.update (fun _ : Fin 2 => none) 0 (some (w.nextFlow, sidRoot)) := by
        funext i
        simp only [BaseStream.link, rootStream, Function.update_apply]
        split_ifs <;> rfl
      rw [BaseStream.place, hlink]
      rfl
    · exact absurd ht ‹_›
    · exact absurd ‹_› ht
    · rfl
  · change (Function.update w.flows _ _ k).line = _
    simp only [Layout.newFlow, Function.update_apply]
    change _ = (if k = w.nextFlow then _ else _, if k = w.nextFlow then _ else _,
      if k = w.nextFlow then _ else _, if k = w.nextFlow then _ else _)
    split_ifs <;> rfl

theorem activateFlow_layout (w : Peer) (f : ℕ) (nocc : Bool) (tx rx : ℕ) :
    (w.activateFlow f nocc tx rx).layout = w.layout.activate f := by
  refine layout_ext (fun t => rfl) (fun k => ?_) rfl rfl rfl rfl
  rw [activateFlow, modFlow_flows]
  simp only [Layout.activate, Function.update_apply]
  split_ifs with hk
  · rw [hk]
    rfl
  · rfl

/-! ## The acts preserve the invariant -/

theorem usesSid_eq_false {x : StreamFlow} {ctr : ℕ} (h : x.usesSid ctr = false) :
    x.txsids.lookup (ctr % 2 ^ 16) = none := by
  unfold StreamFlow.usesSid at h
  exact Option.isSome_eq_false_iff.mp h |> Option.isNone_iff_eq_none.mp

theorem scanSid_free {x : StreamFlow} {n c ctr : ℕ} (h : x.scanSid n c = some ctr) :
    x.usesSid ctr = false := by
  induction n generalizing c with
  | zero => cases h
  | succ n ih =>
    unfold StreamFlow.scanSid at h
    split_ifs at h with hu
    · exact ih h
    · cases h
      exact Bool.eq_false_iff.mpr hu

/-- The counter value with which a stream is attached gives a free stream id. -/
theorem allocSid_free {x : StreamFlow} {ctr : ℕ} (h : x.allocSid = some ctr) :
    x.txsids.lookup (ctr % 2 ^ 16) = none := by
  refine usesSid_eq_false ?_
  unfold StreamFlow.allocSid at h
  split_ifs at h with hu
  · exact scanSid_free h
  · cases h
    exact Bool.eq_false_iff.mpr hu

theorem placed_new : Placed none Peer.new where
  cur _ i := ⟨fun h => (nomatch h), fun h => absurd rfl h⟩
  primary _ _ _ _ h := (nomatch h)
  active _ h := (nomatch h)
  started _ h := (nomatch h)
  bound _ _ _ _ h := (nomatch h)
  sids f sid s i := by
    change (∅ : AList fun _ : ℕ => StrmId × Fin 2).lookup sid = _ ↔ none = _
    simp
  queued f s := ⟨fun h => (nomatch h), fun h => (nomatch h.1)⟩
  lined _ h := (nomatch h)
  nodup _ := List.nodup_nil
  sorted _ := List.Pairwise.nil
  stamps _ h := (nomatch h)
  freshStream _ _ := ⟨rfl, rfl⟩
  freshFlow _ _ := ⟨rfl, rfl⟩

theorem Attached.link {a : TxAttachment} (h : w.Attached s f i a) :
    w.layout.link s i = some (f, a.sid) := by
  obtain ⟨-, h2, rfl⟩ := h
  change ((w.streams s).tatt i).map _ = _
  rw [h2]
  rfl

/-- **Acts** that do not change the primary flow. -/
theorem placed_apply {a : Act} (h : w.Placed d) (ha : a.Steady) (hadm : w.Admits a) :
    (w.apply a).Placed d := by
  unfold Placed
  by_cases hstill : a.Still
  · rw [apply_layout hstill hadm]
    exact h
  cases a with
  | attach f s ctr i =>
    obtain ⟨hf, hs, hlive, hctr, -⟩ := hadm
    rw [attach_layout]
    exact Layout.Sound.attach h hf hs hlive (allocSid_free hctr)
  | line f s =>
    obtain ⟨⟨i, a, hatt⟩, hq, -⟩ := hadm
    rw [line_layout (Layout.Sound.not_queued h hq f)]
    exact Layout.Sound.enqueue h hatt.link _
  | prioritize s newpri =>
    change (w.setPriority s newpri).layout.Sound d
    cases hq : (w.streams s).tqflow with
    | false =>
      rw [setPriority_idle hq]
      exact Layout.Sound.setPriority h hq newpri
    | true =>
      obtain ⟨i, hi⟩ := Option.ne_none_iff_exists'.mp (h.lined s hq)
      have hlink := (h.cur s i).mp hi
      change ((w.streams s).tatt i).map _ ≠ none at hlink
      obtain ⟨a, ha⟩ : ∃ a, (w.streams s).tatt i = some a :=
        Option.ne_none_iff_exists'.mp fun hn => hlink (by rw [hn]; rfl)
      rw [setPriority_queued hq (curatt_eq.mpr ⟨i, hi, ha⟩)]
      exact Layout.Sound.enqueue h (Attached.link ⟨hi, ha, rfl⟩) newpri
  | pick f s rest =>
    rw [pick_layout]
    exact Layout.Sound.pick h hadm
  | openStream b =>
    obtain ⟨parent, mode, state, toplev, strm, rfl⟩ := hadm
    change (w.newStream _).layout.Sound d
    rw [newStream_layout h ⟨fun _ => rfl, rfl, rfl, rfl, rfl, rfl⟩]
    exact Layout.Sound.create h
  | create f p u sid slot pktseq =>
    have hl : (w.apply (.create f p u sid slot pktseq)).layout = w.layout.create :=
      (setActive_layout ..).trans ((followCtr_layout ..).trans (createSub_layout h f p u))
    rw [hl]
    exact Layout.Sound.create h
  | newFlow =>
    change w.newFlow.layout.Sound d
    rw [newFlow_layout]
    exact Layout.Sound.newFlow h
  | activateFlow f nocc tx rx =>
    change (w.activateFlow f nocc tx rx).layout.Sound d
    rw [activateFlow_layout]
    exact Layout.Sound.activate h hadm.1
  | primary | clearPrimary | stop | delete => exact ha.elim
  | _ => exact absurd trivial hstill

theorem placed_primary (h : w.Placed none) (hadm : w.Admits (.primary f)) :
    (w.apply (.primary f)).Placed none :=
  Layout.Sound.promote h hadm.1 hadm.2

end Peer

end Sst.Strm
