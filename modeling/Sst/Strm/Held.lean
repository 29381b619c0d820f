import Sst.Strm.Placed

/-!
# The packets of a peer

Where packets wait: in the transmit queue of their stream, and in the `ackwait` table of the flow to
which it is attached. Root streams have none.

* `Peer.Held e`: the invariant, but for the packets of the stream `e` that are being given back.
* **`Peer.Held.modStream`**, `modFlow`: the changes of one stream or flow that preserve it.
* `Peer.held_apply`: the acts preserve it.
-/

namespace Sst.Strm

/-- A stream that nobody writes to and nobody has opened. -/
structure Bare (b : BaseStream) : Prop where
  tqueue : b.tqueue = []
  tqflow : b.tqflow = false
  strm : b.strm = false
  state : b.state ≠ .accepting
  parent : b.parent = none
  toplev : b.toplev = false

/-- A packet for the transmit queue of `s`. -/
def Owned (s : StrmId) (p : Packet) : Prop :=
  p.strm = s ∧ (p.type = .data ∨ p.type = .datagram ∧ p.ends = true)

namespace Peer

/-- A packet for the `ackwait` table of `f`. -/
def Waits (e : Option StrmId) (w : Peer) (f : ℕ) (p : Packet) : Prop :=
  (∃ n, p.strm = .sub n) ∧ (p.type = .data ∨ p.type = .attach) ∧
    (e = some p.strm ∨ ∃ i sid, (w.streams p.strm).link i = some (f, sid))

/-- The invariant of the packets, but for those of the stream `e` that are being given back. -/
structure Held (e : Option StrmId) (w : Peer) : Prop where
  root : ∀ f, Bare (w.streams (.root f))
  rsubs : ∀ s, ∀ c ∈ (w.streams s).rsubs, ∃ n, c = .sub n
  own : ∀ s, ∀ p ∈ (w.streams s).tqueue, Owned s p
  waiting : ∀ f seq p, (w.flows f).ackwait.lookup seq = some p → Waits e w f p
  guarded : ∀ f, ∀ r ∈ (w.flows f).sent, r.forced = true ∨ r.may = true

end Peer

/-- A change of the stream `s` that the invariant allows. -/
structure Tame (s : StrmId) (b b' : BaseStream) : Prop where
  bare : ∀ f, s = .root f → Bare b → Bare b'
  rsubs : ∀ c ∈ b'.rsubs, c ∈ b.rsubs ∨ ∃ n, c = .sub n
  own : ∀ p ∈ b'.tqueue, p ∈ b.tqueue ∨ Owned s p
  link : ∀ i k, b.link i = some k → b'.link i = some k

/-- What the invariant says of a stream. -/
def BaseStream.cargo (b : BaseStream) : List Packet × Bool × Bool × StreamState × Option StrmId ×
    Bool × List StrmId × (Fin 2 → Option (ℕ × ℕ)) :=
  (b.tqueue, b.tqflow, b.strm, b.state, b.parent, b.toplev, b.rsubs, b.link)

theorem Tame.of_cargo {s : StrmId} {b b' : BaseStream} (h : b'.cargo = b.cargo) : Tame s b b' := by
  simp only [BaseStream.cargo, Prod.mk.injEq] at h
  obtain ⟨h1, h2, h3, h4, h5, h6, h7, h8⟩ := h
  refine ⟨fun _ _ hb => ⟨?_, ?_, ?_, ?_, ?_, ?_⟩, fun c hc => .inl (h7 ▸ hc),
    fun p hp => .inl (h1 ▸ hp), fun i k hk => h8 ▸ hk⟩
  · exact h1.trans hb.tqueue
  · exact h2.trans hb.tqflow
  · exact h3.trans hb.strm
  · exact h4 ▸ hb.state
  · exact h5.trans hb.parent
  · exact h6.trans hb.toplev

theorem Tame.requeue {s : StrmId} {b b' : BaseStream} (hs : ∀ f, s ≠ .root f)
    (hr : b'.rsubs = b.rsubs) (hl : b'.link = b.link)
    (hq : ∀ p ∈ b'.tqueue, p ∈ b.tqueue ∨ Owned s p) : Tame s b b' :=
  ⟨fun f hf => absurd hf (hs f), fun _ hc => .inl (hr ▸ hc), hq, fun _ _ hk => hl ▸ hk⟩

namespace Peer

variable {e : Option StrmId} {w w' : Peer} {f : ℕ} {s : StrmId}

theorem held_new : Held none Peer.new where
  root _ := ⟨rfl, rfl, rfl, fun h => (nomatch h), rfl, rfl⟩
  rsubs _ _ hc := (nomatch hc)
  own _ _ hp := (nomatch hp)
  waiting f seq p hp := by
    change (∅ : AList fun _ : ℕ => Packet).lookup seq = some p at hp
    simp at hp
  guarded _ _ hr := (nomatch hr)

namespace Held

theorem congr (h : Held e w) (hs : w'.streams = w.streams) (hf : w'.flows = w.flows) :
    Held e w' := by
  obtain ⟨h1, h2, h3, h4, h5⟩ := h
  constructor
  · rw [hs]
    exact h1
  · rw [hs]
    exact h2
  · rw [hs]
    exact h3
  · unfold Waits
    rw [hs, hf]
    exact h4
  · rw [hf]
    exact h5

/-- **A change of one stream.** -/
theorem modStream (h : Held e w) {g : BaseStream → BaseStream}
    (hg : Tame s (w.streams s) (g (w.streams s))) : Held e (w.modStream s g) := by
  constructor
  · intro f
    rw [modStream_streams]
    split_ifs with hs
    · exact hg.bare f hs.symm (hs ▸ h.root f)
    · exact h.root f
  · intro t c hc
    rw [modStream_streams] at hc
    split_ifs at hc
    · exact (hg.rsubs c hc).elim (h.rsubs s c) id
    · exact h.rsubs t c hc
  · intro t p hp
    rw [modStream_streams] at hp
    split_ifs at hp with ht
    · rw [ht]
      exact (hg.own p hp).elim (h.own s p) id
    · exact h.own t p hp
  · intro f seq p hp
    obtain ⟨h1, h2, h3⟩ := h.waiting f seq p hp
    refine ⟨h1, h2, h3.imp_right fun ⟨i, sid, hl⟩ => ⟨i, sid, ?_⟩⟩
    rw [modStream_streams]
    split_ifs with hs
    · exact hg.link i _ (hs ▸ hl)
    · exact hl
  · exact h.guarded

/-- **A change of one flow.** -/
theorem modFlow (h : Held e w) {g : StreamFlow → StreamFlow}
    (hack : ∀ seq p, (g (w.flows f)).ackwait.lookup seq = some p →
      (w.flows f).ackwait.lookup seq = some p ∨ Waits e w f p)
    (hsent : ∀ r ∈ (g (w.flows f)).sent,
      r ∈ (w.flows f).sent ∨ r.forced = true ∨ r.may = true) :
    Held e (w.modFlow f g) where
  root := h.root
  rsubs := h.rsubs
  own := h.own
  waiting k seq p hp := by
    rw [modFlow_flows] at hp
    split_ifs at hp with hk
    · rw [hk]
      exact (hack seq p hp).elim (h.waiting f seq p) id
    · exact h.waiting k seq p hp
  guarded k r hr := by
    rw [modFlow_flows] at hr
    split_ifs at hr
    · exact (hsent r hr).elim (h.guarded f r) id
    · exact h.guarded k r hr

theorem modFlow_eq (h : Held e w) {g : StreamFlow → StreamFlow}
    (hack : (g (w.flows f)).ackwait = (w.flows f).ackwait)
    (hsent : (g (w.flows f)).sent = (w.flows f).sent) : Held e (w.modFlow f g) :=
  h.modFlow (fun _ _ hp => .inl (hack ▸ hp)) fun _ hr => .inl (hsent ▸ hr)

theorem cargo (h : Held e w) {g : BaseStream → BaseStream}
    (hg : (g (w.streams s)).cargo = (w.streams s).cargo) : Held e (w.modStream s g) :=
  h.modStream (.of_cargo hg)

theorem not_root (h : Held e w) (hs : (w.streams s).tqueue ≠ []) : ∀ f, s ≠ .root f := by
  rintro f rfl
  exact hs (h.root f).tqueue

theorem sub (h : Held e w) (hs : (w.streams s).tqueue ≠ []) : ∃ n, s = .sub n := by
  cases s with
  | root f => exact absurd rfl (h.not_root hs f)
  | sub n => exact ⟨n, rfl⟩

end Held

/-! ## Functions -/

theorem mem_insertPacket {b : BaseStream} {p q : Packet} :
    q ∈ (b.insertPacket p).tqueue ↔ q = p ∨ q ∈ b.tqueue :=
  Priority.mem_insertAhead (p := fun q : Packet => decide (0 < q.tsn - p.tsn))

namespace Held

section

variable {p : Packet} {n seq : ℕ} {rest : List Packet} {wire : Wire} {forced : Bool} {i : Fin 2}

theorem startflight (h : Held e w) : Held e (w.startflight f s n) :=
  (h.cargo (s := s) (g := fun b => { b with tflt := Word.wrap 32 (b.tflt + n) }) rfl).congr rfl rfl

theorem setQueue (h : Held e w) (hs : ∀ f, s ≠ .root f)
    (hrest : ∀ p ∈ rest, p ∈ (w.streams s).tqueue) : Held e (w.setQueue s rest) :=
  h.modStream (.requeue hs rfl rfl fun p hp => .inl (hrest p hp))

theorem awaitAck (h : Held e w) (hp : Waits e w f p) : Held e (w.awaitAck f p) := by
  refine h.modFlow (fun seq q hq => ?_) fun _ hr => .inl hr
  by_cases hseq : seq = (w.flows f).txseq
  · rw [hseq, AList.lookup_insert] at hq
    cases hq
    exact .inr hp
  · rw [AList.lookup_insert_ne hseq] at hq
    exact .inl hq

theorem flowTransmit (h : Held e w) (ht : w.Turn f forced) :
    Held e (w.flowTransmit f s wire forced) := by
  refine h.modFlow (fun _ _ hq => .inl hq) fun r hr => ?_
  obtain rfl | hr := List.mem_cons.mp hr
  · exact .inr ht
  · exact .inl hr

theorem takePacket (h : Held e w) : Held e (w.takePacket f seq) := by
  refine h.modFlow (fun k q hq => .inl ?_) fun _ hr => .inl hr
  by_cases hk : k = seq
  · rw [hk, AList.lookup_erase] at hq
    cases hq
  · rwa [AList.lookup_erase_ne hk] at hq

theorem report (h : Held e w) : Held e (w.report f seq) := h.congr rfl rfl

theorem markLate (h : Held e w) (hp : (w.flows f).ackwait.lookup seq = some p) :
    Held e (w.markLate f seq p) := by
  refine h.modFlow (fun k q hq => ?_) fun _ hr => .inl hr
  by_cases hk : k = seq
  · rw [hk, AList.lookup_insert] at hq
    cases hq
    exact .inr (h.waiting f seq p hp)
  · rw [AList.lookup_insert_ne hk] at hq
    exact .inl hq

theorem endflight (h : Held e w) : Held e (w.endflight p) := by
  unfold Peer.endflight
  dsimp only
  split
  · split
    · exact h.cargo rfl
    · exact h
  · exact h.cargo rfl

theorem insertPacket (h : Held e w) (hs : ∀ f, s ≠ .root f) (hp : Owned s p) :
    Held e (w.modStream s (·.insertPacket p)) := by
  refine h.modStream (.requeue hs rfl rfl fun q hq => ?_)
  obtain rfl | hq := mem_insertPacket.mp hq
  · exact .inr hp
  · exact .inl hq

theorem segmentAcked (h : Held e w) : Held e (w.segmentAcked p) := by
  unfold Peer.segmentAcked
  refine (h.endflight.cargo ?_).cargo rfl
  split_ifs <;> rfl

theorem segmentMissed (h : Held e w) (hs : ∃ n, p.strm = .sub n) (hp : p.type = .data) :
    Held e (w.segmentMissed p) := by
  obtain ⟨n, hn⟩ := hs
  exact h.endflight.insertPacket (fun f hf => by rw [hn] at hf; cases hf) ⟨rfl, .inl hp⟩

theorem recordSegment (h : Held e w) : Held e (w.recordSegment s p) := h.cargo rfl

theorem setActive (h : Held e w) {sid rxseq : ℕ} : Held e (w.setActive s i f sid rxseq) :=
  Held.modFlow_eq (h.cargo rfl) rfl rfl

theorem clearRx (h : Held e w) : Held e (w.clearRx s i) := by
  unfold Peer.clearRx
  split
  · exact h
  · exact Held.modFlow_eq (h.cargo rfl) rfl rfl

theorem takeName (h : Held e w) {ctr : ℕ} : Held e (w.takeName f s ctr) := by
  unfold Peer.takeName
  split_ifs
  · exact (h.cargo (s := s) (g := fun b => { b with usid := some ⟨ctr, (w.flows f).txChannelId⟩ })
      rfl).congr rfl rfl
  · exact h

theorem joinFlow (h : Held e w) (hs : ∀ j, (w.streams s).tatt j = none) {ctr : ℕ} :
    Held e (w.joinFlow f s ctr i) := by
  have h1 : Held e (w.modFlow f fun x => { x with txctr := ctr + 1 }) := h.modFlow_eq rfl rfl
  have h2 := h1.modStream (s := s) (g := fun b => { b with
      tatt := Function.update b.tatt i (some ⟨f, ctr % 2 ^ 16, maxPacketSeq, false⟩) })
    ⟨fun _ _ hb => ⟨hb.1, hb.2, hb.3, hb.4, hb.5, hb.6⟩, fun _ hc => .inl hc, fun _ hp => .inl hp,
      fun j k hk => by
        rw [modFlow_streams, BaseStream.link, hs j] at hk
        cases hk⟩
  have h3 : Held e ((w.modFlow f fun x => { x with txctr := ctr + 1 }).setAttaching s i f
      (ctr % 2 ^ 16)) := h2.modFlow_eq rfl rfl
  exact h3.cargo rfl

end

end Held

end Peer

/-! ## Acts -/

/-- The acts that do not detach streams. -/
def Act.Simple : Act → Prop
  | .clearPrimary | .stop .. | .delete .. => False
  | _ => True

theorem Slight.tame {s : StrmId} {g : BaseStream → BaseStream} (h : Slight g)
    (b : BaseStream) : Tame s b (g b) := by
  have hk := h.kept b
  simp only [BaseStream.kept, Prod.mk.injEq, Naming.mk.injEq] at hk
  obtain ⟨h1, h2, ⟨-, -, -, h4, h5, -⟩, -⟩ := hk
  refine ⟨fun _ _ hb => ⟨?_, ?_, ?_, ?_, ?_, ?_⟩, fun c hc => .inl (h.rsubs b hc),
    fun p hp => .inl ?_, fun i k hk => ?_⟩
  · rw [h2]
    exact hb.tqueue
  · rw [h2]
    exact hb.tqflow
  · exact Bool.eq_false_iff.mpr fun hs => Bool.eq_false_iff.mp hb.strm (h.strm b hs)
  · exact fun hs => hb.state (h.accepting b hs)
  · exact h4.trans hb.parent
  · exact h5.trans hb.toplev
  · rwa [h2] at hp
  · unfold BaseStream.link at hk ⊢
    rwa [h1]

namespace Peer

variable {d : Option ℕ} {e : Option StrmId} {w : Peer} {f : ℕ} {s : StrmId}

theorem Held.enqueueStream (h : Held e w) : Held e (w.enqueueStream f s) := by
  have h1 : Held e (w.modStream s fun b => { b with stamp := w.clock }) := h.cargo rfl
  have h2 : Held e { w.modStream s fun b => { b with stamp := w.clock } with
      clock := w.clock + 1 } := h1.congr rfl rfl
  unfold Peer.enqueueStream
  exact h2.modFlow_eq rfl rfl

theorem Held.newStream (h : Held e w) (hw : w.Placed d) {b : BaseStream} (hq : b.tqueue = [])
    (hr : b.rsubs = []) : Held e (w.newStream b) := by
  have hfree := Layout.Sound.free hw (hw.freshStream _ le_rfl).2
  refine (h.modStream (s := .sub w.nextStream) (g := fun _ => b)
    ⟨fun f hf => (nomatch hf), fun c hc => ?_, fun p hp => ?_, fun i k hk => ?_⟩).congr rfl rfl
  · rw [hr] at hc
    cases hc
  · rw [hq] at hp
    cases hp
  · have := hfree.link i
    change (w.streams (.sub w.nextStream)).link i = none at this
    rw [this] at hk
    cases hk

theorem Held.createSub (h : Held e w) (hw : w.Placed d) {p : StrmId} {u : Usid} :
    Held e (w.createSub f p u) := by
  have hnew : ∀ state, Held e ((w.newStream (.new (some p) (w.streams p).listenMode state)).setUsid
      (.sub w.nextStream) u) := fun state =>
    ((h.newStream hw rfl rfl).cargo (g := fun b => { b with usid := some u }) rfl).congr rfl rfl
  unfold Peer.createSub
  dsimp only
  split_ifs
  · exact hnew .accepting
  · refine (hnew .connected).modStream ⟨fun _ _ hb => ⟨hb.1, hb.2, hb.3, hb.4, hb.5, hb.6⟩,
      fun c hc => ?_, fun _ hp => .inl hp, fun _ _ hk => hk⟩
    refine (List.mem_append.mp hc).imp_right fun hc => ?_
    exact ⟨w.nextStream, List.mem_singleton.mp hc⟩

theorem Held.newFlow (h : Held e w) (hw : w.Placed d) : Held e w.newFlow := by
  have hfree := Layout.Sound.free hw (hw.freshFlow _ le_rfl).2
  have h1 : Held e (w.modFlow w.nextFlow fun _ => { StreamFlow.new with
      txsids := .singleton sidRoot (.root w.nextFlow, 0)
      rxsids := .singleton sidRoot (.root w.nextFlow, 0) }) := by
    refine h.modFlow (fun seq p hp => ?_) fun _ hr => (nomatch hr)
    change (∅ : AList fun _ : ℕ => Packet).lookup seq = some p at hp
    simp at hp
  refine (h1.modStream (s := .root w.nextFlow) (g := fun _ => rootStream w.nextFlow)
    ⟨fun f _ _ => ⟨rfl, rfl, rfl, fun h => (nomatch h), rfl, rfl⟩, fun c hc => (nomatch hc),
      fun p hp => (nomatch hp), fun i k hk => ?_⟩).congr rfl rfl
  have := hfree.link i
  change (w.streams (.root w.nextFlow)).link i = none at this
  rw [modFlow_streams, this] at hk
  cases hk

theorem Attached.waits {p : Packet} {type : PacketType} {i : Fin 2} {a : TxAttachment}
    (hatt : w.Attached s f i a) (hs : ∃ n, s = .sub n) (hp : p.strm = s)
    (htype : p.type = .data ∨ p.type = .attach) : Waits e w f { p with header := type } := by
  obtain ⟨-, h2, h3⟩ := hatt
  obtain ⟨n, rfl⟩ := hs
  refine ⟨⟨n, hp⟩, htype, .inr ⟨i, a.sid, ?_⟩⟩
  change ((w.streams p.strm).tatt i).map _ = _
  rw [hp, h2, ← h3]
  rfl

theorem turn_awaitAck (w : Peer) (f : ℕ) (p : Packet) (forced : Bool) :
    (w.awaitAck f p).Turn f forced ↔ w.Turn f forced := by
  unfold Turn awaitAck
  rw [modFlow_self]
  rfl

/-- **Acts** that do not detach streams. -/
theorem held_apply {a : Act} (h : Held e w) (hw : w.Placed d) (ha : a.Simple) (hadm : w.Admits a) :
    Held e (w.apply a) := by
  cases a with
  | misc s g => exact h.modStream (Slight.tame hadm _)
  | signal => exact h.congr rfl rfl
  | bind s =>
    obtain ⟨n, rfl⟩ := hadm
    unfold apply
    exact h.modStream (.requeue (fun f hf => (nomatch hf)) rfl rfl fun _ hp => .inl hp)
  | adopt f s =>
    unfold apply
    refine h.modStream (.requeue ?_ rfl rfl fun _ hp => .inl hp)
    rintro k rfl
    have := (h.root k).toplev
    rw [hadm.1] at this
    cases this
  | attach f s ctr i =>
    obtain ⟨-, hs, -⟩ := hadm
    refine (h.joinFlow fun j => ?_).takeName
    have := (Layout.Sound.free hw hs).link j
    change ((w.streams s).tatt j).map _ = none at this
    exact Option.map_eq_none_iff.mp this
  | line f s =>
    unfold apply standInLine
    exact h.enqueueStream.modStream (.requeue (h.not_root hadm.2.2) rfl rfl fun _ hp => .inl hp)
  | prioritize s newpri =>
    have h1 : Held e (w.modStream s fun b => { b with priority := newpri }) := h.cargo rfl
    unfold apply setPriority
    dsimp only
    split
    · exact Held.enqueueStream (h1.modFlow_eq rfl rfl)
    · exact h1
  | pick f s rest =>
    have h1 : Held e (w.modFlow f fun x => { x with tstreams := rest }) := h.modFlow_eq rfl rfl
    unfold apply
    refine h1.modStream ⟨fun k hk hb => ⟨?_, rfl, hb.3, hb.4, hb.5, hb.6⟩, fun _ hc => .inl hc,
      fun p hp => .inl ((List.dropWhile_suffix _).subset hp), fun _ _ hk => hk⟩
    have := hb.tqueue
    unfold BaseStream.collect
    dsimp only
    rw [this]
    rfl
  | sendData f s q p rest type wire forced =>
    obtain ⟨i, a, hatt, hq, htype, ht, -⟩ := hadm
    have hne : (w.streams s).tqueue ≠ [] := by
      rw [hq]
      exact List.cons_ne_nil _ _
    have hown := h.own s p (hq ▸ List.mem_cons_self)
    have hstart : (w.startflight f q p.payload.length).streams s =
        { w.streams s with tflt := ((w.startflight f q p.payload.length).streams s).tflt } := by
      rw [startflight_streams]
      split_ifs with hs
      · rw [hs]
      · rfl
    have h1 : Held e ((w.startflight f q p.payload.length).setQueue s rest) := by
      refine h.startflight.setQueue (h.not_root hne) fun r hr => ?_
      rw [hstart]
      exact hq ▸ List.mem_cons_of_mem _ hr
    have hatt' : ((w.startflight f q p.payload.length).setQueue s rest).Attached s f i a :=
      hatt.of_slots ((setQueue_slots ..).trans (startflight_slots ..))
    exact (h1.awaitAck (hatt'.waits (h.sub hne) hown.1 (.inl htype))).flowTransmit
      ((turn_awaitAck ..).mpr ht)
  | sendDatagram f s p rest wire forced =>
    obtain ⟨i, a, hatt, hq, htype, ht, -⟩ := hadm
    have hne : (w.streams s).tqueue ≠ [] := by
      rw [hq]
      exact List.cons_ne_nil _ _
    refine ((h.setQueue (h.not_root hne) fun r hr => ?_).startflight).flowTransmit ht
    exact hq ▸ List.mem_cons_of_mem _ hr
  | sendAttach f s p wire forced =>
    obtain ⟨hs, i, a, hatt, ht, hp, htype, -⟩ := hadm
    exact (h.awaitAck (hatt.waits hs hp (.inr htype))).flowTransmit
      ((turn_awaitAck ..).mpr ht)
  | ack f seq p =>
    unfold apply
    dsimp only
    split_ifs
    · exact h.takePacket.report.segmentAcked
    · exact h.takePacket.report
  | miss f seq p =>
    obtain ⟨hp, -⟩ := hadm
    have hrep : Held e (w.report f seq) := h.report
    have h1 := hrep.markLate hp
    unfold apply
    dsimp only
    split_ifs with htype
    · exact h1.segmentMissed (h.waiting f seq p hp).1 htype
    · exact h1
  | report => exact h.report
  | drop => exact h.takePacket
  | activate s i a rxseq =>
    unfold apply activateTx
    refine h.modStream ⟨fun _ _ hb => ⟨hb.1, hb.2, hb.3, hb.4, hb.5, hb.6⟩, fun _ hc => .inl hc,
      fun _ hp => .inl hp, fun j k hk => ?_⟩
    have := congrFun (congrFun (congrArg Layout.link (activateTx_layout hadm.1.2.1 rxseq)) s) j
    change ((w.activateTx s i a rxseq).streams s).link j = (w.streams s).link j at this
    rw [hk, activateTx, modStream_self] at this
    exact this
  | write s p =>
    obtain ⟨⟨n, rfl⟩, data, endflags, rfl⟩ := hadm
    exact h.recordSegment.insertPacket (fun k hf => (nomatch hf)) ⟨rfl, .inl rfl⟩
  | writeDatagram s p =>
    obtain ⟨⟨n, rfl⟩, data, rfl⟩ := hadm
    exact h.insertPacket (fun k hf => (nomatch hf)) ⟨rfl, .inr ⟨rfl, rfl⟩⟩
  | openStream b =>
    obtain ⟨parent, mode, state, toplev, strm, rfl⟩ := hadm
    exact h.newStream hw rfl rfl
  | create f p u sid slot pktseq =>
    exact ((h.createSub hw).modFlow_eq (g := fun x => { x with
      rxctr := max x.rxctr (x.extrapolate sid) }) rfl rfl).setActive
  | setActive => exact h.setActive
  | clearRx => exact h.clearRx
  | lowerSidseq =>
    unfold apply lowerSidseq
    exact h.cargo rfl
  | newFlow => exact h.newFlow hw
  | activateFlow =>
    unfold apply activateFlow
    exact h.modFlow_eq rfl rfl
  | nameRoot =>
    unfold apply nameRoot
    exact h.cargo rfl
  | channel f g =>
    have hk := hadm.1
    simp only [StreamFlow.kept, Prod.mk.injEq] at hk
    obtain ⟨-, -, -, -, -, -, -, -, -, h1, -, h2⟩ := hk
    exact h.modFlow_eq h1 h2
  | rehash f ackwait =>
    unfold apply
    refine h.modFlow (fun seq p hp => .inl ?_) fun _ hr => .inl hr
    change ackwait.lookup seq = some p at hp
    rwa [AList.perm_lookup hadm] at hp
  | primary => exact h.congr rfl rfl
  | _ => exact ha.elim

end Peer

end Sst.Strm
