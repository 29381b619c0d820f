import Sst.Strm.Removal

/-!
# States that hold the same packets

Most acts change attachments, names and marks only. What they keep is said here once: the transmit
queues, the segments written, the packets that flows wait for, and what is in flight.

* `Alike`: two states with the same packets.
* `Act.Idle`, **`Peer.apply_alike`**: the acts that lead to such a state.
* `Peer.stop_alike`: a flow that stops has no packets to lose.
* **`Peer.clearPrimary_rule`**, **`deleteStream_rule`**: rules for the acts that give packets back.
-/

namespace Sst.Strm

/-- The packets of a stream and its account of them. -/
def BaseStream.stock (b : BaseStream) : List Packet × ℤ × ℤ × Finset ℤ × ℤ × List Segment ×
    Finset ℕ :=
  (b.tqueue, b.tasn, b.tflt, b.twait, b.twaitsize, b.written, b.ackedIds)

/-- Two states with the same packets. -/
structure Alike (w w' : Peer) : Prop where
  stock : ∀ s, (w'.streams s).stock = (w.streams s).stock
  parent : ∀ s, (w'.streams s).parent = (w.streams s).parent
  live : ∀ s, (w'.streams s).live = true → (w.streams s).live = true
  lookup : ∀ f seq, (w'.flows f).ackwait.lookup seq = (w.flows f).ackwait.lookup seq
  txseq : ∀ f, (w.flows f).txseq ≤ (w'.flows f).txseq
  sent : ∀ f, (w'.flows f).sent = (w.flows f).sent
  charges : w'.charges = w.charges
  nextStream : w'.nextStream = w.nextStream

namespace Alike

theorem of_eq {w w' : Peer} (hs : w'.streams = w.streams) (hf : w'.flows = w.flows)
    (hc : w'.charges = w.charges) (hn : w'.nextStream = w.nextStream) : Alike w w' :=
  ⟨fun _ => by rw [hs], fun _ => by rw [hs], fun _ h => by rwa [hs] at h, fun _ _ => by rw [hf],
    fun _ => by rw [hf], fun _ => by rw [hf], hc, hn⟩

theorem refl (w : Peer) : Alike w w := .of_eq rfl rfl rfl rfl

theorem trans {w w' w'' : Peer} (h : Alike w w') (h' : Alike w' w'') : Alike w w'' :=
  ⟨fun s => (h'.stock s).trans (h.stock s), fun s => (h'.parent s).trans (h.parent s),
    fun s hl => h.live s (h'.live s hl), fun f seq => (h'.lookup f seq).trans (h.lookup f seq),
    fun f => (h.txseq f).trans (h'.txseq f), fun f => (h'.sent f).trans (h.sent f),
    h'.charges.trans h.charges, h'.nextStream.trans h.nextStream⟩

variable (w : Peer)

theorem modStream (s : StrmId) {g : BaseStream → BaseStream}
    (hg : (g (w.streams s)).stock = (w.streams s).stock)
    (hp : (g (w.streams s)).parent = (w.streams s).parent)
    (hl : (g (w.streams s)).live = true → (w.streams s).live = true) :
    Alike w (w.modStream s g) := by
  refine ⟨fun t => ?_, fun t => ?_, fun t h => ?_, fun _ _ => rfl, fun _ => le_rfl, fun _ => rfl,
    rfl, rfl⟩
  · rw [Peer.modStream_streams]
    split_ifs with ht
    · rw [hg, ht]
    · rfl
  · rw [Peer.modStream_streams]
    split_ifs with ht
    · rw [hp, ht]
    · rfl
  · rw [Peer.modStream_streams] at h
    split_ifs at h with ht
    · rw [ht]
      exact hl h
    · exact h

theorem modFlow (f : ℕ) {g : StreamFlow → StreamFlow}
    (hl : ∀ seq, (g (w.flows f)).ackwait.lookup seq = (w.flows f).ackwait.lookup seq)
    (ht : (w.flows f).txseq ≤ (g (w.flows f)).txseq)
    (hs : (g (w.flows f)).sent = (w.flows f).sent) : Alike w (w.modFlow f g) := by
  refine ⟨fun _ => rfl, fun _ => rfl, fun _ h => h, fun k seq => ?_, fun k => ?_, fun k => ?_, rfl,
    rfl⟩
  · rw [Peer.modFlow_flows]
    split_ifs with hk
    · rw [hl, hk]
    · rfl
  · rw [Peer.modFlow_flows]
    split_ifs with hk
    · rw [hk]
      exact ht
    · exact le_rfl
  · rw [Peer.modFlow_flows]
    split_ifs with hk
    · rw [hs, hk]
    · rfl

theorem modFlow_eq (f : ℕ) {g : StreamFlow → StreamFlow}
    (hl : (g (w.flows f)).ackwait = (w.flows f).ackwait)
    (ht : (g (w.flows f)).txseq = (w.flows f).txseq)
    (hs : (g (w.flows f)).sent = (w.flows f).sent) : Alike w (w.modFlow f g) :=
  modFlow w f (fun _ => by rw [hl]) ht.ge hs

end Alike

/-- The acts that leave all packets where they are. -/
def Act.Idle : Act → Prop
  | .misc .. | .signal .. | .bind .. | .attach .. | .line .. | .prioritize ..
  | .activate .. | .setActive .. | .clearRx .. | .lowerSidseq .. | .activateFlow .. | .nameRoot ..
  | .channel .. | .rehash .. | .primary .. => True
  | _ => False

namespace Peer

variable {w w' : Peer} {f seq : ℕ} {s : StrmId} {i : Fin 2} {p : Packet}

theorem setActive_alike (w : Peer) (s : StrmId) (i : Fin 2) (f sid rxseq : ℕ) :
    Alike w (w.setActive s i f sid rxseq) := by
  unfold setActive
  exact (Alike.modStream w s rfl rfl id).trans (.modFlow_eq _ f rfl rfl rfl)

theorem clearRx_alike (w : Peer) (s : StrmId) (i : Fin 2) : Alike w (w.clearRx s i) := by
  unfold clearRx
  split
  · exact .refl w
  · exact (Alike.modStream w s rfl rfl id).trans (.modFlow_eq _ _ rfl rfl rfl)

theorem enqueueStream_alike (w : Peer) (f : ℕ) (s : StrmId) : Alike w (w.enqueueStream f s) := by
  have hstamp : Alike w (w.modStream s fun b => { b with stamp := w.clock }) :=
    .modStream w s rfl rfl id
  have hclock : Alike w { w.modStream s fun b => { b with stamp := w.clock } with
      clock := w.clock + 1 } := hstamp.trans (.of_eq rfl rfl rfl rfl)
  unfold enqueueStream
  exact hclock.trans (.modFlow_eq _ f rfl rfl rfl)

theorem setPriority_alike (w : Peer) (s : StrmId) (newpri : ℤ) :
    Alike w (w.setPriority s newpri) := by
  have hpri : Alike w (w.modStream s fun b => { b with priority := newpri }) :=
    .modStream w s rfl rfl id
  unfold setPriority
  dsimp only
  split
  · exact hpri.trans ((Alike.modFlow_eq _ _ rfl rfl rfl).trans (enqueueStream_alike ..))
  · exact hpri

theorem takeName_alike (w : Peer) (f ctr : ℕ) (s : StrmId) : Alike w (w.takeName f s ctr) := by
  have hname : Alike w (w.modStream s fun b =>
      { b with usid := some ⟨ctr, (w.flows f).txChannelId⟩ }) := .modStream w s rfl rfl id
  unfold takeName setUsid
  split_ifs
  · exact hname.trans (.of_eq rfl rfl rfl rfl)
  · exact .refl w

theorem joinFlow_alike (w : Peer) (f ctr : ℕ) (s : StrmId) (i : Fin 2) :
    Alike w (w.joinFlow f s ctr i) := by
  have hctr : Alike w (w.modFlow f fun x => { x with txctr := ctr + 1 }) :=
    .modFlow_eq w f rfl rfl rfl
  have hslot : Alike w ((w.modFlow f fun x => { x with txctr := ctr + 1 }).modStream s fun b =>
      { b with tatt := Function.update b.tatt i (some ⟨f, ctr % 2 ^ 16, maxPacketSeq, false⟩) }) :=
    hctr.trans (.modStream _ s rfl rfl id)
  have hatt : Alike w ((w.modFlow f fun x => { x with txctr := ctr + 1 }).setAttaching s i f
      (ctr % 2 ^ 16)) := hslot.trans (.modFlow_eq _ f rfl rfl rfl)
  exact hatt.trans (.modStream _ s rfl rfl id)

/-- **Acts** that leave all packets where they are. -/
theorem apply_alike {a : Act} (ha : a.Idle) (hadm : w.Admits a) : Alike w (w.apply a) := by
  cases a with
  | misc s g =>
    have hk := hadm.kept (w.streams s)
    simp only [BaseStream.kept, Prod.mk.injEq, Naming.mk.injEq] at hk
    obtain ⟨-, h1, ⟨h2, -, -, h2', -⟩, h3, h4, h5, h6, h7, h8⟩ := hk
    unfold apply
    refine .modStream w s ?_ h2' fun h => h2 ▸ h
    simp only [BaseStream.stock, h1, h3, h4, h5, h6, h7, h8]
  | signal => exact .of_eq rfl rfl rfl rfl
  | bind s =>
    unfold apply
    exact .modStream w s rfl rfl id
  | attach f s ctr i => exact (joinFlow_alike w f ctr s i).trans (takeName_alike ..)
  | line f s =>
    unfold apply standInLine
    exact (enqueueStream_alike w f s).trans (.modStream _ s rfl rfl id)
  | prioritize s newpri => exact setPriority_alike w s newpri
  | activate s i a rxseq =>
    unfold apply activateTx
    exact .modStream w s rfl rfl id
  | setActive s i f sid rxseq => exact setActive_alike w s i f sid rxseq
  | clearRx s i => exact clearRx_alike w s i
  | lowerSidseq s i pktseq =>
    unfold apply lowerSidseq
    exact .modStream w s rfl rfl id
  | activateFlow f nocc tx rx =>
    unfold apply activateFlow
    exact .modFlow_eq w f rfl rfl rfl
  | nameRoot f chanId =>
    unfold apply nameRoot
    exact .modStream w (.root f) rfl rfl id
  | channel f g =>
    have hk := hadm.1
    simp only [StreamFlow.kept, Prod.mk.injEq] at hk
    obtain ⟨-, -, -, -, -, -, -, -, -, h1, -, h2⟩ := hk
    unfold apply
    exact .modFlow w f (fun _ => by rw [h1]) hadm.2 h2
  | rehash f ackwait =>
    unfold apply
    exact .modFlow w f (fun _ => AList.perm_lookup hadm) le_rfl rfl
  | primary f => exact .of_eq rfl rfl rfl rfl
  | _ => exact ha.elim

/-! ## Detachment -/

theorem released_alike (h : Released w w') : Alike w w' := by
  refine ⟨fun s => ?_, fun s => ?_, fun s hl => ?_, fun f seq => ?_, fun f => ?_, fun f => ?_, ?_,
    ?_⟩
  · obtain ⟨_, _, _, hs⟩ := h.streams s
    rw [hs]
    rfl
  · obtain ⟨_, _, _, hs⟩ := h.streams s
    rw [hs]
  · obtain ⟨_, _, _, hs⟩ := h.streams s
    rw [hs] at hl
    exact hl
  · obtain ⟨_, _, hf⟩ := h.flows f
    rw [hf]
  · obtain ⟨_, _, hf⟩ := h.flows f
    rw [hf]
  · obtain ⟨_, _, hf⟩ := h.flows f
    rw [hf]
  · rw [← h.rest]
  · rw [← h.rest]

theorem clearAllRx_alike (w : Peer) (atts : List (StrmId × Fin 2)) :
    Alike w (w.clearAllRx atts) := by
  induction atts generalizing w with
  | nil => exact .refl w
  | cons x atts ih => exact (clearRx_alike w x.1 x.2).trans (ih _)

/-- **A flow that stops** has no packets to lose. -/
theorem stop_alike (h : Good none none w) (hf : w.flow ≠ some f) : Alike w (w.stop f).1 := by
  have hgood := h.deactivate hf
  have hack : ∀ seq, ((w.modFlow f fun x => { x with active := false, linkstat := .down }).flows
      f).ackwait.lookup seq = none := by
    rw [modFlow_self]
    exact h.no_packets hf
  obtain ⟨-, -, hrel, -⟩ := clearAllTx_spec hgood hack fun x hx k sid hk => by
    obtain ⟨sid', hl⟩ := hgood.of_txsids hx
    rw [hl] at hk
    cases hk
    rfl
  have hdown : Alike w (w.modFlow f fun x => { x with active := false, linkstat := .down }) :=
    .modFlow_eq w f rfl rfl rfl
  exact hdown.trans ((released_alike hrel).trans (clearAllRx_alike ..))

/-- **The rule for detaching the primary flow**: an invariant of a state and of the packets that are
still to go back holds in the end, if each of them may go back. -/
theorem clearPrimary_rule {J : List (Σ _ : ℕ, Packet) → Peer → Prop} (h : Good none none w)
    (hf : w.flow = some f) (halike : ∀ l v v', Alike v v' → J l v → J l v')
    (hret : ∀ v seq p l, J (⟨seq, p⟩ :: l) v → J l (v.returned f seq p))
    (h0 : J (w.flows f).ackwait.entries (w.emptied f)) : J [] w.clearPrimary.1 := by
  obtain ⟨hgood, hack, -⟩ := emptied_spec h hf
  obtain ⟨-, hd, hrel, -⟩ := Drained.clear hgood rfl hack
  let I (l : List (Σ _ : ℕ, Packet)) (v : Peer) : Prop :=
    v.flow = none ∧ (∀ x ∈ l, Loose v x.2) ∧ J l v
  have hquiet : ∀ v seq p l, I (⟨seq, p⟩ :: l) v → (v.streams p.strm).tcuratt = none ∧
      (v.flow = none ∨ (v.streams p.strm).live = false) ∧ (p.type = .data ∨ p.type = .attach) := by
    rintro v seq p l ⟨hv, hl, -⟩
    obtain ⟨h1, -, h2⟩ := hl _ List.mem_cons_self
    exact ⟨h1, .inl hv, h2⟩
  have hstep : ∀ v seq p l ws, I (⟨seq, p⟩ :: l) v →
      I l { v.returned f seq p with waiters := ws } := by
    rintro v seq p l ws ⟨hv, hl, hJ⟩
    have hws : Alike (v.returned f seq p) { v.returned f seq p with waiters := ws } :=
      .of_eq rfl rfl rfl rfl
    refine ⟨(returned_flow ..).1.trans hv, fun x hx => ?_, halike l _ _ hws (hret v seq p l hJ)⟩
    obtain ⟨h1, h2⟩ := hl x (List.mem_cons_of_mem _ hx)
    obtain ⟨_, _, hk⟩ := returned_kept v f seq p x.2.strm
    refine ⟨?_, h2⟩
    change ((v.returned f seq p).streams x.2.strm).tcuratt = none
    rw [hk]
    exact h1
  have hlast := giveBackAll_rule (f := f) hquiet hstep (w := ((w.emptied f).clearAllTx
    (((w.emptied f).flows f).txsids.entries.map Sigma.snd)).1)
    ⟨hd.flow, loose_detached h hf, halike _ _ _ (released_alike hrel) h0⟩
  unfold clearPrimary
  rw [hf]
  exact hlast.2.2.2

theorem returned_takePacket (w : Peer) (f seq : ℕ) (p : Packet) :
    (w.returned f seq p).takePacket f seq = (w.takePacket f seq).returned f seq p := by
  unfold returned segmentMissed endflight
  dsimp only
  split_ifs
  · rfl
  · rw [show ((w.takePacket f seq).report f seq).parentOf p.strm = (w.report f seq).parentOf p.strm
      from rfl]
    cases (w.report f seq).parentOf p.strm <;> rfl
  · rfl
  · rfl

theorem clearTx_rule {J : Peer → Prop} (h : Good none none w) (hs : (w.streams s).live = false)
    (halike : ∀ v v', Alike v v' → J v → J v')
    (hret : ∀ v f seq p, (v.flows f).ackwait.lookup seq = some p → p.strm = s →
      J v → J ((v.takePacket f seq).returned f seq p))
    (h0 : J w) (i : Fin 2) : J (w.clearTx s i).1 := by
  unfold clearTx
  split
  · exact h0
  rename_i a ha
  have hrule := reclaim_rule (f := a.flow) (s := s)
    (I := fun l v => Leaving s a.flow l v ∧ J v)
    (fun v seq p l hI hp _ => ⟨hI.1.detached, .inr hI.1.dead,
      (hI.1.good.held.waiting _ seq p hp).2.1⟩)
    (fun v seq l hI hp => ⟨hI.1.skip hp, hI.2⟩)
    (fun v seq p l ws hI hp hps => by
      have hws : Alike ((v.returned a.flow seq p).takePacket a.flow seq)
          ({ v.returned a.flow seq p with waiters := ws }.takePacket a.flow seq) :=
        .of_eq rfl rfl rfl rfl
      have hJ := hret v a.flow seq p hp hps hI.2
      rw [← returned_takePacket] at hJ
      exact ⟨hI.1.step hp ws, halike _ _ hws hJ⟩)
    ⟨Leaving.start h hs ha, halike _ _ (released_alike (releaseTx_released w s i a)) h0⟩
  exact hrule.2.2

theorem resetAll_alike (w : Peer) (subs : List StrmId) : Alike w (w.resetAll subs).1 := by
  induction subs generalizing w with
  | nil => exact .refl w
  | cons s subs ih =>
    have hfirst : Alike w (w.modStream s fun b => { b with state := .disconnected }) :=
      .modStream w s rfl rfl id
    exact hfirst.trans (ih _)

/-- **The rule for deleting a stream**: an invariant holds afterwards, if each packet of the stream
may leave its table and go back. -/
theorem deleteStream_rule {J : Peer → Prop} (h : Good none none w)
    (halike : ∀ v v', Alike v v' → J v → J v')
    (hret : ∀ v f seq p, (v.flows f).ackwait.lookup seq = some p → p.strm = s →
      J v → J ((v.takePacket f seq).returned f seq p))
    (h0 : J w) : J (w.deleteStream s).1 := by
  obtain ⟨hg₀, -, hl₀⟩ := buried_spec h s
  have hbury : Alike w (w.buried s) := by
    have hmod : Alike w (w.modStream s fun b =>
        { b with state := .disconnected, endwrite := true, live := false }) :=
      .modStream w s rfl rfl fun hl => (nomatch hl)
    exact hmod.trans (.of_eq rfl rfl rfl rfl)
  obtain ⟨-, hg₁, -, hl₁⟩ := clearTx_dead hg₀ hl₀ 0
  have hl₁' := (clearRx_live _ s s 0).trans hl₁
  have h1 := clearTx_rule hg₀ hl₀ halike hret (halike _ _ hbury h0) 0
  have h2 := clearTx_rule (hg₁.clearRx s 0) hl₁' halike hret
    (halike _ _ (clearRx_alike _ s 0) h1) 1
  have h3 := halike _ _ (clearRx_alike _ s 1) h2
  have h4 := halike _ _ (resetAll_alike _ (w.streams s).rsubs) h3
  exact halike _ _ (Alike.modStream _ s (g := fun b => { b with rsubs := [], listeners := [] }) rfl
    rfl id) h4

end Peer

end Sst.Strm
