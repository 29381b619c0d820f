import Sst.Strm.Held

/-!
# Detaching streams

What happens when attachments are cleared: the slots are released, the packets go back to their
streams, and since these find no flow, or are gone, no call is left to be made.

* `Peer.returned`: a packet goes back to its stream, which makes nothing of it.
* `Released`: a state that differs by attachments that are released.
* **`Peer.giveBackAll_rule`**, `reclaim_rule`: rules for the loops that give packets back.
* **`Peer.clearAllTx_spec`**: the loop that releases all attachments of a flow.
* **`Peer.clearPrimary_spec`**, `stop_spec`: the acts that detach streams preserve the invariants.
-/

namespace Sst.Strm

namespace Peer

variable {d : Option ℕ} {e : Option StrmId} {w w' : Peer} {f seq : ℕ} {s : StrmId} {p : Packet}
  {i : Fin 2}

/-- The invariants of a peer. -/
structure Good (d : Option ℕ) (e : Option StrmId) (w : Peer) : Prop where
  placed : w.Placed d
  held : w.Held e

/-! ## Packets that go back -/

/-- A packet goes back to its stream. -/
def returned (w : Peer) (f seq : ℕ) (p : Packet) : Peer :=
  if p.late then w
  else if p.type = .data then (w.report f seq).segmentMissed { p with late := true }
  else w.report f seq

theorem tattach_quiet (hf : w.flow = none ∨ (w.streams s).live = false) :
    ∃ ws, w.tattach s = ({ w with waiters := ws }, []) := by
  unfold tattach
  dsimp only
  split
  · exact ⟨w.waiters, rfl⟩
  · rename_i h
    simp only [Bool.or_eq_true, not_or, Bool.not_eq_true, Bool.not_eq_false'] at h
    have hlive : (w.streams s).live ≠ false := by
      rw [h.2]
      decide
    have hf' : w.flow = none := hf.resolve_right hlive
    split
    · exact ⟨_, rfl⟩
    · rename_i hsome
      rw [hf'] at hsome
      cases hsome

theorem txenqflow_quiet (hs : (w.streams s).tcuratt = none)
    (hf : w.flow = none ∨ (w.streams s).live = false) (immed : Bool) :
    ∃ ws, w.txenqflow s immed = ({ w with waiters := ws }, []) := by
  have hcur : (w.streams s).curatt = none := by
    rw [BaseStream.curatt, hs]
    rfl
  unfold txenqflow
  rw [hcur]
  exact tattach_quiet hf

theorem endflight_kept (w : Peer) (p : Packet) (t : StrmId) :
    ∃ n, (w.endflight p).streams t = { w.streams t with tflt := n } := by
  have hrel : ∀ s, ∃ n, (w.modStream s fun b =>
      { b with tflt := Word.wrap 32 (b.tflt - p.payloadSize) }).streams t =
      { w.streams t with tflt := n } := fun s => by
    rw [modStream_streams]
    split_ifs with ht
    · exact ⟨_, by rw [ht]⟩
    · exact ⟨(w.streams t).tflt, rfl⟩
  unfold endflight
  dsimp only
  split
  · split
    · exact hrel _
    · exact ⟨_, rfl⟩
  · exact hrel _

theorem segmentMissed_kept (w : Peer) (p : Packet) (t : StrmId) :
    ∃ n q, (w.segmentMissed p).streams t = { w.streams t with tflt := n, tqueue := q } := by
  obtain ⟨n, hn⟩ := endflight_kept w p t
  unfold segmentMissed
  rw [modStream_streams]
  split_ifs with ht
  · rw [← ht, hn]
    exact ⟨n, _, rfl⟩
  · exact ⟨n, (w.streams t).tqueue, hn⟩

theorem returned_kept (w : Peer) (f seq : ℕ) (p : Packet) (t : StrmId) :
    ∃ n q, (w.returned f seq p).streams t = { w.streams t with tflt := n, tqueue := q } := by
  unfold returned
  split_ifs
  · exact ⟨_, _, rfl⟩
  · exact segmentMissed_kept (w.report f seq) _ t
  · exact ⟨_, _, rfl⟩

theorem endflight_flow (w : Peer) (p : Packet) :
    (w.endflight p).flow = w.flow ∧ (w.endflight p).flows = w.flows := by
  unfold endflight
  dsimp only
  split
  · split <;> exact ⟨rfl, rfl⟩
  · exact ⟨rfl, rfl⟩

theorem returned_flow (w : Peer) (f seq : ℕ) (p : Packet) :
    (w.returned f seq p).flow = w.flow ∧ (w.returned f seq p).flows = w.flows := by
  unfold returned
  split_ifs
  · exact ⟨rfl, rfl⟩
  · exact endflight_flow (w.report f seq) _
  · exact ⟨rfl, rfl⟩

theorem giveBack_quiet (hs : (w.streams p.strm).tcuratt = none)
    (hf : w.flow = none ∨ (w.streams p.strm).live = false)
    (hp : p.type = .data ∨ p.type = .attach) :
    ∃ ws, w.giveBack f seq p = ({ w.returned f seq p with waiters := ws }, []) := by
  obtain ⟨n, q, hkept⟩ := returned_kept w f seq p p.strm
  have hs' : ((w.returned f seq p).streams p.strm).tcuratt = none := by
    rw [hkept]
    exact hs
  have hf' : (w.returned f seq p).flow = none ∨
      ((w.returned f seq p).streams p.strm).live = false := by
    rw [hkept, (returned_flow w f seq p).1]
    exact hf
  unfold giveBack
  cases hlate : p.late with
  | true =>
    refine ⟨w.waiters, ?_⟩
    unfold returned
    rw [if_pos hlate]
    rfl
  | false =>
    unfold returned at hs' hf' ⊢
    rw [hlate] at hs' hf'
    rw [hlate]
    simp only [Bool.false_eq_true, if_false] at hs' hf' ⊢
    unfold strmMissed
    rcases hp with hp | hp
    · simp only [hp, if_true] at hs' hf' ⊢
      exact txenqflow_quiet hs' hf' true
    · simp only [hp, reduceCtorEq, if_false] at hs' hf' ⊢
      exact txenqflow_quiet hs' hf' false

/-! ## The loops that give packets back -/

/-- **A rule** for the loop over a saved `ackwait` table: what a packet that goes back preserves
holds in the end, and no call is left. -/
theorem giveBackAll_rule {I : List (Σ _ : ℕ, Packet) → Peer → Prop}
    (hquiet : ∀ w seq p l, I (⟨seq, p⟩ :: l) w → (w.streams p.strm).tcuratt = none ∧
      (w.flow = none ∨ (w.streams p.strm).live = false) ∧ (p.type = .data ∨ p.type = .attach))
    (hstep : ∀ w seq p l ws, I (⟨seq, p⟩ :: l) w →
      I l { w.returned f seq p with waiters := ws })
    {l : List (Σ _ : ℕ, Packet)} (hI : I l w) :
    (w.giveBackAll f l).2 = [] ∧ I [] (w.giveBackAll f l).1 := by
  induction l generalizing w with
  | nil => exact ⟨rfl, hI⟩
  | cons x l ih =>
    obtain ⟨seq, p⟩ := x
    obtain ⟨h1, h2, h3⟩ := hquiet w seq p l hI
    obtain ⟨ws, hws⟩ := giveBack_quiet (f := f) h1 h2 h3
    have := ih (hstep w seq p l ws hI)
    unfold giveBackAll
    rw [hws]
    exact this

/-- **A rule** for the loop over the `ackwait` table in `StreamTxAttachment::clear`. -/
theorem reclaim_rule {I : List ℕ → Peer → Prop}
    (hquiet : ∀ w seq p l, I (seq :: l) w → (w.flows f).ackwait.lookup seq = some p → p.strm = s →
      (w.streams s).tcuratt = none ∧ (w.flow = none ∨ (w.streams s).live = false) ∧
      (p.type = .data ∨ p.type = .attach))
    (hskip : ∀ w seq l, I (seq :: l) w →
      (∀ p, (w.flows f).ackwait.lookup seq = some p → p.strm ≠ s) → I l w)
    (hstep : ∀ w seq p l ws, I (seq :: l) w → (w.flows f).ackwait.lookup seq = some p →
      p.strm = s → I l ({ w.returned f seq p with waiters := ws }.takePacket f seq))
    {l : List ℕ} (hI : I l w) : (w.reclaim f s l).2 = [] ∧ I [] (w.reclaim f s l).1 := by
  induction l generalizing w with
  | nil => exact ⟨rfl, hI⟩
  | cons seq l ih =>
    unfold reclaim
    split
    · rename_i hnone
      exact ih (hskip w seq l hI fun p hp => by rw [hnone] at hp; cases hp)
    · rename_i p hp
      split
      · rename_i hps
        obtain ⟨h1, h2, h3⟩ := hquiet w seq p l hI hp hps
        rw [← hps] at h1 h2
        obtain ⟨ws, hws⟩ := giveBack_quiet (f := f) h1 h2 h3
        have := ih (hstep w seq p l ws hI hp hps)
        rw [hws]
        exact this
      · rename_i hps
        refine ih (hskip w seq l hI fun q hq => ?_)
        rw [hp] at hq
        cases hq
        exact hps

theorem reclaim_none (h : ∀ seq p, (w.flows f).ackwait.lookup seq = some p → p.strm ≠ s)
    (l : List ℕ) : w.reclaim f s l = (w, []) := by
  induction l with
  | nil => rfl
  | cons seq l ih =>
    unfold reclaim
    split
    · exact ih
    · rename_i p hp
      rw [if_neg (h seq p hp)]
      exact ih

/-! ## Released slots -/

theorem releaseTx_self (w : Peer) (s : StrmId) (i : Fin 2) (a : TxAttachment) :
    (w.releaseTx s i a).streams s =
      { w.streams s with
        tcuratt := if (w.streams s).tcuratt = some i then none else (w.streams s).tcuratt
        tatt := Function.update (w.streams s).tatt i none
        tqflow := false } := by
  unfold releaseTx dequeueStream
  rw [modFlow_streams, modFlow_streams, modStream_self]

theorem releaseTx_of_ne {s t : StrmId} (h : t ≠ s) (w : Peer) (i : Fin 2) (a : TxAttachment) :
    (w.releaseTx s i a).streams t = w.streams t := by
  unfold releaseTx dequeueStream
  rw [modFlow_streams, modFlow_streams, modStream_streams, if_neg h]

theorem releaseTx_flows (w : Peer) (s : StrmId) (i : Fin 2) (a : TxAttachment) (k : ℕ) :
    (w.releaseTx s i a).flows k = if k = a.flow then
      { w.flows a.flow with
        txsids := (w.flows a.flow).txsids.erase a.sid
        tstreams := (w.flows a.flow).tstreams.filter (· ≠ s) } else w.flows k := by
  unfold releaseTx dequeueStream
  rw [modFlow_flows, modFlow_self, modFlow_flows]
  simp only [modStream_flows]
  split_ifs <;> rfl

end Peer

/-- A state that differs by attachments that are released. -/
structure Released (w w' : Peer) : Prop where
  streams : ∀ s, ∃ tatt tcuratt tqflow, w'.streams s =
    { w.streams s with tatt := tatt, tcuratt := tcuratt, tqflow := tqflow }
  flows : ∀ f, ∃ txsids tstreams, w'.flows f =
    { w.flows f with txsids := txsids, tstreams := tstreams }
  tstreams : ∀ f, (w'.flows f).tstreams ⊆ (w.flows f).tstreams
  rest : { w' with streams := w.streams, flows := w.flows } = w

/-- What detachment keeps of a stream. -/
def BaseStream.fixed (b : BaseStream) : Naming × ℤ × ℕ × Sending × Bool × ℕ :=
  ({ b.toNaming with live := false }, b.priority, b.stamp,
    { b.toSending with tflt := 0, endwrite := false }, b.strm, b.listenMode)

/-- What detachment keeps of a flow. -/
def StreamFlow.fixed (x : StreamFlow) : Channel × ℕ × ℕ × ℕ × Bool × List Sent :=
  ({ x.toChannel with active := false, linkstat := .down }, x.txctr, x.txackctr, x.rxctr, x.started,
    x.sent)

/-- A state that differs by streams that are detached or gone. -/
structure Shrunk (w w' : Peer) : Prop where
  streams : ∀ s, (w'.streams s).fixed = (w.streams s).fixed
  flows : ∀ f, (w'.flows f).fixed = (w.flows f).fixed
  tstreams : ∀ f, (w'.flows f).tstreams ⊆ (w.flows f).tstreams
  clock : w'.clock = w.clock

namespace Shrunk

theorem of_eq {w w' : Peer} (hs : w'.streams = w.streams) (hf : w'.flows = w.flows)
    (hc : w'.clock = w.clock) : Shrunk w w' :=
  ⟨fun _ => by rw [hs], fun _ => by rw [hf], fun _ => by rw [hf]; exact List.Subset.refl _, hc⟩

theorem refl (w : Peer) : Shrunk w w := .of_eq rfl rfl rfl

theorem trans {w w' w'' : Peer} (h : Shrunk w w') (h' : Shrunk w' w'') : Shrunk w w'' :=
  ⟨fun s => (h'.streams s).trans (h.streams s), fun f => (h'.flows f).trans (h.flows f),
    fun f => List.Subset.trans (h'.tstreams f) (h.tstreams f), h'.clock.trans h.clock⟩

theorem modStream (w : Peer) (s : StrmId) {g : BaseStream → BaseStream}
    (h : (g (w.streams s)).fixed = (w.streams s).fixed) : Shrunk w (w.modStream s g) := by
  refine ⟨fun t => ?_, fun _ => rfl, fun _ => List.Subset.refl _, rfl⟩
  rw [Peer.modStream_streams]
  split_ifs with ht
  · rw [h, ht]
  · rfl

theorem modFlow (w : Peer) (f : ℕ) {g : StreamFlow → StreamFlow}
    (h : (g (w.flows f)).fixed = (w.flows f).fixed)
    (hs : (g (w.flows f)).tstreams = (w.flows f).tstreams) : Shrunk w (w.modFlow f g) := by
  refine ⟨fun _ => rfl, fun k => ?_, fun k => ?_, rfl⟩
  · rw [Peer.modFlow_flows]
    split_ifs with hk
    · rw [h, hk]
    · rfl
  · rw [Peer.modFlow_flows]
    split_ifs with hk
    · rw [hs, hk]
      exact List.Subset.refl _
    · exact List.Subset.refl _

end Shrunk

theorem Released.shrunk {w w' : Peer} (h : Released w w') : Shrunk w w' := by
  have hclock : w.clock = w'.clock := by rw [← h.rest]
  refine ⟨fun s => ?_, fun f => ?_, h.tstreams, hclock.symm⟩
  · obtain ⟨_, _, _, hs⟩ := h.streams s
    rw [hs]
    rfl
  · obtain ⟨_, _, hf⟩ := h.flows f
    rw [hf]
    rfl

namespace Released

theorem refl (w : Peer) : Released w w :=
  ⟨fun _ => ⟨_, _, _, rfl⟩, fun _ => ⟨_, _, rfl⟩, fun _ => List.Subset.refl _, rfl⟩

theorem trans {w w' w'' : Peer} (h : Released w w') (h' : Released w' w'') : Released w w'' := by
  refine ⟨fun s => ?_, fun f => ?_, fun f => List.Subset.trans (h'.tstreams f) (h.tstreams f), ?_⟩
  · obtain ⟨_, _, _, h1⟩ := h.streams s
    obtain ⟨x, y, z, h2⟩ := h'.streams s
    rw [h1] at h2
    exact ⟨x, y, z, h2⟩
  · obtain ⟨_, _, h1⟩ := h.flows f
    obtain ⟨x, y, h2⟩ := h'.flows f
    rw [h1] at h2
    exact ⟨x, y, h2⟩
  · have h1 := h.rest
    have h2 := h'.rest
    rw [← h2] at h1
    exact h1

end Released

namespace Peer

variable {d : Option ℕ} {e : Option StrmId} {w w' : Peer} {f seq : ℕ} {s : StrmId} {p : Packet}
  {i : Fin 2} {a : TxAttachment}

theorem releaseTx_released (w : Peer) (s : StrmId) (i : Fin 2) (a : TxAttachment) :
    Released w (w.releaseTx s i a) := by
  refine ⟨fun t => ?_, fun k => ?_, fun k => ?_, rfl⟩
  · by_cases ht : t = s
    · rw [ht, releaseTx_self]
      exact ⟨_, _, _, rfl⟩
    · rw [releaseTx_of_ne ht]
      exact ⟨_, _, _, rfl⟩
  · rw [releaseTx_flows]
    split_ifs with hk
    · rw [hk]
      exact ⟨_, _, rfl⟩
    · exact ⟨_, _, rfl⟩
  · rw [releaseTx_flows]
    split_ifs with hk
    · rw [hk]
      exact List.filter_subset_self _
    · exact List.Subset.refl _

theorem releaseTx_layout (h : w.Placed d) (hs : (w.streams s).tatt i = some a) :
    (w.releaseTx s i a).layout = w.layout.release a.flow s a.sid i := by
  have hlink : w.layout.link s i = some (a.flow, a.sid) := by
    change ((w.streams s).tatt i).map _ = _
    rw [hs]
    rfl
  have hcur : (w.streams s).tcuratt = some i := (h.cur s i).mpr (by rw [hlink]; simp)
  refine layout_ext (fun t => ?_) (fun k => ?_) rfl rfl rfl rfl
  · simp only [Layout.release, Function.update_apply]
    split_ifs with ht
    · subst ht
      rw [releaseTx_self, if_pos hcur]
      have hl : BaseStream.link { w.streams t with
          tcuratt := none
          tatt := Function.update (w.streams t).tatt i none
          tqflow := false } = Function.update (w.layout.link t) i none := by
        funext j
        simp only [BaseStream.link, Function.update_apply]
        split_ifs <;> rfl
      rw [BaseStream.place, hl]
      rfl
    · rw [releaseTx_of_ne ht]
      rfl
  · rw [releaseTx_flows]
    simp only [Layout.release, Function.update_apply]
    split_ifs with hk
    · subst hk
      rfl
    · rfl

theorem Held.release (h : Held e w)
    (hp : ∀ k seq p, (w.flows k).ackwait.lookup seq = some p → p.strm = s → e = some s) :
    Held e (w.releaseTx s i a) where
  root k := by
    have hb := h.root k
    by_cases ht : .root k = s
    · rw [ht] at hb ⊢
      rw [releaseTx_self]
      exact ⟨hb.1, rfl, hb.3, hb.4, hb.5, hb.6⟩
    · rw [releaseTx_of_ne ht]
      exact hb
  rsubs t c hc := by
    by_cases ht : t = s
    · rw [ht, releaseTx_self] at hc
      exact h.rsubs s c hc
    · rw [releaseTx_of_ne ht] at hc
      exact h.rsubs t c hc
  own t p hq := by
    by_cases ht : t = s
    · rw [ht, releaseTx_self] at hq
      exact ht ▸ h.own s p hq
    · rw [releaseTx_of_ne ht] at hq
      exact h.own t p hq
  waiting k seq p hk := by
    have hk' : (w.flows k).ackwait.lookup seq = some p := by
      rw [releaseTx_flows] at hk
      split_ifs at hk with hka
      · rw [hka]
        exact hk
      · exact hk
    obtain ⟨h1, h2, h3⟩ := h.waiting k seq p hk'
    refine ⟨h1, h2, ?_⟩
    by_cases hps : p.strm = s
    · exact .inl (hps ▸ hp k seq p hk' hps)
    · rw [releaseTx_of_ne hps]
      exact h3
  guarded k r hr := by
    rw [releaseTx_flows] at hr
    split_ifs at hr
    · exact h.guarded a.flow r hr
    · exact h.guarded k r hr

theorem Good.waits_on (h : Good d e w) {k sid : ℕ} (hp : (w.flows k).ackwait.lookup seq = some p)
    (hs : (w.streams p.strm).link i = some (f, sid)) (he : e ≠ some p.strm) : k = f := by
  obtain ⟨-, -, h3⟩ := h.held.waiting k seq p hp
  obtain ⟨j, sid', hj⟩ := h3.resolve_left he
  obtain rfl := h.placed.slot_unique hs hj
  rw [hs] at hj
  cases hj
  rfl

/-- **Clearing** an attachment of a stream that has no packets on the flow. -/
theorem clearTx_eq (hs : (w.streams s).tatt i = some a)
    (hp : ∀ seq p, (w.flows a.flow).ackwait.lookup seq = some p → p.strm ≠ s) :
    w.clearTx s i = (w.releaseTx s i a, []) := by
  unfold clearTx
  rw [hs]
  refine reclaim_none (fun seq p hq => hp seq p ?_) _
  rw [releaseTx_flows, if_pos rfl] at hq
  exact hq

theorem Good.release (h : Good d e w) (hs : (w.streams s).tatt i = some a)
    (hp : ∀ k seq p, (w.flows k).ackwait.lookup seq = some p → p.strm = s → e = some s) :
    Good d e (w.releaseTx s i a) := by
  refine ⟨?_, h.held.release hp⟩
  unfold Placed
  rw [releaseTx_layout h.placed hs]
  refine Layout.Sound.release h.placed ?_
  change ((w.streams s).tatt i).map _ = _
  rw [hs]
  rfl

/-- **The loop** that releases attachments of a flow without packets. -/
theorem clearAllTx_spec (h : Good d e w) (hack : ∀ seq, (w.flows f).ackwait.lookup seq = none)
    {atts : List (StrmId × Fin 2)}
    (hatts : ∀ x ∈ atts, ∀ k sid, (w.streams x.1).link x.2 = some (k, sid) → k = f) :
    (w.clearAllTx atts).2 = [] ∧ Good d e (w.clearAllTx atts).1 ∧
      Released w (w.clearAllTx atts).1 ∧
      (∀ x ∈ atts, ((w.clearAllTx atts).1.streams x.1).link x.2 = none) ∧
      ∀ t j k, ((w.clearAllTx atts).1.streams t).link j = some k →
        (w.streams t).link j = some k := by
  induction atts generalizing w with
  | nil => exact ⟨rfl, h, .refl w, fun _ hx => (nomatch hx), fun _ _ _ hk => hk⟩
  | cons x atts ih =>
    obtain ⟨s, i⟩ := x
    -- The first attachment is released, or was not in use.
    have hfirst : ∃ w', w.clearTx s i = (w', []) ∧ Good d e w' ∧ Released w w' ∧
        (∀ t j k, (w'.streams t).link j = some k → (w.streams t).link j = some k) ∧
        (w'.streams s).link i = none := by
      cases hs : (w.streams s).tatt i with
      | none =>
        refine ⟨w, ?_, h, .refl w, fun _ _ _ hk => hk, ?_⟩
        · unfold clearTx
          rw [hs]
        · rw [BaseStream.link, hs]
          rfl
      | some a =>
        have hlink : (w.streams s).link i = some (a.flow, a.sid) := by
          rw [BaseStream.link, hs]
          rfl
        have hf : a.flow = f := hatts _ List.mem_cons_self _ _ hlink
        have hnone : ∀ seq p, (w.flows a.flow).ackwait.lookup seq = some p → p.strm ≠ s := by
          intro seq p hp
          rw [hf, hack] at hp
          cases hp
        have hgood := h.release hs fun k seq p hp hps => by
          by_contra he
          have hk := h.waits_on hp (hps ▸ hlink) (hps ▸ he)
          rw [hk, hf, hack] at hp
          cases hp
        refine ⟨_, clearTx_eq hs hnone, hgood, releaseTx_released .., fun t j k hk => ?_, ?_⟩
        · have hlay := congrFun (congrFun (congrArg Layout.link (releaseTx_layout h.placed hs)) t) j
          rw [h.placed.release_link hlink] at hlay
          change ((w.releaseTx s i a).streams t).link j = _ at hlay
          rw [hk] at hlay
          split_ifs at hlay
          exact hlay.symm
        · rw [releaseTx_self]
          simp only [BaseStream.link, Function.update_self]
          rfl
    obtain ⟨w', hclear, hgood, hrel, hsub, hnone⟩ := hfirst
    have hack' : ∀ seq, (w'.flows f).ackwait.lookup seq = none := fun seq => by
      obtain ⟨_, _, hf⟩ := hrel.flows f
      rw [hf]
      exact hack seq
    obtain ⟨h1, h2, h3, h4, h5⟩ := ih hgood hack' fun x hx k sid hk =>
      hatts x (List.mem_cons_of_mem _ hx) k sid (hsub _ _ _ hk)
    unfold clearAllTx
    rw [hclear]
    refine ⟨h1, h2, hrel.trans h3, fun x hx => ?_, fun t j k hk => hsub t j k (h5 t j k hk)⟩
    obtain rfl | hx := List.mem_cons.mp hx
    · -- No loop attaches a stream again.
      by_contra hne
      obtain ⟨k, hk⟩ := Option.ne_none_iff_exists'.mp hne
      rw [h5 s i k hk] at hnone
      cases hnone
    · exact h4 x hx

/-! ## Detachment of the primary flow -/

theorem Good.returned (h : Good d e w) (hs : ∃ n, p.strm = .sub n) :
    Good d e (w.returned f seq p) := by
  unfold Peer.returned
  split_ifs with hlate hp
  · exact h
  · refine ⟨?_, h.held.report.segmentMissed hs hp⟩
    unfold Placed
    rw [segmentMissed_layout, report_layout]
    exact h.placed
  · exact ⟨h.placed, h.held.report⟩

theorem Good.waiters (h : Good d e w) (ws : List StrmId) : Good d e { w with waiters := ws } :=
  ⟨h.placed, h.held.congr rfl rfl⟩

theorem endflight_clock (w : Peer) (p : Packet) : (w.endflight p).clock = w.clock := by
  unfold endflight
  dsimp only
  split
  · split <;> rfl
  · rfl

theorem returned_clock (w : Peer) (f seq : ℕ) (p : Packet) :
    (w.returned f seq p).clock = w.clock := by
  unfold Peer.returned
  split_ifs
  · rfl
  · exact endflight_clock (w.report f seq) _
  · rfl

theorem returned_shrunk (w : Peer) (f seq : ℕ) (p : Packet) : Shrunk w (w.returned f seq p) := by
  refine ⟨fun s => ?_, fun k => ?_, fun k => ?_, returned_clock ..⟩
  · obtain ⟨_, _, hs⟩ := returned_kept w f seq p s
    rw [hs]
    rfl
  · rw [(returned_flow w f seq p).2]
  · rw [(returned_flow w f seq p).2]
    exact List.Subset.refl _

theorem Good.of_txsids (h : Good d e w) {x : StrmId × Fin 2}
    (hx : x ∈ (w.flows f).txsids.entries.map Sigma.snd) :
    ∃ sid, (w.streams x.1).link x.2 = some (f, sid) := by
  obtain ⟨⟨sid, y⟩, hy, rfl⟩ := List.mem_map.mp hx
  refine ⟨sid, (h.placed.sids f sid y.1 y.2).mp ?_⟩
  exact AList.mem_lookup_iff.mpr hy

theorem Good.mem_txsids (h : Good d e w) {sid : ℕ}
    (hs : (w.streams s).link i = some (f, sid)) :
    (s, i) ∈ (w.flows f).txsids.entries.map Sigma.snd := by
  have := (h.placed.sids f sid s i).mpr hs
  exact List.mem_map.mpr ⟨⟨sid, (s, i)⟩, AList.mem_lookup_iff.mp this, rfl⟩

/-- The flow `f` was the primary flow, and nothing is attached to it any more. -/
structure Drained (f : ℕ) (w : Peer) : Prop where
  good : Good (some f) none w
  flow : w.flow = none
  free : ∀ t j sid, (w.streams t).link j ≠ some (f, sid)

/-- A packet whose stream is not attached to a flow. -/
def Loose (w : Peer) (p : Packet) : Prop :=
  (w.streams p.strm).tcuratt = none ∧ (∃ n, p.strm = .sub n) ∧ (p.type = .data ∨ p.type = .attach)

theorem Drained.clear (h : Good (some f) none w) (hf : w.flow = none)
    (hack : ∀ seq, (w.flows f).ackwait.lookup seq = none) :
    (w.clearAllTx ((w.flows f).txsids.entries.map Sigma.snd)).2 = [] ∧
      Drained f (w.clearAllTx ((w.flows f).txsids.entries.map Sigma.snd)).1 ∧
      Released w (w.clearAllTx ((w.flows f).txsids.entries.map Sigma.snd)).1 ∧
      ∀ t j k, ((w.clearAllTx ((w.flows f).txsids.entries.map Sigma.snd)).1.streams t).link j =
        some k → (w.streams t).link j = some k := by
  have hown : ∀ x ∈ (w.flows f).txsids.entries.map Sigma.snd, ∀ k sid,
      (w.streams x.1).link x.2 = some (k, sid) → k = f := by
    intro x hx k sid hk
    obtain ⟨sid', hl⟩ := h.of_txsids hx
    rw [hl] at hk
    cases hk
    rfl
  obtain ⟨h1, h2, h3, h4, h5⟩ := clearAllTx_spec h hack hown
  refine ⟨h1, ⟨h2, (congrArg Peer.flow h3.rest).trans hf, fun t j sid hl => ?_⟩, h3, h5⟩
  rw [h4 (t, j) (h.mem_txsids (h5 t j _ hl))] at hl
  cases hl

theorem giveBackAll_spec (h : Drained f w) {l : List (Σ _ : ℕ, Packet)}
    (hl : ∀ x ∈ l, Loose w x.2) : (w.giveBackAll f l).2 = [] ∧ Drained f (w.giveBackAll f l).1 ∧
      Shrunk w (w.giveBackAll f l).1 ∧ (w.giveBackAll f l).1.flows = w.flows := by
  let I (l : List (Σ _ : ℕ, Packet)) (w' : Peer) : Prop :=
    Drained f w' ∧ (∀ x ∈ l, Loose w' x.2) ∧ Shrunk w w' ∧ w'.flows = w.flows
  have hquiet : ∀ w' seq p l, I (⟨seq, p⟩ :: l) w' → (w'.streams p.strm).tcuratt = none ∧
      (w'.flow = none ∨ (w'.streams p.strm).live = false) ∧
      (p.type = .data ∨ p.type = .attach) := by
    intro w' seq p l hI
    obtain ⟨hp1, -, hp2⟩ := hI.2.1 _ List.mem_cons_self
    exact ⟨hp1, .inl hI.1.flow, hp2⟩
  have hstep : ∀ w' seq p l ws, I (⟨seq, p⟩ :: l) w' →
      I l { w'.returned f seq p with waiters := ws } := by
    intro w' seq p l ws ⟨hd, hloose, hsh, hfl⟩
    have hkept := returned_kept w' f seq p
    refine ⟨⟨(hd.good.returned (hloose _ List.mem_cons_self).2.1).waiters ws,
      (returned_flow ..).1.trans hd.flow, fun t j sid => ?_⟩, fun x hx => ⟨?_, ?_⟩, ?_,
      (returned_flow ..).2.trans hfl⟩
    · obtain ⟨_, _, ht⟩ := hkept t
      change ((w'.returned f seq p).streams t).link j ≠ _
      rw [ht]
      exact hd.free t j sid
    · obtain ⟨_, _, ht⟩ := hkept x.2.strm
      change ((w'.returned f seq p).streams x.2.strm).tcuratt = none
      rw [ht]
      exact (hloose x (List.mem_cons_of_mem _ hx)).1
    · exact (hloose x (List.mem_cons_of_mem _ hx)).2
    · exact hsh.trans ((returned_shrunk w' f seq p).trans (.of_eq rfl rfl rfl))
  obtain ⟨h1, h2, -, h3⟩ := giveBackAll_rule hquiet hstep ⟨h, hl, .refl w, rfl⟩
  exact ⟨h1, h2, h3⟩

/-- The first part of `detachAll`: the table of packets is saved and emptied. -/
def emptied (w : Peer) (f : ℕ) : Peer :=
  { w with flow := none }.modFlow f fun x => { x with ackwait := ∅ }

theorem emptied_spec (h : Good none none w) (hf : w.flow = some f) :
    Good (some f) none (w.emptied f) ∧ (∀ seq, ((w.emptied f).flows f).ackwait.lookup seq = none) ∧
      Shrunk w (w.emptied f) := by
  refine ⟨⟨?_, ?_⟩, fun seq => ?_, ?_⟩
  · unfold Placed emptied
    rw [modFlow_layout rfl]
    exact Layout.Sound.leave h.placed hf
  · have h0 : Held none { w with flow := none } := h.held.congr rfl rfl
    unfold emptied
    refine h0.modFlow (fun seq p hp => ?_) fun _ hr => .inl hr
    change (∅ : AList fun _ : ℕ => Packet).lookup seq = some p at hp
    simp at hp
  · rw [emptied, modFlow_self]
    rfl
  · have h0 : Shrunk w { w with flow := none } := .of_eq rfl rfl rfl
    exact h0.trans (.modFlow _ f rfl rfl)

theorem loose_detached (h : Good none none w) (hf : w.flow = some f) :
    ∀ x ∈ (w.flows f).ackwait.entries, Loose
      ((w.emptied f).clearAllTx (((w.emptied f).flows f).txsids.entries.map Sigma.snd)).1
      x.2 := by
  obtain ⟨hgood, hack, -⟩ := emptied_spec h hf
  obtain ⟨-, hd, -, hlink⟩ := Drained.clear hgood rfl hack
  rintro ⟨seq, p⟩ hx
  obtain ⟨hsub, htype, hw⟩ := h.held.waiting f seq p (AList.mem_lookup_iff.mpr hx)
  refine ⟨?_, hsub, htype⟩
  -- The stream was attached to this flow, and to no other.
  obtain ⟨i, sid, hi⟩ := hw.resolve_left fun hn => (nomatch hn)
  by_contra hne
  obtain ⟨j, hj⟩ := Option.ne_none_iff_exists'.mp hne
  obtain ⟨k, hk⟩ := Option.ne_none_iff_exists'.mp ((hd.good.placed.cur _ j).mp hj)
  have hk' : (w.streams p.strm).link j = some k := hlink _ _ _ hk
  obtain rfl := h.placed.slot_unique hi hk'
  rw [hi] at hk'
  cases hk'
  exact hd.free _ _ _ hk

/-- **Detaching** the primary flow leaves the invariants intact, and no calls. -/
theorem clearPrimary_spec (h : Good none none w) :
    w.clearPrimary.2 = [] ∧ Good none none w.clearPrimary.1 ∧ w.clearPrimary.1.flow = none ∧
      Shrunk w w.clearPrimary.1 ∧
      ∀ k, (w.clearPrimary.1.flows k).active = (w.flows k).active := by
  unfold clearPrimary
  split
  · rename_i hf
    exact ⟨rfl, h, hf, .refl w, fun _ => rfl⟩
  rename_i f hf
  obtain ⟨hgood, hack, hsh⟩ := emptied_spec h hf
  obtain ⟨hfr, hd, hrel, -⟩ := Drained.clear hgood rfl hack
  obtain ⟨hfr', hd', hsh', hfl'⟩ := giveBackAll_spec hd (loose_detached h hf)
  refine ⟨?_, ⟨Layout.Sound.left hd'.good.placed hd'.free, hd'.good.held⟩, hd'.flow,
    hsh.trans (hrel.shrunk.trans hsh'), fun k => ?_⟩
  · change _ ++ _ = []
    exact List.append_eq_nil_iff.mpr ⟨hfr, hfr'⟩
  · obtain ⟨_, _, hk⟩ := hrel.flows k
    have hact : ((w.emptied f).flows k).active = (w.flows k).active := by
      unfold emptied
      rw [modFlow_flows]
      split_ifs with hkf
      · rw [hkf]
      · rfl
    refine (congrArg (fun x : ℕ → StreamFlow => (x k).active) hfl').trans ?_
    rw [hk]
    exact hact

/-! ## A flow that stops -/

theorem Good.clearRx (h : Good d e w) (s : StrmId) (i : Fin 2) : Good d e (w.clearRx s i) := by
  refine ⟨?_, h.held.clearRx⟩
  unfold Placed
  rw [clearRx_layout]
  exact h.placed

theorem clearRx_shrunk (w : Peer) (s : StrmId) (i : Fin 2) : Shrunk w (w.clearRx s i) := by
  unfold Peer.clearRx
  split
  · exact .refl w
  · exact (Shrunk.modStream w s rfl).trans (.modFlow _ _ rfl rfl)

theorem clearRx_live (w : Peer) (s t : StrmId) (i : Fin 2) :
    ((w.clearRx s i).streams t).live = (w.streams t).live := by
  unfold clearRx
  split
  · rfl
  · rw [modFlow_streams, modStream_streams]
    split_ifs with ht
    · rw [ht]
    · rfl

theorem clearAllRx_spec (h : Good d e w) (atts : List (StrmId × Fin 2)) :
    Good d e (w.clearAllRx atts) ∧ Shrunk w (w.clearAllRx atts) ∧
      ∀ t, ((w.clearAllRx atts).streams t).live = (w.streams t).live := by
  induction atts generalizing w with
  | nil => exact ⟨h, .refl w, fun _ => rfl⟩
  | cons x atts ih =>
    obtain ⟨h1, h2, h3⟩ := ih (h.clearRx x.1 x.2)
    exact ⟨h1, (clearRx_shrunk w x.1 x.2).trans h2,
      fun t => (h3 t).trans (clearRx_live w x.1 t x.2)⟩

theorem Good.no_packets (h : Good none none w) (hf : w.flow ≠ some f) (seq : ℕ) :
    (w.flows f).ackwait.lookup seq = none := by
  by_contra hne
  obtain ⟨p, hp⟩ := Option.ne_none_iff_exists'.mp hne
  obtain ⟨⟨n, hn⟩, -, hw⟩ := h.held.waiting f seq p hp
  obtain ⟨i, sid, hl⟩ := hw.resolve_left fun hx => (nomatch hx)
  rw [hn] at hl
  obtain hx | hx := h.placed.primary n i f sid hl
  · exact hf hx
  · cases hx

theorem Good.deactivate (h : Good none none w) (hf : w.flow ≠ some f) :
    Good none none (w.modFlow f fun x => { x with active := false, linkstat := .down }) := by
  refine ⟨?_, h.held.modFlow_eq rfl rfl⟩
  unfold Placed
  rw [layout_modFlow]
  simp only [update_txsids, update_tstreams, update_started]
  exact Layout.Sound.deactivate h.placed hf

/-- **Stopping** a flow that is not the primary flow. -/
theorem stop_spec (h : Good none none w) (hf : w.flow ≠ some f) :
    (w.stop f).2 = [] ∧ Good none none (w.stop f).1 ∧ Shrunk w (w.stop f).1 ∧
      ∀ t, ((w.stop f).1.streams t).live = (w.streams t).live := by
  have hgood := h.deactivate hf
  have hack : ∀ seq, ((w.modFlow f fun x => { x with active := false, linkstat := .down }).flows
      f).ackwait.lookup seq = none := by
    rw [modFlow_self]
    exact h.no_packets hf
  obtain ⟨h1, h2, h3, -, -⟩ := clearAllTx_spec hgood hack fun x hx k sid hk => by
    obtain ⟨sid', hl⟩ := hgood.of_txsids hx
    rw [hl] at hk
    cases hk
    rfl
  obtain ⟨h4, h5, h6⟩ := clearAllRx_spec h2 _
  refine ⟨h1, h4, (Shrunk.modFlow w f rfl rfl).trans (h3.shrunk.trans h5),
    fun t => (h6 t).trans ?_⟩
  obtain ⟨_, _, _, ht⟩ := h3.streams t
  rw [ht]
  rfl

/-! ## A stream that is gone -/

theorem Held.weaken (h : Held none w) (e : Option StrmId) : Held e w :=
  { h with
    waiting := fun f seq p hp => by
      obtain ⟨h1, h2, h3⟩ := h.waiting f seq p hp
      exact ⟨h1, h2, .inr (h3.resolve_left fun hn => (nomatch hn))⟩ }

theorem Held.settle (h : Held (some s) w)
    (hp : ∀ f seq p, (w.flows f).ackwait.lookup seq = some p → p.strm ≠ s) : Held none w :=
  { h with
    waiting := fun f seq p hq => by
      obtain ⟨h1, h2, h3⟩ := h.waiting f seq p hq
      refine ⟨h1, h2, .inr (h3.resolve_left fun hs => ?_)⟩
      cases hs
      exact hp f seq p hq rfl }

/-- The stream `s` is gone, its attachment to `f` is released, and the packets that it still has
there are among the numbers `l`. -/
structure Leaving (s : StrmId) (f : ℕ) (l : List ℕ) (w : Peer) : Prop where
  good : Good none (some s) w
  dead : (w.streams s).live = false
  detached : (w.streams s).tcuratt = none
  here : ∀ seq p, (w.flows f).ackwait.lookup seq = some p → p.strm = s → seq ∈ l
  only : ∀ k seq p, (w.flows k).ackwait.lookup seq = some p → p.strm = s → k = f

theorem Leaving.skip {l : List ℕ} (h : Leaving s f (seq :: l) w)
    (hp : ∀ p, (w.flows f).ackwait.lookup seq = some p → p.strm ≠ s) : Leaving s f l w :=
  { h with
    here := fun k p hk hps => by
      refine (List.mem_cons.mp (h.here k p hk hps)).resolve_left ?_
      rintro rfl
      exact hp p hk hps }

theorem Leaving.step {l : List ℕ} (h : Leaving s f (seq :: l) w)
    (hp : (w.flows f).ackwait.lookup seq = some p) (ws : List StrmId) :
    Leaving s f l ({ w.returned f seq p with waiters := ws }.takePacket f seq) := by
  have hkept := returned_kept w f seq p s
  have hflows := (returned_flow w f seq p).2
  have htake : ∀ k seq' q, ((({ w.returned f seq p with waiters := ws }.takePacket f seq).flows
      k).ackwait.lookup seq' = some q → (w.flows k).ackwait.lookup seq' = some q ∧
      (k = f → seq' ≠ seq)) := by
    intro k seq' q hq
    rw [takePacket, modFlow_flows] at hq
    split_ifs at hq with hk
    · by_cases hs : seq' = seq
      · rw [hs, AList.lookup_erase] at hq
        cases hq
      · rw [AList.lookup_erase_ne hs] at hq
        refine ⟨?_, fun _ => hs⟩
        rw [← hflows, hk]
        exact hq
    · refine ⟨?_, fun hkf => absurd hkf hk⟩
      rw [← hflows]
      exact hq
  obtain ⟨hsub, -, -⟩ := h.good.held.waiting f seq p hp
  have hret : Good none (some s) (w.returned f seq p) := h.good.returned hsub
  have hgood := hret.waiters ws
  obtain ⟨_, _, hs⟩ := hkept
  refine ⟨⟨?_, hgood.held.takePacket⟩, ?_, ?_, fun k q hk hqs => ?_, fun k seq' q hk hqs => ?_⟩
  · unfold Placed
    rw [takePacket_layout]
    exact hgood.placed
  · change ((w.returned f seq p).streams s).live = false
    rw [hs]
    exact h.dead
  · change ((w.returned f seq p).streams s).tcuratt = none
    rw [hs]
    exact h.detached
  · obtain ⟨hk', hne⟩ := htake f k q hk
    exact (List.mem_cons.mp (h.here k q hk' hqs)).resolve_left (hne rfl)
  · exact h.only k seq' q (htake k seq' q hk).1 hqs

theorem Leaving.start (h : Good none none w) (hs : (w.streams s).live = false)
    (ha : (w.streams s).tatt i = some a) :
    Leaving s a.flow (((w.releaseTx s i a).flows a.flow).ackwait.keys) (w.releaseTx s i a) := by
  have hlink : (w.streams s).link i = some (a.flow, a.sid) := by
    rw [BaseStream.link, ha]
    rfl
  have hrel := releaseTx_released w s i a
  have hack : ∀ k, ((w.releaseTx s i a).flows k).ackwait = (w.flows k).ackwait := fun k => by
    obtain ⟨_, _, hk⟩ := hrel.flows k
    rw [hk]
  have hgood : Good none (some s) w := ⟨h.placed, h.held.weaken _⟩
  refine ⟨hgood.release ha fun _ _ _ _ _ => rfl, ?_, ?_, fun seq p hp _ => ?_,
    fun k seq p hp hps => ?_⟩
  · rw [releaseTx_self]
    exact hs
  · have hcur : (w.streams s).tcuratt = some i := by
      refine (h.placed.cur s i).mpr ?_
      change (w.streams s).link i ≠ none
      rw [hlink]
      exact Option.some_ne_none _
    rw [releaseTx_self]
    exact if_pos hcur
  · exact AList.mem_keys.mp (AList.lookup_isSome.mp (by rw [hp]; rfl))
  · rw [hack] at hp
    exact h.waits_on hp (hps ▸ hlink) (Option.some_ne_none _).symm

/-- **Clearing** the attachment of a stream that is gone. -/
theorem clearTx_dead (h : Good none none w) (hs : (w.streams s).live = false) (i : Fin 2) :
    (w.clearTx s i).2 = [] ∧ Good none none (w.clearTx s i).1 ∧ Shrunk w (w.clearTx s i).1 ∧
      ((w.clearTx s i).1.streams s).live = false := by
  unfold clearTx
  split
  · exact ⟨rfl, h, .refl w, hs⟩
  rename_i a ha
  have hrel := releaseTx_released w s i a
  obtain ⟨h1, h2, h3⟩ := reclaim_rule (f := a.flow) (s := s)
    (I := fun l w' => Leaving s a.flow l w' ∧ Shrunk w w')
    (fun w' seq p l hI hp _ => ⟨hI.1.detached, .inr hI.1.dead,
      (hI.1.good.held.waiting _ seq p hp).2.1⟩)
    (fun w' seq l hI hp => ⟨hI.1.skip hp, hI.2⟩)
    (fun w' seq p l ws hI hp _ => by
      have hws : Shrunk (w'.returned a.flow seq p)
          { w'.returned a.flow seq p with waiters := ws } := .of_eq rfl rfl rfl
      exact ⟨hI.1.step hp ws,
        hI.2.trans ((returned_shrunk w' _ seq p).trans (hws.trans (.modFlow _ _ rfl rfl)))⟩)
    ⟨Leaving.start h hs ha, hrel.shrunk⟩
  refine ⟨h1, ⟨h2.good.placed, h2.good.held.settle fun k seq p hp hps => ?_⟩, h3, h2.dead⟩
  have hk := h2.only k seq p hp hps
  rw [hk] at hp
  exact absurd (h2.here seq p hp hps) List.not_mem_nil

theorem Good.modStream (h : Good d e w) {g : BaseStream → BaseStream}
    (hp : (g (w.streams s)).place = (w.streams s).place)
    (hg : Tame s (w.streams s) (g (w.streams s))) : Good d e (w.modStream s g) := by
  refine ⟨?_, h.held.modStream hg⟩
  unfold Placed
  rw [modStream_layout hp]
  exact h.placed

theorem resetAll_spec (h : Good d e w) (subs : List StrmId) :
    Good d e (w.resetAll subs).1 ∧ Shrunk w (w.resetAll subs).1 ∧
      ∀ fr ∈ (w.resetAll subs).2, fr.Sound := by
  induction subs generalizing w with
  | nil => exact ⟨h, .refl w, fun _ hfr => (nomatch hfr)⟩
  | cons s subs ih =>
    have hgood : Good d e (w.disconnect s).1 :=
      h.modStream (g := fun b => { b with state := .disconnected }) rfl
        (Slight.tame (.state (by decide)) _)
    have hshrunk : Shrunk w (w.disconnect s).1 :=
      .modStream w s (g := fun b => { b with state := .disconnected }) rfl
    obtain ⟨h1, h2, h3⟩ := ih hgood
    refine ⟨h1, hshrunk.trans h2, fun fr hfr => ?_⟩
    exact (List.mem_append.mp hfr).elim (BaseStream.callback_sound _ fr) (h3 fr)

/-- The first part of `BaseStream::clear`: the stream has no peer any more. -/
def buried (w : Peer) (s : StrmId) : Peer :=
  { w.modStream s fun b => { b with state := .disconnected, endwrite := true, live := false } with
    usids := fun u =>
      if w.usids u = some s ∧ (w.streams s).usid = some u then none else w.usids u
    waiters := w.waiters.filter (· ≠ s) }

theorem buried_spec (h : Good none none w) (s : StrmId) :
    Good none none (w.buried s) ∧ Shrunk w (w.buried s) ∧
      ((w.buried s).streams s).live = false := by
  refine ⟨⟨?_, Held.congr (h.held.modStream (s := s) (g := fun b =>
    { b with state := .disconnected, endwrite := true, live := false })
      ⟨fun _ _ hb => ⟨hb.1, hb.2, hb.3, fun hn => (nomatch hn), hb.5, hb.6⟩, fun _ hc => .inl hc,
        fun _ hp => .inl hp, fun _ _ hk => hk⟩) rfl rfl⟩, ?_, ?_⟩
  · have hlay := layout_modStream w s fun b =>
      { b with state := .disconnected, endwrite := true, live := false }
    simp only [update_tcuratt, update_tqflow, update_priority, update_stamp] at hlay
    have hlink : BaseStream.link { w.streams s with
        state := .disconnected, endwrite := true, live := false } = (w.streams s).link := rfl
    rw [hlink, update_link] at hlay
    have hburied : (w.buried s).layout = { w.layout with
        live := Function.update w.layout.live s false } := hlay
    unfold Placed
    rw [hburied]
    exact Layout.Sound.bury h.placed s
  · exact (Shrunk.modStream w s (g := fun b =>
      { b with state := .disconnected, endwrite := true, live := false }) rfl).trans
      (.of_eq rfl rfl rfl)
  · unfold buried
    simp only [modStream_self]

/-- **Deleting** a stream. -/
theorem deleteStream_spec (h : Good none none w) (s : StrmId) :
    Good none none (w.deleteStream s).1 ∧ Shrunk w (w.deleteStream s).1 ∧
      ∀ fr ∈ (w.deleteStream s).2, fr.Sound := by
  obtain ⟨hg₀, hs₀, hl₀⟩ := buried_spec h s
  obtain ⟨hf₁, hg₁, hs₁, hl₁⟩ := clearTx_dead hg₀ hl₀ 0
  have hl₁' := (clearRx_live _ s s 0).trans hl₁
  obtain ⟨hf₂, hg₂, hs₂, hl₂⟩ := clearTx_dead (hg₁.clearRx s 0) hl₁' 1
  obtain ⟨hg₃, hs₃, hf₃⟩ := resetAll_spec (hg₂.clearRx s 1) (w.streams s).rsubs
  refine ⟨?_, ?_, fun fr hfr => ?_⟩
  · exact hg₃.modStream (s := s) (g := fun b => { b with rsubs := [], listeners := [] }) rfl
      ⟨fun _ _ hb => ⟨hb.1, hb.2, hb.3, hb.4, hb.5, hb.6⟩, fun _ hc => (nomatch hc),
        fun _ hp => .inl hp, fun _ _ hk => hk⟩
  · refine hs₀.trans (hs₁.trans ((clearRx_shrunk _ s 0).trans (hs₂.trans
      ((clearRx_shrunk _ s 1).trans (hs₃.trans ?_)))))
    exact .modStream _ s (g := fun b => { b with rsubs := [], listeners := [] }) rfl
  · have hframes : (w.deleteStream s).2 = ((w.buried s).clearTx s 0).2 ++
        ((((w.buried s).clearTx s 0).1.clearRx s 0).clearTx s 1).2 ++
        (((((w.buried s).clearTx s 0).1.clearRx s 0).clearTx s 1).1.clearRx s 1 |>.resetAll
          (w.streams s).rsubs).2 := rfl
    rw [hframes, hf₁, hf₂] at hfr
    exact hf₃ fr hfr

end Peer

end Sst.Strm
