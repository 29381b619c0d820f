import Sst.Strm.Alike

/-!
# No segment is lost

Every segment written waits in the transmit queue of its stream, or in the table of a flow that has
not reported it lost, until a packet with its position is acknowledged.

* `Packet.Bears`, `Peer.Kept`: where a segment is kept.
* `Peer.Covered`: a segment with this position was acknowledged.
* `Custody l`: the invariant, while the packets `l` are on their way from one place to another.
* **`Peer.custody_apply`**: the acts preserve it.
* `Exec.Loyal`: the flows let a packet expire after they reported it.
* **`custody_reach`**, **`reliability`**: no segment is lost, in any run.
-/

namespace Sst.Strm

open Transition

/-- The packet bears the segment `i` of the stream `s`. -/
def Packet.Bears (p : Packet) (s : StrmId) (i : ℕ) : Prop := p.strm = s ∧ p.type = .data ∧ p.id = i

namespace Peer

/-- A data packet is a segment that its stream wrote. -/
def Genuine (w : Peer) (p : Packet) : Prop :=
  p.type = .data → (w.streams p.strm).written[p.id]? = some ⟨p.tsn, p.flags, p.payload⟩

/-- A segment waits to be sent, or for the report of its flow. -/
def Kept (w : Peer) (s : StrmId) (i : ℕ) : Prop :=
  (∃ p ∈ (w.streams s).tqueue, p.Bears s i) ∨
    ∃ f seq p, (w.flows f).ackwait.lookup seq = some p ∧ p.late = false ∧ p.Bears s i

/-- A segment at this position was acknowledged. -/
def Covered (w : Peer) (s : StrmId) (tsn : ℤ) : Prop :=
  ∃ j ∈ (w.streams s).ackedIds, ∃ seg, (w.streams s).written[j]? = some seg ∧ seg.tsn = tsn

theorem recordSegment_streams (w : Peer) (s : StrmId) (p : Packet) (t : StrmId) :
    (w.recordSegment s p).streams t = if t = s then
      { w.streams s with
        tasn := Word.wrap 32 ((w.streams s).tasn + p.payloadSize)
        twait := insert p.tsn (w.streams s).twait
        twaitsize := Word.wrap 32 ((w.streams s).twaitsize + p.payloadSize)
        written := (w.streams s).written ++ [⟨p.tsn, p.flags, p.payload⟩] }
    else w.streams t :=
  modStream_streams ..

theorem segmentAcked_eq (w : Peer) (p : Packet) :
    w.segmentAcked p = (w.endflight p).modStream p.strm fun b =>
      { (if p.tsn ∈ b.twait then
          { b with
            twait := b.twait.erase p.tsn
            twaitsize := Word.wrap 32 (b.twaitsize - p.payloadSize) }
        else b) with ackedIds := insert p.id b.ackedIds } := by
  unfold segmentAcked modStream
  simp only [Function.update_self, Function.update_idem]
  split_ifs <;> rfl

end Peer

/-- What the invariant says of a stream. -/
def BaseStream.segments (b : BaseStream) : List Packet × Finset ℤ × List Segment × Finset ℕ :=
  (b.tqueue, b.twait, b.written, b.ackedIds)

/-- The invariant, while the packets `l` are on their way. -/
structure Custody (l : List Packet) (w : Peer) : Prop where
  queue : ∀ s, ∀ p ∈ (w.streams s).tqueue, w.Genuine p
  table : ∀ f seq p, (w.flows f).ackwait.lookup seq = some p → w.Genuine p
  hand : ∀ p ∈ l, w.Genuine p
  below : ∀ f seq p, (w.flows f).ackwait.lookup seq = some p → seq < (w.flows f).txseq
  kept : ∀ s i seg, (w.streams s).written[i]? = some seg → w.Covered s seg.tsn ∨
    seg.tsn ∈ (w.streams s).twait ∧ (w.Kept s i ∨ ∃ p ∈ l, p.Bears s i)

namespace Custody

variable {l l' : List Packet} {w w' : Peer} {f seq : ℕ} {s : StrmId} {p : Packet}

theorem new : Custody [] Peer.new where
  queue _ _ hp := (nomatch hp)
  table f seq p hp := by
    change (∅ : AList fun _ : ℕ => Packet).lookup seq = some p at hp
    simp at hp
  hand _ hp := (nomatch hp)
  below f seq p hp := by
    change (∅ : AList fun _ : ℕ => Packet).lookup seq = some p at hp
    simp at hp
  kept _ i seg hseg := by
    change ([] : List Segment)[i]? = some seg at hseg
    simp at hseg

theorem congr (h : Custody l w) (hs : ∀ s, (w'.streams s).segments = (w.streams s).segments)
    (hf : ∀ f seq, (w'.flows f).ackwait.lookup seq = (w.flows f).ackwait.lookup seq)
    (ht : ∀ f seq p, (w.flows f).ackwait.lookup seq = some p →
      (w.flows f).txseq ≤ (w'.flows f).txseq) : Custody l w' := by
  simp only [BaseStream.segments, Prod.mk.injEq] at hs
  have hgen : ∀ p, w.Genuine p → w'.Genuine p := fun p hp htype => by
    rw [(hs p.strm).2.2.1]
    exact hp htype
  refine ⟨fun s p hp => hgen p (h.queue s p ((hs s).1 ▸ hp)), fun f seq p hp => ?_,
    fun p hp => hgen p (h.hand p hp), fun f seq p hp => ?_, fun s i seg hseg => ?_⟩
  · rw [hf] at hp
    exact hgen p (h.table f seq p hp)
  · rw [hf] at hp
    exact (h.below f seq p hp).trans_le (ht f seq p hp)
  · obtain ⟨h1, h2, h3, h4⟩ := hs s
    unfold Peer.Covered Peer.Kept
    simp only [h1, h2, h3, h4, hf] at hseg ⊢
    exact h.kept s i seg hseg

theorem alike (h : Custody l w) (hw : Alike w w') : Custody l w' := by
  refine h.congr (fun s => ?_) hw.lookup fun f _ _ _ => hw.txseq f
  have hs := hw.stock s
  simp only [BaseStream.stock, Prod.mk.injEq] at hs
  obtain ⟨h1, -, -, h2, -, h3, h4⟩ := hs
  simp only [BaseStream.segments, h1, h2, h3, h4]

/-- **A change of one stream** that keeps what it wrote: its packets come from its queue or from the
packets on their way, and so do the packets on their way afterwards. -/
theorem modStream (h : Custody l w) {g : BaseStream → BaseStream}
    (hwr : (g (w.streams s)).written = (w.streams s).written)
    (hq : ∀ p ∈ (g (w.streams s)).tqueue, p ∈ (w.streams s).tqueue ∨ w.Genuine p)
    (hl : ∀ p ∈ l', w.Genuine p) (hacked : (w.streams s).ackedIds ⊆ (g (w.streams s)).ackedIds)
    (hother : ∀ t i, t ≠ s → (∃ p ∈ l, p.Bears t i) → ∃ p ∈ l', p.Bears t i)
    (hkept : ∀ i seg, (w.streams s).written[i]? = some seg → seg.tsn ∈ (w.streams s).twait →
      (w.Kept s i ∨ ∃ p ∈ l, p.Bears s i) → (w.modStream s g).Covered s seg.tsn ∨
        seg.tsn ∈ (g (w.streams s)).twait ∧
          ((w.modStream s g).Kept s i ∨ ∃ p ∈ l', p.Bears s i)) :
    Custody l' (w.modStream s g) := by
  have hstr := Peer.modStream_streams w s
  have hwr' : ∀ t, ((w.modStream s g).streams t).written = (w.streams t).written := fun t => by
    rw [hstr]
    split_ifs with ht
    · rw [hwr, ht]
    · rfl
  have hgen : ∀ p, w.Genuine p → (w.modStream s g).Genuine p := fun p hp htype => by
    rw [hwr']
    exact hp htype
  have hcov : ∀ t n, w.Covered t n → (w.modStream s g).Covered t n := by
    rintro t n ⟨j, hj, seg, hseg, hn⟩
    refine ⟨j, ?_, seg, by rwa [hwr'], hn⟩
    rw [hstr]
    split_ifs with ht
    · exact hacked (ht ▸ hj)
    · exact hj
  refine ⟨fun t p hp => hgen p ?_, fun f seq p hp => hgen p (h.table f seq p hp),
    fun p hp => hgen p (hl p hp), h.below, fun t i seg hseg => ?_⟩
  · rw [hstr] at hp
    split_ifs at hp with ht
    · exact (hq p hp).elim (h.queue s p) id
    · exact h.queue t p hp
  · rw [hwr'] at hseg
    obtain hc | ⟨hmem, hk⟩ := h.kept t i seg hseg
    · exact .inl (hcov t _ hc)
    by_cases ht : t = s
    · subst ht
      rw [Peer.modStream_self]
      exact hkept i seg hseg hmem hk
    · refine .inr ⟨?_, ?_⟩
      · rw [hstr, if_neg ht]
        exact hmem
      · refine hk.imp (fun hk => ?_) (hother t i ht)
        refine hk.imp_left fun ⟨p, hp, hb⟩ => ⟨p, ?_, hb⟩
        rw [hstr, if_neg ht]
        exact hp

theorem discard (h : Custody (p :: l) w) (hp : p.type ≠ .data) : Custody l w :=
  { h with
    hand := fun q hq => h.hand q (List.mem_cons_of_mem _ hq)
    kept := fun s i seg hseg => (h.kept s i seg hseg).imp_right fun ⟨hmem, hk⟩ =>
      ⟨hmem, hk.imp_right fun ⟨q, hq, hb⟩ => by
        obtain rfl | hq := List.mem_cons.mp hq
        · exact absurd hb.2.1 hp
        · exact ⟨q, hq, hb⟩⟩ }

theorem admitted (h : Custody l w) (hp : w.Genuine p) : Custody (p :: l) w :=
  { h with
    hand := fun q hq => by
      obtain rfl | hq := List.mem_cons.mp hq
      · exact hp
      · exact h.hand q hq
    kept := fun s i seg hseg => (h.kept s i seg hseg).imp_right fun ⟨hmem, hk⟩ =>
      ⟨hmem, hk.imp_right fun ⟨q, hq, hb⟩ => ⟨q, List.mem_cons_of_mem _ hq, hb⟩⟩ }

theorem mark (h : Custody (p :: l) w) (late : Bool) (header : PacketType) :
    Custody ({ p with late := late, header := header } :: l) w :=
  { h with
    hand := fun q hq => by
      obtain rfl | hq := List.mem_cons.mp hq
      · exact h.hand p List.mem_cons_self
      · exact h.hand q (List.mem_cons_of_mem _ hq)
    kept := fun s i seg hseg => (h.kept s i seg hseg).imp_right fun ⟨hmem, hk⟩ =>
      ⟨hmem, hk.imp_right fun ⟨q, hq, hb⟩ => by
        obtain rfl | hq := List.mem_cons.mp hq
        · exact ⟨_, List.mem_cons_self, hb⟩
        · exact ⟨q, List.mem_cons_of_mem _ hq, hb⟩⟩ }

/-! ## Tables -/

theorem lookup_takePacket {k seq' : ℕ} {q : Packet}
    (hq : ((w.takePacket f seq).flows k).ackwait.lookup seq' = some q) :
    (w.flows k).ackwait.lookup seq' = some q ∧ ¬(k = f ∧ seq' = seq) := by
  rw [Peer.takePacket, Peer.modFlow_flows] at hq
  split_ifs at hq with hk
  · subst hk
    by_cases hs : seq' = seq
    · rw [hs, AList.lookup_erase] at hq
      cases hq
    · rw [AList.lookup_erase_ne hs] at hq
      exact ⟨hq, fun hn => hs hn.2⟩
  · exact ⟨hq, fun hn => hk hn.1⟩

theorem lookup_takePacket_of {k seq' : ℕ} {q : Packet}
    (hq : (w.flows k).ackwait.lookup seq' = some q) (hne : ¬(k = f ∧ seq' = seq)) :
    ((w.takePacket f seq).flows k).ackwait.lookup seq' = some q := by
  rw [Peer.takePacket, Peer.modFlow_flows]
  split_ifs with hk
  · subst hk
    rw [AList.lookup_erase_ne fun hs => hne ⟨rfl, hs⟩]
    exact hq
  · exact hq

/-- **A packet leaves a table**: one that is not late is on its way. -/
theorem take (h : Custody l w) (hl : ∀ p ∈ l', w.Genuine p) (hsub : l ⊆ l')
    (hp : ∀ p, (w.flows f).ackwait.lookup seq = some p → p.late = false → p ∈ l') :
    Custody l' (w.takePacket f seq) := by
  refine ⟨h.queue, fun k seq' q hq => h.table k seq' q (lookup_takePacket hq).1, hl,
    fun k seq' q hq => ?_, fun s i seg hseg => ?_⟩
  · have hlt := h.below k seq' q (lookup_takePacket hq).1
    rw [Peer.takePacket, Peer.modFlow_flows]
    split_ifs with hk
    · exact hk ▸ hlt
    · exact hlt
  · refine (h.kept s i seg hseg).imp_right ?_
    rintro ⟨hmem, (hq | ⟨k, seq', q, hq, hlate, hb⟩) | ⟨q, hq, hb⟩⟩ <;> refine ⟨hmem, ?_⟩
    · exact .inl (.inl hq)
    · by_cases hne : k = f ∧ seq' = seq
      · obtain ⟨rfl, rfl⟩ := hne
        exact .inr ⟨q, hp q hq hlate, hb⟩
      · exact .inl (.inr ⟨k, seq', q, lookup_takePacket_of hq hne, hlate, hb⟩)
    · exact .inr ⟨q, hsub hq, hb⟩

theorem take_some (h : Custody l w) (hp : (w.flows f).ackwait.lookup seq = some p) :
    Custody (p :: l) (w.takePacket f seq) := by
  refine h.take (fun q hq => ?_) (List.subset_cons_self ..) fun q hq _ => ?_
  · obtain rfl | hq := List.mem_cons.mp hq
    · exact h.table f seq q hp
    · exact h.hand q hq
  · cases hp.symm.trans hq
    exact List.mem_cons_self

theorem take_late (h : Custody l w)
    (hp : ∀ p, (w.flows f).ackwait.lookup seq = some p → p.late = true) :
    Custody l (w.takePacket f seq) :=
  h.take h.hand (List.Subset.refl _) fun q hq hlate => by
    rw [hp q hq] at hlate
    cases hlate

/-- **A packet in a table is presumed lost**: it is on its way back. -/
theorem markLate (h : Custody l w) (hp : (w.flows f).ackwait.lookup seq = some p) :
    Custody (p :: l) (w.markLate f seq p) := by
  have hgen := h.table f seq p hp
  have hlookup : ∀ k seq', ((w.markLate f seq p).flows k).ackwait.lookup seq' =
      if k = f ∧ seq' = seq then some { p with late := true }
      else (w.flows k).ackwait.lookup seq' := by
    intro k seq'
    rw [Peer.markLate, Peer.modFlow_flows]
    by_cases hk : k = f
    · subst hk
      by_cases hs : seq' = seq
      · subst hs
        simp only [if_true, and_self, AList.lookup_insert]
      · simp only [hs, and_false, if_false, if_true, AList.lookup_insert_ne hs]
    · simp only [hk, false_and, if_false]
  have htx : ∀ k, ((w.markLate f seq p).flows k).txseq = (w.flows k).txseq := fun k => by
    rw [Peer.markLate, Peer.modFlow_flows]
    split_ifs with hk
    · rw [hk]
    · rfl
  refine ⟨h.queue, fun k seq' q hq => ?_, fun q hq => ?_, fun k seq' q hq => ?_,
    fun s i seg hseg => ?_⟩
  · rw [hlookup] at hq
    split_ifs at hq
    · cases hq
      exact hgen
    · exact h.table k seq' q hq
  · obtain rfl | hq := List.mem_cons.mp hq
    · exact hgen
    · exact h.hand q hq
  · rw [htx]
    rw [hlookup] at hq
    split_ifs at hq with hk
    · rw [hk.1, hk.2]
      exact h.below f seq p hp
    · exact h.below k seq' q hq
  · refine (h.kept s i seg hseg).imp_right fun ⟨hmem, hk⟩ => ⟨hmem, ?_⟩
    obtain (hq | ⟨k, seq', q, hq, hlate, hb⟩) | ⟨q, hq, hb⟩ := hk
    · exact .inl (.inl hq)
    · by_cases hne : k = f ∧ seq' = seq
      · obtain ⟨rfl, rfl⟩ := hne
        cases hp.symm.trans hq
        exact .inr ⟨p, List.mem_cons_self, hb⟩
      · refine .inl (.inr ⟨k, seq', q, ?_, hlate, hb⟩)
        rw [hlookup, if_neg hne]
        exact hq
    · exact .inr ⟨q, List.mem_cons_of_mem _ hq, hb⟩

/-- **A packet is sent**, and its flow waits for the report. -/
theorem sent (h : Custody (p :: l) w) {wire : Wire} {forced : Bool} :
    Custody l ((w.awaitAck f p).flowTransmit f s wire forced) := by
  have hgen := h.hand p List.mem_cons_self
  have hlookup : ∀ k seq', (((w.awaitAck f p).flowTransmit f s wire forced).flows k).ackwait.lookup
      seq' = if k = f ∧ seq' = (w.flows f).txseq then some { p with late := false }
      else (w.flows k).ackwait.lookup seq' := by
    intro k seq'
    rw [Peer.flowTransmit, Peer.modFlow_flows, Peer.awaitAck, Peer.modFlow_self, Peer.modFlow_flows]
    by_cases hk : k = f
    · subst hk
      by_cases hs : seq' = (w.flows k).txseq
      · subst hs
        simp only [if_true, and_self, AList.lookup_insert]
      · simp only [hs, and_false, if_false, if_true, AList.lookup_insert_ne hs]
    · simp only [hk, false_and, if_false]
  have htx : ∀ k, (((w.awaitAck f p).flowTransmit f s wire forced).flows k).txseq =
      if k = f then (w.flows f).txseq + 1 else (w.flows k).txseq := fun k => by
    rw [Peer.flowTransmit, Peer.modFlow_flows, Peer.awaitAck, Peer.modFlow_self, Peer.modFlow_flows]
    split_ifs <;> rfl
  refine ⟨h.queue, fun k seq' q hq => ?_, fun q hq => h.hand q (List.mem_cons_of_mem _ hq),
    fun k seq' q hq => ?_, fun t i seg hseg => ?_⟩
  · rw [hlookup] at hq
    split_ifs at hq
    · cases hq
      exact hgen
    · exact h.table k seq' q hq
  · rw [htx]
    rw [hlookup] at hq
    by_cases hk : k = f ∧ seq' = (w.flows f).txseq
    · rw [if_pos hk.1, hk.2]
      exact Nat.lt_succ_self _
    · rw [if_neg hk] at hq
      have hlt := h.below k seq' q hq
      split_ifs with hkf
      · rw [hkf] at hlt
        exact Nat.lt_succ_of_lt hlt
      · exact hlt
  · refine (h.kept t i seg hseg).imp_right fun ⟨hmem, hk⟩ => ⟨hmem, ?_⟩
    obtain (hq | ⟨k, seq', q, hq, hlate, hb⟩) | ⟨q, hq, hb⟩ := hk
    · exact .inl (.inl hq)
    · -- The number is new, so that no packet is overwritten.
      refine .inl (.inr ⟨k, seq', q, ?_, hlate, hb⟩)
      have hlt := h.below k seq' q hq
      rw [hlookup, if_neg]
      · exact hq
      · rintro ⟨rfl, rfl⟩
        exact absurd hlt (lt_irrefl _)
    · obtain rfl | hq := List.mem_cons.mp hq
      · refine .inl (.inr ⟨f, (w.flows f).txseq, { q with late := false }, ?_, rfl, hb⟩)
        rw [hlookup, if_pos ⟨rfl, rfl⟩]
      · exact .inr ⟨q, hq, hb⟩

/-! ## Streams -/

theorem segments (h : Custody l w) {g : BaseStream → BaseStream}
    (hg : (g (w.streams s)).segments = (w.streams s).segments) : Custody l (w.modStream s g) := by
  refine h.congr (fun t => ?_) (fun _ _ => rfl) fun _ _ _ _ => le_rfl
  rw [Peer.modStream_streams]
  split_ifs with ht
  · rw [hg, ht]
  · rfl

theorem startflight (h : Custody l w) {n : ℕ} : Custody l (w.startflight f s n) :=
  (h.segments (s := s) (g := fun b => { b with tflt := Word.wrap 32 (b.tflt + n) }) rfl).congr
    (fun _ => rfl) (fun _ _ => rfl) fun _ _ _ _ => le_rfl

theorem endflight (h : Custody l w) {p : Packet} : Custody l (w.endflight p) := by
  unfold Peer.endflight
  dsimp only
  split
  · split
    · exact h.segments rfl
    · exact h
  · exact h.segments rfl

theorem report (h : Custody l w) : Custody l (w.report f seq) :=
  h.congr (fun _ => rfl) (fun _ _ => rfl) fun _ _ _ _ => le_rfl

/-- **The head of a transmit queue** is on its way. -/
theorem unqueue (h : Custody l w) {rest : List Packet} (hq : (w.streams s).tqueue = p :: rest) :
    Custody (p :: l) (w.setQueue s rest) := by
  have hp : p ∈ (w.streams s).tqueue := hq ▸ List.mem_cons_self
  refine h.modStream rfl (fun q hr => .inl (hq ▸ List.mem_cons_of_mem _ hr)) (fun q hr => ?_)
    (Finset.Subset.refl _) (fun t i _ ⟨q, hr, hb⟩ => ⟨q, List.mem_cons_of_mem _ hr, hb⟩)
    fun i seg hseg hmem hk => .inr ⟨hmem, ?_⟩
  · obtain rfl | hr := List.mem_cons.mp hr
    · exact h.queue s q hp
    · exact h.hand q hr
  · obtain (⟨q, hr, hb⟩ | hk) | ⟨q, hr, hb⟩ := hk
    · rw [hq] at hr
      obtain rfl | hr := List.mem_cons.mp hr
      · exact .inr ⟨q, List.mem_cons_self, hb⟩
      · refine .inl (.inl ⟨q, ?_, hb⟩)
        rw [Peer.modStream_self]
        exact hr
    · exact .inl (.inr hk)
    · exact .inr ⟨q, List.mem_cons_of_mem _ hr, hb⟩

/-- **A packet enters the transmit queue** of its stream. -/
theorem insertPacket (h : Custody (p :: l) w) (hs : p.strm = s) :
    Custody l (w.modStream s (·.insertPacket p)) := by
  refine h.modStream rfl (fun q hq => ?_) (fun q hq => h.hand q (List.mem_cons_of_mem _ hq))
    (Finset.Subset.refl _) (fun t i ht ⟨q, hq, hb⟩ => ?_) fun i seg hseg hmem hk => .inr ⟨hmem, ?_⟩
  · obtain rfl | hq := Peer.mem_insertPacket.mp hq
    · exact .inr (h.hand q List.mem_cons_self)
    · exact .inl hq
  · obtain rfl | hq := List.mem_cons.mp hq
    · exact absurd (hb.1.symm.trans hs) ht
    · exact ⟨q, hq, hb⟩
  · have hin : ∀ q, q = p ∨ q ∈ (w.streams s).tqueue →
        q ∈ ((w.modStream s (·.insertPacket p)).streams s).tqueue := fun q hq => by
      rw [Peer.modStream_self]
      exact Peer.mem_insertPacket.mpr hq
    obtain (⟨q, hq, hb⟩ | hk) | ⟨q, hq, hb⟩ := hk
    · exact .inl (.inl ⟨q, hin q (.inr hq), hb⟩)
    · exact .inl (.inr hk)
    · obtain rfl | hq := List.mem_cons.mp hq
      · exact .inl (.inl ⟨q, hin q (.inl rfl), hb⟩)
      · exact .inr ⟨q, hq, hb⟩

/-- **A segment is lost**, and back in the transmit queue. -/
theorem segmentMissed (h : Custody (p :: l) w) : Custody l (w.segmentMissed p) := by
  have hflight : Custody (p :: l) (w.endflight p) := h.endflight
  exact hflight.insertPacket rfl

/-- **A packet goes back** to its stream, unless it did so before. -/
theorem returned (h : Custody (if p.late then l else p :: l) w) :
    Custody l (w.returned f seq p) := by
  unfold Peer.returned
  split_ifs with hlate htype
  · rwa [if_pos hlate] at h
  · rw [if_neg hlate] at h
    have hrep : Custody (p :: l) (w.report f seq) := h.report
    exact (hrep.mark true p.header).segmentMissed
  · rw [if_neg hlate] at h
    exact (h.discard htype).report

/-- **A segment is acknowledged**, and with it all segments at its position. -/
theorem segmentAcked (h : Custody (p :: l) w) (hp : p.type = .data) :
    Custody l (w.segmentAcked p) := by
  have hflight : Custody (p :: l) (w.endflight p) := h.endflight
  have hgen := hflight.hand p List.mem_cons_self hp
  rw [Peer.segmentAcked_eq]
  refine hflight.modStream ?_ (fun q hq => .inl ?_)
    (fun q hq => hflight.hand q (List.mem_cons_of_mem _ hq)) (Finset.subset_insert _ _)
    (fun t i ht ⟨q, hq, hb⟩ => ?_) fun i seg hseg hmem hk => ?_
  · dsimp only
    split_ifs <;> rfl
  · dsimp only at hq
    split_ifs at hq <;> exact hq
  · obtain rfl | hq := List.mem_cons.mp hq
    · exact absurd hb.1.symm ht
    · exact ⟨q, hq, hb⟩
  · by_cases htsn : seg.tsn = p.tsn
    · -- This very packet covers the position.
      refine .inl ⟨p.id, ?_, ⟨p.tsn, p.flags, p.payload⟩, ?_, htsn.symm⟩
      · rw [Peer.modStream_self]
        exact Finset.mem_insert_self _ _
      · rw [Peer.modStream_self]
        dsimp only
        split_ifs <;> exact hgen
    · refine .inr ⟨?_, ?_⟩
      · dsimp only
        split_ifs
        · exact Finset.mem_erase.mpr ⟨htsn, hmem⟩
        · exact hmem
      · obtain (⟨q, hq, hb⟩ | hk) | ⟨q, hq, hb⟩ := hk
        · refine .inl (.inl ⟨q, ?_, hb⟩)
          rw [Peer.modStream_self]
          dsimp only
          split_ifs <;> exact hq
        · exact .inl (.inr hk)
        · obtain rfl | hq := List.mem_cons.mp hq
          · -- A packet bears the position of its segment.
            have hid := hb.2.2
            rw [← hid, hgen] at hseg
            cases hseg
            exact absurd rfl htsn
          · exact .inr ⟨q, hq, hb⟩

/-- **A segment is written**: it is on its way to the transmit queue. -/
theorem recordSegment (h : Custody l w) (data : List UInt8) (endflags : Flags) :
    Custody (w.nextSegment s data endflags :: l)
      (w.recordSegment s (w.nextSegment s data endflags)) := by
  generalize hp : w.nextSegment s data endflags = p
  have hstrm : p.strm = s := by rw [← hp]; rfl
  have hid : p.id = (w.streams s).written.length := by rw [← hp]; rfl
  have hstr := Peer.recordSegment_streams w s p
  have hwr : ∀ t i seg, (w.streams t).written[i]? = some seg →
      ((w.recordSegment s p).streams t).written[i]? = some seg := fun t i seg hseg => by
    rw [hstr]
    split_ifs with ht
    · rw [ht] at hseg
      exact (List.getElem?_append_left (List.getElem?_eq_some_iff.mp hseg).1).trans hseg
    · exact hseg
  have hq : ∀ t, ((w.recordSegment s p).streams t).tqueue = (w.streams t).tqueue := fun t => by
    rw [hstr]
    split_ifs with ht
    · rw [ht]
    · rfl
  have hgen : ∀ q, w.Genuine q → (w.recordSegment s p).Genuine q := fun q hq htype =>
    hwr _ _ _ (hq htype)
  have hself : (w.recordSegment s p).Genuine p := fun _ => by
    rw [hstr, hstrm, if_pos rfl, hid]
    exact List.getElem?_concat_length
  refine ⟨fun t q hq' => hgen q (h.queue t q (hq t ▸ hq')), fun f seq q hq' => hgen q
    (h.table f seq q hq'), fun q hq' => ?_, h.below, fun t i seg hseg => ?_⟩
  · obtain rfl | hq' := List.mem_cons.mp hq'
    · exact hself
    · exact hgen q (h.hand q hq')
  -- An old segment is where it was, and the new one is on its way.
  by_cases hold : ∃ seg', (w.streams t).written[i]? = some seg'
  · obtain ⟨seg', hseg'⟩ := hold
    rw [hwr t i seg' hseg'] at hseg
    cases hseg
    refine (h.kept t i _ hseg').imp (fun ⟨j, hj, seg, hseg, hn⟩ =>
      ⟨j, ?_, seg, hwr t j seg hseg, hn⟩)
      fun ⟨hmem, hk⟩ => ⟨?_, hk.imp (fun hk => ?_) fun ⟨q, hq', hb⟩ =>
        ⟨q, List.mem_cons_of_mem _ hq', hb⟩⟩
    · rw [hstr]
      split_ifs with ht
      · exact ht ▸ hj
      · exact hj
    · rw [hstr]
      split_ifs with ht
      · exact Finset.mem_insert_of_mem (ht ▸ hmem)
      · exact hmem
    · exact hk.imp_left fun ⟨q, hq', hb⟩ => ⟨q, (hq t).symm ▸ hq', hb⟩
  · have ht : t = s := by
      by_contra hne
      rw [hstr, if_neg hne] at hseg
      exact hold ⟨seg, hseg⟩
    subst ht
    have hi : i = (w.streams t).written.length := by
      have hlt := (List.getElem?_eq_some_iff.mp hseg).1
      rw [hstr, if_pos rfl, List.length_append, List.length_singleton] at hlt
      have hge : (w.streams t).written.length ≤ i := by
        by_contra hlt'
        exact hold ⟨_, List.getElem?_eq_getElem (Nat.lt_of_not_le hlt')⟩
      omega
    rw [hi, ← hid] at hseg
    have hseg' := hself (by rw [← hp]; rfl)
    rw [hstrm, hseg] at hseg'
    cases hseg'
    refine .inr ⟨?_, .inr ⟨p, List.mem_cons_self, hstrm, by rw [← hp]; rfl, hid.trans hi.symm⟩⟩
    rw [hstr, if_pos rfl]
    exact Finset.mem_insert_self _ _

theorem mem_dropWhile_of_not {q : Packet} {test : Packet → Bool} {l : List Packet} (hq : q ∈ l)
    (htest : test q = false) : q ∈ l.dropWhile test := by
  induction l with
  | nil => exact hq
  | cons r l ih =>
    rw [List.dropWhile_cons]
    split_ifs with hr
    · obtain rfl | hq := List.mem_cons.mp hq
      · rw [htest] at hr
        cases hr
      · exact ih hq
    · exact hq

/-- **The garbage collection** drops what was acknowledged. -/
theorem collect (h : Custody l w) :
    Custody l (w.modStream s fun b => { b with tqflow := false }.collect) := by
  refine h.modStream rfl (fun q hq => .inl ((List.dropWhile_suffix _).subset hq)) h.hand
    (Finset.Subset.refl _) (fun t i _ hk => hk) fun i seg hseg hmem hk => .inr ⟨hmem, ?_⟩
  refine hk.imp_left fun hk => hk.imp_left fun ⟨q, hq, hb⟩ => ⟨q, ?_, hb⟩
  have hgen := h.queue s q hq hb.2.1
  rw [hb.1, hb.2.2, hseg] at hgen
  cases hgen
  rw [Peer.modStream_self]
  refine mem_dropWhile_of_not hq ?_
  simp only [hmem, not_true_eq_false, decide_false, Bool.and_false]

/-- **A new stream** has written nothing, and no packet is its own. -/
theorem newStream (h : Custody l w) {b : BaseStream} (hq : b.tqueue = []) (hw : b.written = [])
    (hown : ∀ t, ∀ p ∈ (w.streams t).tqueue, p.strm = t)
    (htable : ∀ f seq p, (w.flows f).ackwait.lookup seq = some p → p.strm ≠ s)
    (hhand : ∀ p ∈ l, p.strm ≠ s) : Custody l (w.modStream s fun _ => b) := by
  have hstr := Peer.modStream_streams w s
  have hgen : ∀ p, p.strm ≠ s → w.Genuine p → (w.modStream s fun _ => b).Genuine p :=
    fun p hs hp htype => by
      rw [hstr, if_neg hs]
      exact hp htype
  refine ⟨fun t p hp => ?_, fun f seq p hp => hgen p (htable f seq p hp) (h.table f seq p hp),
    fun p hp => hgen p (hhand p hp) (h.hand p hp), h.below, fun t i seg hseg => ?_⟩
  · rw [hstr] at hp
    split_ifs at hp with ht
    · rw [hq] at hp
      cases hp
    · exact hgen p ((hown t p hp).trans_ne ht) (h.queue t p hp)
  · rw [hstr] at hseg
    split_ifs at hseg with ht
    · rw [hw] at hseg
      simp at hseg
    · unfold Peer.Covered Peer.Kept
      simp only [hstr, if_neg ht]
      exact h.kept t i seg hseg

end Custody

namespace Peer

variable {w : Peer} {f seq : ℕ} {s : StrmId} {p : Packet}

theorem Good.own (h : Good none none w) : ∀ t, ∀ p ∈ (w.streams t).tqueue, p.strm = t :=
  fun t p hp => (h.held.own t p hp).1

theorem Good.not_fresh (h : Good none none w) (hs : ∀ i, (w.streams s).link i = none) (f seq : ℕ)
    (p : Packet) (hp : (w.flows f).ackwait.lookup seq = some p) : p.strm ≠ s := by
  rintro rfl
  obtain ⟨-, -, hw⟩ := h.held.waiting f seq p hp
  obtain ⟨i, sid, hl⟩ := hw.resolve_left fun hn => (nomatch hn)
  rw [hs i] at hl
  cases hl

theorem Good.fresh_sub (h : Good none none w) :
    ∀ i, (w.streams (.sub w.nextStream)).link i = none :=
  fun i => (Layout.Sound.free h.placed (h.placed.freshStream _ le_rfl).2).link i

theorem Good.fresh_root (h : Good none none w) :
    ∀ i, (w.streams (.root w.nextFlow)).link i = none :=
  fun i => (Layout.Sound.free h.placed (h.placed.freshFlow _ le_rfl).2).link i

theorem Good.fresh_flow (h : Good none none w) (seq : ℕ) :
    (w.flows w.nextFlow).ackwait.lookup seq = none := by
  refine h.no_packets (fun hf => ?_) seq
  have hlt := (h.placed.started _ (h.placed.active _ hf)).1
  exact absurd hlt (lt_irrefl _)

theorem custody_newStream (h : Good none none w) (hc : Custody [] w) {b : BaseStream}
    (hq : b.tqueue = []) (hw : b.written = []) : Custody [] (w.newStream b) := by
  have hnew := hc.newStream (s := .sub w.nextStream) hq hw h.own (h.not_fresh h.fresh_sub)
    fun p hp => (nomatch hp)
  exact hnew.congr (fun _ => rfl) (fun _ _ => rfl) fun _ _ _ _ => le_rfl

theorem custody_createSub (h : Good none none w) (hc : Custody [] w) (f : ℕ) (q : StrmId)
    (u : Usid) : Custody [] (w.createSub f q u) := by
  have hnew : ∀ state, Custody []
      ((w.newStream (.new (some q) (w.streams q).listenMode state)).setUsid
        (.sub w.nextStream) u) :=
    fun state => by
      have hname := (custody_newStream h hc (b := .new (some q) (w.streams q).listenMode state) rfl
        rfl).segments (s := .sub w.nextStream) (g := fun b => { b with usid := some u }) rfl
      exact hname.congr (fun _ => rfl) (fun _ _ => rfl) fun _ _ _ _ => le_rfl
  unfold createSub
  dsimp only
  split_ifs
  · exact hnew .accepting
  · exact (hnew .connected).segments rfl

theorem custody_newFlow (h : Good none none w) (hc : Custody [] w) : Custody [] w.newFlow := by
  have hnew := hc.newStream (s := .root w.nextFlow) (b := rootStream w.nextFlow) rfl rfl h.own
    (h.not_fresh h.fresh_root) fun p hp => (nomatch hp)
  have hold : ∀ k, k ≠ w.nextFlow → w.newFlow.flows k = w.flows k := fun k hk =>
    Function.update_of_ne hk ..
  refine hnew.congr (fun _ => rfl) (fun k seq => ?_) fun k seq q hq => ?_
  · by_cases hk : k = w.nextFlow
    · rw [hk]
      refine Eq.trans ?_ (h.fresh_flow seq).symm
      change (Function.update w.flows w.nextFlow _ w.nextFlow).ackwait.lookup seq = none
      rw [Function.update_self]
      exact AList.lookup_empty seq
    · rw [hold k hk]
      rfl
  · by_cases hk : k = w.nextFlow
    · rw [hk] at hq
      cases (h.fresh_flow seq).symm.trans hq
    · rw [hold k hk]
      exact le_rfl

/-- The packets of a table that go back when its flow is detached. -/
def owed (l : List (Σ _ : ℕ, Packet)) : List Packet := (l.map Sigma.snd).filter (!·.late)

theorem owed_cons (seq : ℕ) (p : Packet) (l : List (Σ _ : ℕ, Packet)) :
    owed (⟨seq, p⟩ :: l) = if p.late then owed l else p :: owed l := by
  unfold owed
  rw [List.map_cons, List.filter_cons]
  cases p.late <;> rfl

theorem mem_owed {l : List (Σ _ : ℕ, Packet)} {p : Packet} :
    p ∈ owed l ↔ p.late = false ∧ ∃ seq, ⟨seq, p⟩ ∈ l := by
  unfold owed
  simp only [List.mem_filter, List.mem_map, Bool.not_eq_true', Sigma.exists, exists_eq_right]
  exact And.comm

theorem custody_emptied (hc : Custody [] w) (f : ℕ) :
    Custody (owed (w.flows f).ackwait.entries) (w.emptied f) := by
  have hflow : ∀ k, ((w.emptied f).flows k) =
      if k = f then { w.flows f with ackwait := ∅ } else w.flows k := fun k => modFlow_flows ..
  have hlookup : ∀ k seq q, ((w.emptied f).flows k).ackwait.lookup seq = some q →
      k ≠ f ∧ (w.flows k).ackwait.lookup seq = some q := fun k seq q hq => by
    rw [hflow] at hq
    split_ifs at hq with hk
    · cases (AList.lookup_empty seq).symm.trans hq
    · exact ⟨hk, hq⟩
  refine ⟨hc.queue, fun k seq q hq => hc.table k seq q (hlookup k seq q hq).2, fun q hq => ?_,
    fun k seq q hq => ?_, fun s i seg hseg => ?_⟩
  · obtain ⟨-, seq, hmem⟩ := mem_owed.mp hq
    exact hc.table f seq q (AList.mem_lookup_iff.mpr hmem)
  · obtain ⟨hk, hq⟩ := hlookup k seq q hq
    rw [hflow, if_neg hk]
    exact hc.below k seq q hq
  · refine (hc.kept s i seg hseg).imp_right fun ⟨hmem, hk⟩ => ⟨hmem, ?_⟩
    obtain (hq | ⟨k, seq, q, hq, hlate, hb⟩) | ⟨q, hq, -⟩ := hk
    · exact .inl (.inl hq)
    · by_cases hkf : k = f
      · subst hkf
        exact .inr ⟨q, mem_owed.mpr ⟨hlate, seq, AList.mem_lookup_iff.mp hq⟩, hb⟩
      · refine .inl (.inr ⟨k, seq, q, ?_, hlate, hb⟩)
        rw [hflow, if_neg hkf]
        exact hq
    · cases hq

theorem custody_clearPrimary (h : Good none none w) (hc : Custody [] w) :
    Custody [] w.clearPrimary.1 := by
  cases hf : w.flow with
  | none =>
    unfold clearPrimary
    rw [hf]
    exact hc
  | some f =>
    refine clearPrimary_rule (J := fun l v => Custody (owed l) v) h hf
      (fun l v v' hv hv' => hv'.alike hv) (fun v seq p l hv => ?_) (custody_emptied hc f)
    rw [owed_cons] at hv
    exact hv.returned

/-- **Acts** other than reports of the flow lose no segment. -/
theorem custody_apply {a : Act} (h : Good none none w) (hadm : w.Admits a) (ha : a.Plain)
    (hc : Custody [] w) : Custody [] (w.apply a) := by
  by_cases hidle : a.Idle
  · exact hc.alike (apply_alike hidle hadm)
  cases a with
  | adopt f s =>
    unfold apply
    exact hc.segments rfl
  | pick f s rest =>
    have hflow : Custody [] (w.modFlow f fun x => { x with tstreams := rest }) :=
      hc.alike (.modFlow_eq w f rfl rfl rfl)
    exact hflow.collect
  | sendData f s q p rest type wire forced =>
    obtain ⟨i, a, -, hq, -⟩ := hadm
    have hstart : Custody [] (w.startflight f q p.payload.length) := hc.startflight
    have hqueue : ((w.startflight f q p.payload.length).streams s).tqueue = p :: rest := by
      rw [startflight_streams]
      split_ifs with hs
      · rw [← hs]
        exact hq
      · exact hq
    exact ((hstart.unqueue hqueue).mark p.late type).sent
  | sendDatagram f s p rest wire forced =>
    obtain ⟨i, a, -, hq, htype, -⟩ := hadm
    have htake := (hc.unqueue hq).discard (by rw [htype]; decide)
    have hstart : Custody [] ((w.setQueue s rest).startflight f s p.payload.length) :=
      htake.startflight
    unfold apply flowTransmit
    refine hstart.congr (fun _ => rfl) (fun k seq => ?_) fun k seq q _ => ?_
    · rw [modFlow_flows]
      split_ifs with hk
      · rw [hk]
      · rfl
    · rw [modFlow_flows]
      split_ifs with hk
      · rw [hk]
        exact Nat.le_succ _
      · exact le_rfl
  | sendAttach f s p wire forced =>
    obtain ⟨-, i, a, -, -, -, htype, -⟩ := hadm
    exact (hc.admitted (p := p) fun hn => by rw [htype] at hn; cases hn).sent
  | miss f seq p =>
    obtain ⟨hp, -⟩ := hadm
    have hrep : Custody [] (w.report f seq) := hc.report
    have hmark := (hrep.markLate hp).mark true p.header
    unfold apply
    dsimp only
    split_ifs with htype
    · exact hmark.segmentMissed
    · exact hmark.discard htype
  | report f seq => exact hc.report
  | write s p =>
    obtain ⟨-, data, endflags, rfl⟩ := hadm
    exact (hc.recordSegment data endflags).insertPacket rfl
  | writeDatagram s p =>
    obtain ⟨-, data, rfl⟩ := hadm
    exact (hc.admitted (p := w.nextDatagram s data) fun hn => (nomatch hn)).insertPacket rfl
  | openStream b =>
    obtain ⟨parent, mode, state, toplev, strm, rfl⟩ := hadm
    exact custody_newStream h hc rfl rfl
  | create f q u sid slot pktseq =>
    have hctr : Custody [] ((w.createSub f q u).followCtr f sid) :=
      (custody_createSub h hc f q u).alike (.modFlow_eq _ f rfl rfl rfl)
    exact hctr.alike (setActive_alike ..)
  | newFlow => exact custody_newFlow h hc
  | clearPrimary => exact custody_clearPrimary h hc
  | stop f => exact hc.alike (stop_alike h hadm)
  | delete s =>
    refine deleteStream_rule (J := Custody []) h (fun v v' hv hv' => hv'.alike hv)
      (fun v f seq p hp _ hv => ?_) hc
    cases hlate : p.late with
    | true =>
      refine Custody.returned ?_
      rw [hlate]
      exact hv.take_late fun q hq => by
        cases hp.symm.trans hq
        exact hlate
    | false =>
      refine Custody.returned ?_
      rw [hlate]
      exact hv.take_some hp
  | ack | drop => exact ha.elim
  | _ => exact absurd trivial hidle

end Peer

/-! ## Runs -/

/-- The flows let a packet expire only after they reported it lost. -/
def Exec.Loyal (x : Exec) : Label → Prop
  | .event (.expire f seq) =>
    ∀ p, (x.peer.flows f).ackwait.lookup seq = some p → p.late = true
  | _ => True

theorem custody_ack {w : Peer} {f seq : ℕ} {p : Packet}
    (hp : (w.flows f).ackwait.lookup seq = some p) (h : Custody [] w) :
    Custody [] (w.apply (.ack f seq p)) := by
  have htake : Custody [p] ((w.takePacket f seq).report f seq) := (h.take_some hp).report
  unfold Peer.apply
  dsimp only
  split_ifs with htype
  · exact htake.segmentAcked htype
  · exact htake.discard htype

/-- **The invariant** holds throughout every run. -/
theorem custody_reach {x : Exec} (h : peerMachine.Reach Exec.Loyal x) : Custody [] x.peer := by
  exact Exec.reach_rule .new (fun w a hg hadm ha hw => Peer.custody_apply hg hadm ha hw)
    (fun _ _ _ _ _ _ _ hp hw => custody_ack hp hw) (fun _ _ _ _ hc hw => hw.take_late hc) h

/-- **Reliability.** In every run in which the flows let no packet expire that they have not
reported, a segment once written is waiting to be sent, or is on a flow that has reported nothing
about it yet, as long as no segment at its position was acknowledged. -/
theorem reliability {x : Exec} (h : peerMachine.Reach Exec.Loyal x) {s : StrmId} {i : ℕ}
    {seg : Segment} (hseg : (x.peer.streams s).written[i]? = some seg) :
    (∃ j ∈ (x.peer.streams s).ackedIds, ∃ seg', (x.peer.streams s).written[j]? = some seg' ∧
      seg'.tsn = seg.tsn) ∨
    ∃ p : Packet, (p.strm = s ∧ p.type = .data ∧ p.id = i ∧ p.tsn = seg.tsn ∧
      p.flags = seg.flags ∧ p.payload = seg.payload) ∧
      (p ∈ (x.peer.streams s).tqueue ∨
        ∃ f seq, (x.peer.flows f).ackwait.lookup seq = some p ∧ p.late = false) := by
  have hc := custody_reach h
  obtain hcov | ⟨-, hk | ⟨p, hp, -⟩⟩ := hc.kept s i seg hseg
  · exact .inl hcov
  · -- The packet says what the stream wrote.
    have hsame : ∀ p : Packet, p.Bears s i → x.peer.Genuine p →
        p.strm = s ∧ p.type = .data ∧ p.id = i ∧ p.tsn = seg.tsn ∧ p.flags = seg.flags ∧
          p.payload = seg.payload := by
      rintro p ⟨rfl, htype, rfl⟩ hgen
      have hp := hgen htype
      rw [hseg] at hp
      cases hp
      exact ⟨rfl, htype, rfl, rfl, rfl, rfl⟩
    obtain ⟨p, hp, hb⟩ | ⟨f, seq, p, hp, hlate, hb⟩ := hk
    · exact .inr ⟨p, hsame p hb (hc.queue s p hp), .inl hp⟩
    · exact .inr ⟨p, hsame p hb (hc.table f seq p hp), .inr ⟨f, seq, hp, hlate⟩⟩
  · cases hp

/-- The first packet of a connection is lost and sent again, and its first copy expires. -/
theorem reliability_resent : ∃ x x' : Exec,
    peerMachine.run peerMachine.init [.event .newFlow, .event (.start 0 true false 5 6), .run,
      .back, .call (.connectTo [1, 2]), .run, .run, .back, .run, .run, .event (.missed 0 1), .run,
      .back, .run] = some x ∧ x.step (.event (.expire 0 1)) = some x' ∧
    (x'.peer.streams (.sub 0)).written[0]? = some ⟨0, ⟨true, true, false⟩, [1, 2]⟩ ∧
    ((∃ j ∈ (x'.peer.streams (.sub 0)).ackedIds, ∃ seg',
        (x'.peer.streams (.sub 0)).written[j]? = some seg' ∧ seg'.tsn = 0) ∨
      ∃ p : Packet, (p.strm = .sub 0 ∧ p.type = .data ∧ p.id = 0 ∧ p.tsn = 0 ∧
        p.flags = ⟨true, true, false⟩ ∧ p.payload = [1, 2]) ∧
        (p ∈ (x'.peer.streams (.sub 0)).tqueue ∨
          ∃ f seq, (x'.peer.flows f).ackwait.lookup seq = some p ∧ p.late = false)) :=
  have hrun : ∃ x, peerMachine.run peerMachine.init [.event .newFlow,
      .event (.start 0 true false 5 6), .run, .back, .call (.connectTo [1, 2]), .run, .run, .back,
      .run, .run, .event (.missed 0 1), .run, .back, .run] = some x ∧
      ∃ x', x.step (.event (.expire 0 1)) = some x' ∧
      ∃ p, (x.peer.flows 0).ackwait.lookup 1 = some p ∧ p.late = true ∧
      (x'.peer.streams (.sub 0)).written[0]? = some ⟨0, ⟨true, true, false⟩, [1, 2]⟩ :=
    ⟨_, rfl, _, rfl, _, rfl, rfl, rfl⟩
  let ⟨x, hx, x', hstep, p, hp, hlate, hseg⟩ := hrun
  have hreach : peerMachine.Reach Exec.Loyal x := by
    refine Machine.Reach.init.extend (fun l hl u => ?_) hx
    simp only [List.mem_cons, List.not_mem_nil, or_false] at hl
    obtain rfl | rfl | rfl | rfl | rfl | rfl | rfl | rfl | rfl | rfl | rfl | rfl | rfl | rfl :=
      hl <;> trivial
  have hloyal : x.Loyal (.event (.expire 0 1)) := fun q hq => by
    cases hp.symm.trans hq
    exact hlate
  ⟨x, x', hx, hstep, hseg, reliability (hreach.step hloyal hstep) hseg⟩

end Sst.Strm
