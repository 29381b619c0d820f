import Sst.Strm.Unacked
import Sst.Strm.Sent

/-!
# What is sent is what was written

Every segment that a flow sends for a stream, on whatever attachment and however often, bears the
position, the flags and the data of a segment that the stream wrote.

* `Wire.Tells b`: a packet tells of a segment of the stream `b`.
* `Honest`: all packets sent by a peer do.
* **`honest_apply`**, **`honest_reach`**: they do in every run.
-/

namespace Sst.Strm

open Transition

/-- A packet with data tells of a segment that the stream wrote. -/
def Wire.Tells (b : BaseStream) : Wire → Prop
  | .init _ _ tsn flags payload | .reply _ _ tsn flags payload => ∃ (i : ℕ) (seg : Segment),
      b.written[i]? = some seg ∧ seg.tsn ≤ 0xffff ∧ tsn = (seg.tsn % 2 ^ 16).toNat ∧
        flags = seg.flags ∧ payload = seg.payload
  | .data _ tsn flags payload => ∃ (i : ℕ) (seg : Segment), b.written[i]? = some seg ∧
      tsn = (seg.tsn % 2 ^ 32).toNat ∧ flags = seg.flags ∧ payload = seg.payload
  | _ => True

theorem Wire.Tells.mono {b b' : BaseStream} {wire : Wire} (h : wire.Tells b)
    (hb : ∀ (i : ℕ) (seg : Segment), b.written[i]? = some seg → b'.written[i]? = some seg) :
      wire.Tells b' := by
  cases wire with
  | init | reply | data =>
    obtain ⟨i, seg, hseg, hrest⟩ := h
    exact ⟨i, seg, hb i seg hseg, hrest⟩
  | _ => trivial

/-- The packets that flows sent tell of segments that their streams wrote. -/
structure Honest (w : Peer) : Prop where
  tells : ∀ f, ∀ r ∈ (w.flows f).sent, r.wire.Tells (w.streams r.strm)
  known : ∀ f, ∀ r ∈ (w.flows f).sent, ∃ n < w.nextStream, r.strm = .sub n

namespace Honest

variable {w w' : Peer} {f seq : ℕ} {s : StrmId} {p : Packet}

theorem mono (h : Honest w) (hsent : ∀ f, (w'.flows f).sent ⊆ (w.flows f).sent)
    (hw : ∀ n < w.nextStream, ∀ (i : ℕ) (seg : Segment),
      (w.streams (.sub n)).written[i]? = some seg → (w'.streams (.sub n)).written[i]? = some seg)
    (hn : w.nextStream ≤ w'.nextStream) : Honest w' := by
  refine ⟨fun f r hr => ?_, fun f r hr => ?_⟩
  · obtain ⟨n, hlt, hs⟩ := h.known f r (hsent f hr)
    have ht := h.tells f r (hsent f hr)
    rw [hs] at ht ⊢
    exact Wire.Tells.mono ht (hw n hlt)
  · obtain ⟨n, hlt, hs⟩ := h.known f r (hsent f hr)
    exact ⟨n, hlt.trans_le hn, hs⟩

theorem alike (h : Honest w) (hw : Alike w w') : Honest w' := by
  refine h.mono (fun f => ?_) (fun n _ i seg hseg => ?_) hw.nextStream.ge
  · rw [hw.sent]
    exact List.Subset.refl _
  · have hs := hw.stock (.sub n)
    simp only [BaseStream.stock, Prod.mk.injEq] at hs
    rw [hs.2.2.2.2.2.1]
    exact hseg

theorem modStream (h : Honest w) {g : BaseStream → BaseStream}
    (hg : (g (w.streams s)).written = (w.streams s).written) : Honest (w.modStream s g) := by
  refine h.mono (fun _ => List.Subset.refl _) (fun n _ i seg hseg => ?_) le_rfl
  rw [Peer.modStream_streams]
  split_ifs with hs
  · rw [hg, ← hs]
    exact hseg
  · exact hseg

theorem new : Honest Peer.new := ⟨fun _ _ hr => (nomatch hr), fun _ _ hr => (nomatch hr)⟩

theorem returned_nextStream (w : Peer) (f seq : ℕ) (p : Packet) :
    (w.returned f seq p).nextStream = w.nextStream := by
  unfold Peer.returned Peer.segmentMissed Peer.endflight
  dsimp only
  split_ifs
  · rfl
  · cases (w.report f seq).parentOf p.strm <;> rfl
  · rfl
  · rfl

theorem returned (h : Honest w) : Honest (w.returned f seq p) := by
  refine h.mono (fun k => ?_) (fun n _ i seg hseg => ?_) (returned_nextStream ..).ge
  · rw [(Peer.returned_flow w f seq p).2]
    exact List.Subset.refl _
  · obtain ⟨_, _, hs⟩ := Peer.returned_kept w f seq p (.sub n)
    rw [hs]
    exact hseg

theorem takePacket (h : Honest w) : Honest (w.takePacket f seq) := by
  refine h.mono (fun k => ?_) (fun _ _ _ _ hseg => hseg) le_rfl
  rw [Peer.takePacket, Peer.modFlow_flows]
  split_ifs with hk
  · rw [hk]
    exact List.Subset.refl _
  · exact List.Subset.refl _

theorem segmentMissed (h : Honest w) : Honest (w.segmentMissed p) := by
  refine h.mono (fun k => ?_) (fun n _ i seg hseg => ?_) (le_of_eq ?_)
  · change ((w.endflight p).flows k).sent ⊆ _
    rw [(Peer.endflight_flow w p).2]
    exact List.Subset.refl _
  · obtain ⟨_, _, hs⟩ := Peer.segmentMissed_kept w p (.sub n)
    rw [hs]
    exact hseg
  · unfold Peer.segmentMissed Peer.endflight
    dsimp only
    split_ifs
    · cases w.parentOf p.strm <;> rfl
    · rfl

theorem segmentAcked (h : Honest w) : Honest (w.segmentAcked p) := by
  have hflight : Honest (w.endflight p) := by
    unfold Peer.endflight
    dsimp only
    split_ifs
    · cases w.parentOf p.strm with
      | none => exact h
      | some q => exact h.modStream rfl
    · exact h.modStream rfl
  rw [Peer.segmentAcked_eq]
  refine hflight.modStream ?_
  dsimp only
  split_ifs <;> rfl

/-- **A packet is sent** that tells of a segment. -/
theorem send {v : Peer} {n : ℕ} {wire : Wire} {forced : Bool} (h : Honest w)
    (hflows : ∀ k, (v.flows k).sent = (w.flows k).sent) (hstreams : ∀ n,
      (v.streams (.sub n)).written = (w.streams (.sub n)).written)
    (hnext : v.nextStream = w.nextStream) (hn : n < w.nextStream)
    (htells : wire.Tells (w.streams (.sub n))) :
    Honest (v.flowTransmit f (.sub n) wire forced) := by
  have hsent : ∀ k, ∀ r ∈ ((v.flowTransmit f (.sub n) wire forced).flows k).sent,
      r.wire = wire ∧ r.strm = .sub n ∨ r ∈ (w.flows k).sent := fun k r hr => by
    rw [Peer.flowTransmit_sent] at hr
    split_ifs at hr with hk
    · obtain rfl | hr := List.mem_cons.mp hr
      · exact .inl ⟨rfl, rfl⟩
      · rw [hflows, ← hk] at hr
        exact .inr hr
    · rw [hflows] at hr
      exact .inr hr
  have hmono : ∀ {wire : Wire} {m : ℕ}, wire.Tells (w.streams (.sub m)) →
      wire.Tells ((v.flowTransmit f (.sub n) wire forced).streams (.sub m)) := fun ht =>
    Wire.Tells.mono ht fun i seg hseg => by
      rw [Peer.flowTransmit_streams, hstreams]
      exact hseg
  refine ⟨fun k r hr => ?_, fun k r hr => ?_⟩
  · obtain ⟨h1, h2⟩ | hr := hsent k r hr
    · rw [h1, h2]
      exact hmono htells
    · obtain ⟨m, -, hs⟩ := h.known k r hr
      have ht := h.tells k r hr
      rw [hs] at ht ⊢
      exact hmono ht
  · obtain ⟨-, h2⟩ | hr := hsent k r hr
    · exact ⟨n, hnext ▸ hn, h2⟩
    · rw [Peer.flowTransmit, show (v.modFlow f _).nextStream = w.nextStream from hnext]
      exact h.known k r hr

/-- A new stream takes the number that no packet names yet. -/
theorem newStream (h : Honest w) (b : BaseStream) : Honest (w.newStream b) := by
  refine h.mono (fun _ => List.Subset.refl _) (fun n hn i seg hseg => ?_) (Nat.le_succ _)
  change (Function.update w.streams (.sub w.nextStream) b (.sub n)).written[i]? = some seg
  rw [Function.update_of_ne fun heq => by cases heq; exact absurd hn (lt_irrefl _)]
  exact hseg

theorem createSub (h : Honest w) (f : ℕ) (q : StrmId) (u : Usid) : Honest (w.createSub f q u) := by
  have hnew : ∀ state,
      Honest ((w.newStream (.new (some q) (w.streams q).listenMode state)).setUsid
        (.sub w.nextStream) u) := fun state => by
    have hname := (h.newStream (.new (some q) (w.streams q).listenMode state)).modStream
      (s := .sub w.nextStream) (g := fun b => { b with usid := some u }) rfl
    exact hname.alike (.of_eq rfl rfl rfl rfl)
  unfold Peer.createSub
  dsimp only
  split_ifs
  · exact hnew .accepting
  · exact (hnew .connected).modStream rfl

end Honest

theorem Peer.Good.attached_lt {w : Peer} {f n : ℕ} {i : Fin 2} {a : TxAttachment}
    (h : w.Good none none) (hatt : w.Attached (.sub n) f i a) : n < w.nextStream := by
  by_contra hn
  have hfree := Layout.Sound.free h.placed (h.placed.freshStream n (Nat.le_of_not_lt hn)).2
  have hlink := hfree.link i
  change ((w.streams (.sub n)).tatt i).map _ = none at hlink
  rw [hatt.2.1] at hlink
  cases hlink

section Acts

variable {w : Peer} {f seq : ℕ} {s : StrmId} {p : Packet}

theorem Peer.sendData_tells {q : StrmId} {rest : List Packet} {type : PacketType} {wire : Wire}
    {forced : Bool} (hc : Custody [] w) (hg : w.Good none none)
    (hadm : w.Admits (.sendData f s q p rest type wire forced))
    (hshort : type ≠ .data → p.tsn ≤ 0xffff) : wire.Tells (w.streams s) := by
  obtain ⟨i, a, -, hq, htype, -, hwire⟩ := hadm
  have hmem : p ∈ (w.streams s).tqueue := hq ▸ List.mem_cons_self
  have hgen := hc.queue s p hmem htype
  rw [hg.own s p hmem] at hgen
  obtain ⟨rfl, -, pa, -, rfl⟩ | ⟨rfl, -, -, ra, -, rfl⟩ | ⟨-, -, -, rfl⟩ := hwire
  · exact ⟨p.id, _, hgen, hshort (by decide), rfl, rfl, rfl⟩
  · exact ⟨p.id, _, hgen, hshort (by decide), rfl, rfl, rfl⟩
  · exact ⟨p.id, _, hgen, rfl, rfl, rfl⟩

/-- **Acts** keep what is sent true to what was written. -/
theorem honest_apply {a : Act} (hg : w.Good none none) (hadm : w.Admits a) (ha : a.Plain)
    (hc : Custody [] w) (h : Honest w) : Honest (w.apply a) := by
  by_cases hidle : a.Idle
  · exact h.alike (Peer.apply_alike hidle hadm)
  cases a with
  | adopt f s =>
    unfold Peer.apply
    exact h.modStream rfl
  | pick f s rest =>
    have hflow : Honest (w.modFlow f fun x => { x with tstreams := rest }) :=
      h.alike (.modFlow_eq w f rfl rfl rfl)
    exact hflow.modStream (s := s) (g := fun b => { b with tqflow := false }.collect) rfl
  | sendData f s q p rest type wire forced =>
    have htells := Peer.sendData_tells hc hg hadm ha
    obtain ⟨i, a, hatt, hq, -⟩ := hadm
    obtain ⟨n, rfl⟩ := hg.held.sub (s := s) (by rw [hq]; exact List.cons_ne_nil _ _)
    refine h.send (fun k => ?_) (fun m => ?_) rfl (hg.attached_lt hatt) htells
    · rw [Peer.awaitAck, Peer.modFlow_flows]
      split_ifs with hk
      · rw [hk]
        rfl
      · rfl
    · rw [Peer.awaitAck_streams, Peer.setQueue_streams]
      have hstart : ∀ t, ((w.startflight f q p.payload.length).streams t).written =
          (w.streams t).written := fun t => by
        rw [Peer.startflight_streams]
        split_ifs with ht
        · rw [ht]
        · rfl
      split_ifs with hs
      · rw [hs]
        exact hstart _
      · exact hstart _
  | sendDatagram f s p rest wire forced =>
    obtain ⟨i, a, hatt, hq, -, -, rfl⟩ := hadm
    obtain ⟨n, rfl⟩ := hg.held.sub (s := s) (by rw [hq]; exact List.cons_ne_nil _ _)
    refine h.send (fun k => rfl) (fun m => ?_) rfl (hg.attached_lt hatt) trivial
    have hqueue : ∀ t, ((w.setQueue (.sub n) rest).streams t).written =
        (w.streams t).written := fun t => by
      rw [Peer.setQueue_streams]
      split_ifs with ht
      · rw [ht]
      · rfl
    rw [Peer.startflight_streams]
    split_ifs with hs
    · rw [hs]
      exact hqueue _
    · exact hqueue _
  | sendAttach f s p wire forced =>
    obtain ⟨⟨n, rfl⟩, i, a, hatt, -, -, -, rfl⟩ := hadm
    refine h.send (fun k => ?_) (fun m => rfl) rfl (hg.attached_lt hatt) trivial
    rw [Peer.awaitAck, Peer.modFlow_flows]
    split_ifs with hk
    · rw [hk]
    · rfl
  | miss f seq p =>
    have hmark : Honest ((w.report f seq).markLate f seq p) := by
      refine h.mono (fun k => ?_) (fun _ _ _ _ hseg => hseg) le_rfl
      rw [Peer.markLate, Peer.modFlow_flows]
      split_ifs with hk
      · rw [hk]
        exact List.Subset.refl _
      · exact List.Subset.refl _
    unfold Peer.apply
    dsimp only
    split_ifs
    · exact hmark.segmentMissed
    · exact hmark
  | report f seq => exact h.mono (fun _ => List.Subset.refl _) (fun _ _ _ _ hseg => hseg) le_rfl
  | write s p =>
    have hrec : Honest (w.recordSegment s p) := by
      refine h.mono (fun _ => List.Subset.refl _) (fun n _ i seg hseg => ?_) le_rfl
      rw [Peer.recordSegment_streams]
      split_ifs with hs
      · rw [← hs]
        exact (List.getElem?_append_left (List.getElem?_eq_some_iff.mp hseg).1).trans hseg
      · exact hseg
    exact hrec.modStream (s := s) (g := (·.insertPacket p)) rfl
  | writeDatagram s p =>
    unfold Peer.apply
    exact h.modStream rfl
  | openStream b => exact h.newStream b
  | create f q u sid slot pktseq =>
    have hctr : Honest ((w.createSub f q u).followCtr f sid) :=
      (h.createSub f q u).alike (.modFlow_eq _ f rfl rfl rfl)
    exact hctr.alike (Peer.setActive_alike ..)
  | newFlow =>
    refine h.mono (fun k => ?_) (fun n _ i seg hseg => hseg) le_rfl
    change (Function.update w.flows w.nextFlow _ k).sent ⊆ _
    rw [Function.update_apply]
    split_ifs
    · exact List.nil_subset _
    · exact List.Subset.refl _
  | clearPrimary =>
    cases hf : w.flow with
    | none =>
      unfold Peer.apply Peer.clearPrimary
      rw [hf]
      exact h
    | some f =>
      have hempty : Honest (w.emptied f) := by
        refine h.mono (fun k => ?_) (fun _ _ _ _ hseg => hseg) le_rfl
        rw [Peer.emptied, Peer.modFlow_flows]
        split_ifs with hk
        · rw [hk]
          exact List.Subset.refl _
        · exact List.Subset.refl _
      exact Peer.clearPrimary_rule (J := fun _ v => Honest v) hg hf
        (fun _ _ _ hv hv' => hv'.alike hv) (fun _ _ _ _ hv => hv.returned) hempty
  | stop f => exact h.alike (Peer.stop_alike hg hadm)
  | delete s =>
    exact Peer.deleteStream_rule (J := Honest) hg (fun _ _ hv hv' => hv'.alike hv)
      (fun v f seq p _ _ hv => hv.takePacket.returned) h
  | ack | drop => exact ha.elim
  | _ => exact absurd trivial hidle

end Acts

/-- **The packets sent** tell of segments that were written, in every run. -/
theorem honest_reach {x : Exec} (h : peerMachine.Reach Exec.Loyal x) : Honest x.peer := by
  have hboth : Custody [] x.peer ∧ Honest x.peer := by
    refine Exec.reach_rule (I := fun w => Custody [] w ∧ Honest w) ⟨.new, .new⟩
      (fun w a hg hadm ha hw => ⟨Peer.custody_apply hg hadm ha hw.1,
        honest_apply hg hadm ha hw.1 hw.2⟩)
      (fun x f seq rxseq p hg _ hp hw => ⟨custody_ack hp hw.1, ?_⟩)
      (fun x f seq _ hc hw => ⟨hw.1.take_late hc, hw.2.takePacket⟩) h
    have htake : Honest ((x.peer.takePacket f seq).report f seq) := hw.2.takePacket.mono
      (fun _ => List.Subset.refl _) (fun _ _ _ _ hseg => hseg) le_rfl
    unfold Peer.apply
    dsimp only
    split_ifs
    · exact htake.segmentAcked
    · exact htake
  exact hboth.2

end Sst.Strm
