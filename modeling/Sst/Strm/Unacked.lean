import Sst.Strm.Custody
import Mathlib.Algebra.BigOperators.Group.Finset.Basic

/-!
# The bytes that a stream still has to get acknowledged

The account of a stream: where its segments are placed, which positions wait for an acknowledgment,
and how many bytes these are.

* `volume`, `BaseStream.unackedBytes`: the sizes of the segments, and of those not acknowledged.
* `Tally`: the account is right, if no two segments share a position.
* **`tally_reach`**: it is, in any run.
* **`bytes_to_write`**: for a stream whose segments all have data, the count is the size of what was
  not acknowledged, and each such segment is kept.
-/

namespace Sst.Strm

open Transition

/-- The size of some segments. -/
def volume (l : List Segment) : ℕ := (l.map fun seg => seg.payload.length).sum

/-- The size of a segment of a stream. -/
def BaseStream.segmentSize (b : BaseStream) (i : ℕ) : ℕ :=
  (b.written[i]?.map fun seg => seg.payload.length).getD 0

/-- The size of the segments that were not acknowledged. -/
def BaseStream.unackedBytes (b : BaseStream) : ℕ :=
  ∑ i ∈ Finset.range b.written.length \ b.ackedIds, b.segmentSize i

/-- No two segments share a position. -/
def BaseStream.Distinct (b : BaseStream) : Prop := (b.written.map Segment.tsn).Nodup

/-- What the account is about. -/
def BaseStream.ledger (b : BaseStream) : ℤ × Finset ℤ × ℤ × List Segment × Finset ℕ :=
  (b.tasn, b.twait, b.twaitsize, b.written, b.ackedIds)

/-- The account of a stream is right. -/
structure Tally (b : BaseStream) : Prop where
  next : b.tasn = Word.wrap 32 (volume b.written)
  place : ∀ i seg, b.written[i]? = some seg → seg.tsn = Word.wrap 32 (volume (b.written.take i))
  known : ∀ i ∈ b.ackedIds, i < b.written.length
  waits : b.Distinct → ∀ i seg, b.written[i]? = some seg → (seg.tsn ∈ b.twait ↔ i ∉ b.ackedIds)
  size : b.Distinct → b.twaitsize = Word.wrap 32 b.unackedBytes

@[simp] theorem volume_nil : volume [] = 0 := rfl

theorem volume_append (l l' : List Segment) : volume (l ++ l') = volume l + volume l' := by
  simp only [volume, List.map_append, List.sum_append]

theorem volume_singleton (seg : Segment) : volume [seg] = seg.payload.length := by
  simp only [volume, List.map_cons, List.map_nil, List.sum_cons, List.sum_nil, Nat.add_zero]

section Unacked

variable {b b' : BaseStream}

theorem unackedBytes_write {seg : Segment} (hnew : b.written.length ∉ b.ackedIds)
    (hw : b'.written = b.written ++ [seg]) (ha : b'.ackedIds = b.ackedIds) :
    b'.unackedBytes = b.unackedBytes + seg.payload.length := by
  have hold : ∀ i ∈ Finset.range b.written.length \ b.ackedIds,
      b'.segmentSize i = b.segmentSize i := fun i hi => by
    have hlt := Finset.mem_range.mp (Finset.mem_sdiff.mp hi).1
    rw [BaseStream.segmentSize, BaseStream.segmentSize, hw, List.getElem?_append_left hlt]
  have hlast : b'.segmentSize b.written.length = seg.payload.length := by
    rw [BaseStream.segmentSize, hw, List.getElem?_concat_length]
    rfl
  unfold BaseStream.unackedBytes
  rw [hw, ha, List.length_append, List.length_singleton, Finset.range_add_one,
    Finset.insert_sdiff_of_notMem _ hnew, Finset.sum_insert (by simp), hlast,
    Finset.sum_congr rfl hold, Nat.add_comm]

theorem unackedBytes_ack {i : ℕ} (hi : i < b.written.length) (hnew : i ∉ b.ackedIds)
    (hw : b'.written = b.written) (ha : b'.ackedIds = insert i b.ackedIds) :
    b.unackedBytes = b'.unackedBytes + b.segmentSize i := by
  have hmem : i ∈ Finset.range b.written.length \ b.ackedIds :=
    Finset.mem_sdiff.mpr ⟨Finset.mem_range.mpr hi, hnew⟩
  unfold BaseStream.unackedBytes BaseStream.segmentSize
  rw [hw, ha, Finset.sdiff_insert, Finset.sum_erase_add _ _ hmem]

theorem sum_range_sizes (l : List Segment) :
    ∑ i ∈ Finset.range l.length, (l[i]?.map fun seg => seg.payload.length).getD 0 = volume l := by
  induction l using List.reverseRecOn with
  | nil => rfl
  | append_singleton l seg ih =>
    rw [List.length_append, List.length_singleton, Finset.sum_range_succ, volume_append,
      volume_singleton, ← ih, List.getElem?_concat_length]
    refine congrArg (· + seg.payload.length) (Finset.sum_congr rfl fun i hi => ?_)
    rw [List.getElem?_append_left (Finset.mem_range.mp hi)]

theorem BaseStream.unackedBytes_le (b : BaseStream) : b.unackedBytes ≤ volume b.written := by
  rw [← sum_range_sizes]
  exact Finset.sum_le_sum_of_subset Finset.sdiff_subset

end Unacked

namespace Tally

variable {b b' : BaseStream} {p : Packet}

theorem of_ledger (h : Tally b) (hb : b'.ledger = b.ledger) : Tally b' := by
  simp only [BaseStream.ledger, Prod.mk.injEq] at hb
  obtain ⟨h1, h2, h3, h4, h5⟩ := hb
  have hd : b'.Distinct ↔ b.Distinct := by rw [BaseStream.Distinct, BaseStream.Distinct, h4]
  have hu : b'.unackedBytes = b.unackedBytes := by
    simp only [BaseStream.unackedBytes, BaseStream.segmentSize, h4, h5]
  obtain ⟨t1, t2, t3, t4, t5⟩ := h
  refine ⟨?_, ?_, ?_, fun hdist => ?_, fun hdist => ?_⟩
  · rw [h1, h4]
    exact t1
  · rw [h4]
    exact t2
  · rw [h4, h5]
    exact t3
  · rw [h2, h4, h5]
    exact t4 (hd.mp hdist)
  · rw [h3, hu]
    exact t5 (hd.mp hdist)

theorem empty (h1 : b.tasn = 0) (h2 : b.twaitsize = 0) (h3 : b.written = []) (h4 : b.ackedIds = ∅) :
    Tally b := by
  have hu : b.unackedBytes = 0 := by
    simp only [BaseStream.unackedBytes, h3, List.length_nil, Finset.range_zero, Finset.empty_sdiff,
      Finset.sum_empty]
  refine ⟨?_, fun i seg hseg => ?_, fun i hi => ?_, fun _ i seg hseg => ?_, fun _ => ?_⟩
  · rw [h1, h3, volume_nil, Nat.cast_zero, Word.wrap_zero]
  · rw [h3] at hseg
    simp at hseg
  · rw [h4] at hi
    exact absurd hi (Finset.notMem_empty i)
  · rw [h3] at hseg
    simp at hseg
  · rw [h2, hu, Nat.cast_zero, Word.wrap_zero]

theorem index_unique (hd : b.Distinct) {i j : ℕ} {seg seg' : Segment}
    (hi : b.written[i]? = some seg) (hj : b.written[j]? = some seg') (h : seg.tsn = seg'.tsn) :
    i = j := by
  obtain ⟨hi', rfl⟩ := List.getElem?_eq_some_iff.mp hi
  obtain ⟨hj', rfl⟩ := List.getElem?_eq_some_iff.mp hj
  have hinj := List.nodup_iff_injective_get.mp hd
  have hfin := @hinj ⟨i, by rwa [List.length_map]⟩ ⟨j, by rwa [List.length_map]⟩ (by
    simpa only [List.get_eq_getElem, List.getElem_map] using h)
  exact congrArg Fin.val hfin

/-- **A segment is written.** -/
theorem write (h : Tally b) (seg : Segment) (hseg : seg.tsn = b.tasn) :
    Tally { b with
      tasn := Word.wrap 32 (b.tasn + seg.payload.length)
      twait := insert seg.tsn b.twait
      twaitsize := Word.wrap 32 (b.twaitsize + seg.payload.length)
      written := b.written ++ [seg] } := by
  have hold : ∀ i seg', (b.written ++ [seg])[i]? = some seg' →
      b.written[i]? = some seg' ∨ i = b.written.length ∧ seg' = seg := fun i seg' hi => by
    by_cases hlt : i < b.written.length
    · rw [List.getElem?_append_left hlt] at hi
      exact .inl hi
    · have hlen := (List.getElem?_eq_some_iff.mp hi).1
      rw [List.length_append, List.length_singleton] at hlen
      obtain rfl : i = b.written.length := by omega
      rw [List.getElem?_concat_length] at hi
      cases hi
      exact .inr ⟨rfl, rfl⟩
  have hnew : b.written.length ∉ b.ackedIds := fun hn => absurd (h.known _ hn) (lt_irrefl _)
  refine ⟨?_, fun i seg' hi => ?_, fun i hi => ?_, fun hd i seg' hi => ?_, fun hd => ?_⟩
  · change Word.wrap 32 (b.tasn + seg.payload.length) = _
    rw [h.next, Word.wrap_add_wrap_left, volume_append, volume_singleton, Nat.cast_add]
  · obtain hi | ⟨rfl, rfl⟩ := hold i seg' hi
    · have hlt := (List.getElem?_eq_some_iff.mp hi).1
      change seg'.tsn = Word.wrap 32 (volume ((b.written ++ [seg]).take i))
      rw [List.take_append_of_le_length hlt.le]
      exact h.place i seg' hi
    · change seg'.tsn = Word.wrap 32 (volume ((b.written ++ [seg']).take b.written.length))
      rw [List.take_left, hseg]
      exact h.next
  · change i < (b.written ++ [seg]).length
    rw [List.length_append, List.length_singleton]
    exact (h.known i hi).trans (Nat.lt_succ_self _)
  · change (b.written ++ [seg]).map Segment.tsn |>.Nodup at hd
    rw [List.map_append, List.nodup_append] at hd
    obtain ⟨hd, -, hdisj⟩ := hd
    obtain hi | ⟨rfl, rfl⟩ := hold i seg' hi
    · have hne : seg'.tsn ≠ seg.tsn := hdisj _ (List.mem_map_of_mem (List.mem_of_getElem? hi)) _
        List.mem_cons_self
      change seg'.tsn ∈ insert seg.tsn b.twait ↔ _
      rw [Finset.mem_insert, or_iff_right hne]
      exact h.waits hd i seg' hi
    · exact iff_of_true (Finset.mem_insert_self _ _) hnew
  · change (b.written ++ [seg]).map Segment.tsn |>.Nodup at hd
    rw [List.map_append, List.nodup_append] at hd
    change Word.wrap 32 (b.twaitsize + seg.payload.length) = _
    rw [h.size hd.1, Word.wrap_add_wrap_left, ← Nat.cast_add]
    refine congrArg (fun n : ℕ => Word.wrap 32 n) (Eq.symm ?_)
    exact unackedBytes_write hnew rfl rfl

/-- **A segment is acknowledged**, maybe once more. -/
theorem acked (h : Tally b)
    (hp : b.written[p.id]? = some ⟨p.tsn, p.flags, p.payload⟩) :
    Tally { (if p.tsn ∈ b.twait then
        { b with
          twait := b.twait.erase p.tsn
          twaitsize := Word.wrap 32 (b.twaitsize - p.payloadSize) }
      else b) with ackedIds := insert p.id b.ackedIds } := by
  generalize hb' : ({ (if p.tsn ∈ b.twait then
        { b with
          twait := b.twait.erase p.tsn
          twaitsize := Word.wrap 32 (b.twaitsize - p.payloadSize) }
      else b) with ackedIds := insert p.id b.ackedIds } : BaseStream) = b'
  have hwr : b'.written = b.written := by
    rw [← hb']
    dsimp only
    split_ifs <;> rfl
  have htasn : b'.tasn = b.tasn := by
    rw [← hb']
    dsimp only
    split_ifs <;> rfl
  have hack : b'.ackedIds = insert p.id b.ackedIds := by rw [← hb']
  have hdist : b'.Distinct ↔ b.Distinct := by rw [BaseStream.Distinct, BaseStream.Distinct, hwr]
  have hlt := (List.getElem?_eq_some_iff.mp hp).1
  refine ⟨?_, ?_, fun i hi => ?_, fun hd i seg hseg => ?_, fun hd => ?_⟩
  · rw [htasn, hwr]
    exact h.next
  · rw [hwr]
    exact h.place
  · rw [hack] at hi
    rw [hwr]
    obtain rfl | hi := Finset.mem_insert.mp hi
    · exact hlt
    · exact h.known i hi
  · rw [hdist] at hd
    rw [hwr] at hseg
    have htwait : b'.twait = b.twait.erase p.tsn := by
      rw [← hb']
      dsimp only
      split_ifs with hmem
      · rfl
      · exact (Finset.erase_eq_of_notMem hmem).symm
    have heq : seg.tsn = p.tsn ↔ i = p.id := by
      refine ⟨fun htsn => index_unique hd hseg hp htsn, fun hi => ?_⟩
      rw [hi, hp] at hseg
      cases hseg
      rfl
    rw [htwait, hack, Finset.mem_erase, Finset.mem_insert, not_or, ← h.waits hd i seg hseg, ne_eq,
      heq]
  · rw [hdist] at hd
    have hwait := h.waits hd p.id _ hp
    by_cases hmem : p.tsn ∈ b.twait
    · have hsize : b'.twaitsize = Word.wrap 32 (b.twaitsize - p.payloadSize) := by
        rw [← hb', if_pos hmem]
      have hsum := unackedBytes_ack hlt (hwait.mp hmem) hwr hack
      have hone : b.segmentSize p.id = p.payload.length := by
        rw [BaseStream.segmentSize, hp]
        rfl
      rw [hsize, h.size hd, Word.wrap_sub_wrap_left, hsum, hone]
      congr 1
      unfold Packet.payloadSize
      push_cast
      ring
    · have hid : p.id ∈ b.ackedIds := by
        by_contra hn
        exact hmem (hwait.mpr hn)
      have hsize : b'.twaitsize = b.twaitsize := by rw [← hb', if_neg hmem]
      have hsum : b'.unackedBytes = b.unackedBytes := by
        simp only [BaseStream.unackedBytes, BaseStream.segmentSize, hwr, hack,
          Finset.insert_eq_of_mem hid]
      rw [hsize, hsum]
      exact h.size hd

end Tally

namespace Peer

variable {w w' : Peer} {f seq : ℕ} {s : StrmId} {p : Packet}

/-- The accounts of all streams are right. -/
def Tallied (w : Peer) : Prop := ∀ s, Tally (w.streams s)

theorem Tallied.of_ledger (h : w.Tallied)
    (hs : ∀ s, (w'.streams s).ledger = (w.streams s).ledger) : w'.Tallied :=
  fun s => (h s).of_ledger (hs s)

theorem Tallied.alike (h : w.Tallied) (hw : Alike w w') : w'.Tallied := by
  refine h.of_ledger fun s => ?_
  have hs := hw.stock s
  simp only [BaseStream.stock, Prod.mk.injEq] at hs
  obtain ⟨-, h1, -, h2, h3, h4, h5⟩ := hs
  simp only [BaseStream.ledger, h1, h2, h3, h4, h5]

theorem Tallied.modStream (h : w.Tallied) {g : BaseStream → BaseStream}
    (hg : Tally (g (w.streams s))) : (w.modStream s g).Tallied := fun t => by
  rw [modStream_streams]
  split_ifs
  · exact hg
  · exact h t

theorem Tallied.ledger (h : w.Tallied) {g : BaseStream → BaseStream}
    (hg : (g (w.streams s)).ledger = (w.streams s).ledger) : (w.modStream s g).Tallied :=
  h.modStream ((h s).of_ledger hg)

theorem Tallied.segmentMissed (h : w.Tallied) : (w.segmentMissed p).Tallied :=
  h.of_ledger fun s => by
    obtain ⟨_, _, hs⟩ := segmentMissed_kept w p s
    rw [hs]
    rfl

theorem Tallied.returned (h : w.Tallied) : (w.returned f seq p).Tallied :=
  h.of_ledger fun s => by
    obtain ⟨_, _, hs⟩ := returned_kept w f seq p s
    rw [hs]
    rfl

theorem Tallied.segmentAcked (h : w.Tallied) (hp : w.Genuine p) (htype : p.type = .data) :
    (w.segmentAcked p).Tallied := by
  have hflight : (w.endflight p).Tallied := h.of_ledger fun s => by
    obtain ⟨_, hs⟩ := endflight_kept w p s
    rw [hs]
    rfl
  have hgen : ((w.endflight p).streams p.strm).written[p.id]? =
      some ⟨p.tsn, p.flags, p.payload⟩ := by
    obtain ⟨_, hs⟩ := endflight_kept w p p.strm
    rw [hs]
    exact hp htype
  rw [segmentAcked_eq]
  exact hflight.modStream ((hflight p.strm).acked hgen)

theorem Tallied.newStream (h : w.Tallied) {b : BaseStream} (hb : Tally b) :
    (w.newStream b).Tallied := by
  have hmod := h.modStream (s := .sub w.nextStream) (g := fun _ => b) hb
  exact hmod.of_ledger fun _ => rfl

theorem tally_new (parent : Option StrmId) (mode : ℕ) (state : StreamState) :
    Tally (.new parent mode state) :=
  .empty rfl rfl rfl rfl

theorem Tallied.createSub (h : w.Tallied) (f : ℕ) (q : StrmId) (u : Usid) :
    (w.createSub f q u).Tallied := by
  have hnew : ∀ state,
      ((w.newStream (.new (some q) (w.streams q).listenMode state)).setUsid (.sub w.nextStream)
        u).Tallied := fun state => by
    have hname := (h.newStream (tally_new (some q) (w.streams q).listenMode state)).ledger
      (s := .sub w.nextStream) (g := fun b => { b with usid := some u }) rfl
    exact hname.of_ledger fun _ => rfl
  unfold Peer.createSub
  dsimp only
  split_ifs
  · exact hnew .accepting
  · exact (hnew .connected).ledger rfl

/-- **Acts** other than reports of the flow keep the accounts right. -/
theorem tallied_apply {a : Act} (h : Good none none w) (hadm : w.Admits a) (ha : a.Plain)
    (ht : w.Tallied) : (w.apply a).Tallied := by
  by_cases hidle : a.Idle
  · exact ht.alike (apply_alike hidle hadm)
  cases a with
  | adopt f s =>
    unfold apply
    exact ht.ledger rfl
  | pick f s rest =>
    have hflow : (w.modFlow f fun x => { x with tstreams := rest }).Tallied := ht
    exact hflow.ledger (s := s) (g := fun b => { b with tqflow := false }.collect) rfl
  | sendData f s q p rest type wire forced =>
    have hstart : (w.startflight f q p.payload.length).Tallied :=
      ht.ledger (s := q) (g := fun b => { b with tflt := Word.wrap 32 (b.tflt + p.payload.length) })
        rfl
    exact hstart.ledger (s := s) (g := fun b => { b with tqueue := rest }) rfl
  | sendDatagram f s p rest wire forced =>
    have hqueue : (w.setQueue s rest).Tallied := ht.ledger rfl
    exact hqueue.ledger (s := s)
      (g := fun b => { b with tflt := Word.wrap 32 (b.tflt + p.payload.length) }) rfl
  | sendAttach f s p wire forced => exact ht
  | miss f seq p =>
    have hmark : ((w.report f seq).markLate f seq p).Tallied := ht
    unfold apply
    dsimp only
    split_ifs
    · exact hmark.segmentMissed
    · exact hmark
  | report f seq => exact ht
  | write s p =>
    obtain ⟨-, data, endflags, rfl⟩ := hadm
    have hrec : (w.recordSegment s (w.nextSegment s data endflags)).Tallied :=
      ht.modStream ((ht s).write ⟨_, (w.nextSegment s data endflags).flags, _⟩ rfl)
    exact hrec.ledger (s := s) (g := (·.insertPacket (w.nextSegment s data endflags))) rfl
  | writeDatagram s p =>
    unfold apply
    exact ht.ledger rfl
  | openStream b =>
    obtain ⟨parent, mode, state, toplev, strm, rfl⟩ := hadm
    exact ht.newStream (.empty rfl rfl rfl rfl)
  | create f q u sid slot pktseq =>
    have hctr : ((w.createSub f q u).followCtr f sid).Tallied := ht.createSub f q u
    exact hctr.alike (setActive_alike ..)
  | newFlow =>
    have hroot := ht.modStream (s := .root w.nextFlow) (g := fun _ => rootStream w.nextFlow)
      (.empty rfl rfl rfl rfl)
    exact hroot.of_ledger fun _ => rfl
  | clearPrimary =>
    cases hf : w.flow with
    | none =>
      unfold apply clearPrimary
      rw [hf]
      exact ht
    | some f =>
      exact clearPrimary_rule (J := fun _ v => v.Tallied) h hf (fun _ _ _ hv hv' => hv'.alike hv)
        (fun _ _ _ _ hv => hv.returned) ht
  | stop f => exact ht.alike (stop_alike h hadm)
  | delete s =>
    exact deleteStream_rule (J := Tallied) h (fun _ _ hv hv' => hv'.alike hv)
      (fun v f seq p _ _ hv => Tallied.returned (w := v.takePacket f seq) hv) ht
  | ack | drop => exact ha.elim
  | _ => exact absurd trivial hidle

end Peer

/-! ## Runs -/

/-- **The accounts** are right in every run. -/
theorem tally_reach {x : Exec} (h : peerMachine.Reach Exec.Loyal x) : x.peer.Tallied := by
  have hboth : Custody [] x.peer ∧ x.peer.Tallied := by
    refine Exec.reach_rule (I := fun w => Custody [] w ∧ w.Tallied)
      ⟨.new, fun s => .empty rfl rfl rfl rfl⟩
      (fun w a hg hadm ha hw => ⟨Peer.custody_apply hg hadm ha hw.1,
        Peer.tallied_apply hg hadm ha hw.2⟩)
      (fun x f seq rxseq p hg _ hp hw => ⟨custody_ack hp hw.1, ?_⟩)
      (fun x f seq _ hc hw => ⟨hw.1.take_late hc, hw.2⟩) h
    have hgen : ((x.peer.takePacket f seq).report f seq).Genuine p := hw.1.table f seq p hp
    have htake : ((x.peer.takePacket f seq).report f seq).Tallied := hw.2
    unfold Peer.apply
    dsimp only
    split_ifs with htype
    · exact htake.segmentAcked hgen htype
    · exact htake
  exact hboth.2

theorem Tally.distinct {b : BaseStream} (h : Tally b)
    (hdata : ∀ seg ∈ b.written.dropLast, seg.payload ≠ []) (hsmall : volume b.written < 2 ^ 31) :
    b.Distinct := by
  have hle : ∀ i, volume (b.written.take i) ≤ volume b.written := fun i => by
    conv_rhs => rw [← List.take_append_drop i b.written, volume_append]
    exact Nat.le_add_right _ _
  have hlt : ∀ i j, i < j → j < b.written.length →
      volume (b.written.take i) < volume (b.written.take j) := fun i j hij hj => by
    have hi : i < b.written.length := hij.trans hj
    have hmem : b.written[i] ∈ b.written.dropLast := by
      rw [List.mem_iff_getElem]
      refine ⟨i, ?_, ?_⟩
      · rw [List.length_dropLast]
        omega
      · rw [List.getElem_dropLast]
    have hpos := List.length_pos_iff.mpr (hdata _ hmem)
    have hstep : volume (b.written.take (i + 1)) =
      volume (b.written.take i) + b.written[i].payload.length := by
      rw [List.take_succ_eq_append_getElem hi, volume_append, volume_singleton]
    have hmono : volume (b.written.take (i + 1)) ≤ volume (b.written.take j) := by
      conv_rhs => rw [← List.take_append_drop (i + 1) (b.written.take j), volume_append,
        List.take_take, min_eq_left hij]
      exact Nat.le_add_right _ _
    omega
  have htsn : ∀ i (hi : i < b.written.length),
      b.written[i].tsn = volume (b.written.take i) := fun i hi => by
    rw [h.place i _ (List.getElem?_eq_getElem hi)]
    have := hle i
    refine Word.wrap_eq_self (by decide) ?_ ?_ <;> omega
  rw [BaseStream.Distinct, List.nodup_iff_pairwise_ne, List.pairwise_map,
    List.pairwise_iff_getElem]
  intro i j hi hj hij heq
  rw [htsn i hi, htsn j hj, Nat.cast_inj] at heq
  exact absurd heq (hlt i j hij hj).ne

/-- **Bytes to write.** A stream whose segments all have data, but for the last one, and fit in 31
bits counts in `twaitsize` the bytes of the segments not acknowledged, and each of these waits to be
sent or is on a flow that has reported nothing about it. -/
theorem bytes_to_write {x : Exec} (h : peerMachine.Reach Exec.Loyal x) {s : StrmId}
    (hdata : ∀ seg ∈ (x.peer.streams s).written.dropLast, seg.payload ≠ [])
    (hsmall : volume (x.peer.streams s).written < 2 ^ 31) :
    (x.peer.streams s).twaitsize = (x.peer.streams s).unackedBytes ∧
      ∀ i < (x.peer.streams s).written.length, i ∉ (x.peer.streams s).ackedIds →
        x.peer.Kept s i := by
  have ht := tally_reach h s
  have hc := custody_reach h
  have hd := ht.distinct hdata hsmall
  refine ⟨?_, fun i hi hack => ?_⟩
  · have hle := (x.peer.streams s).unackedBytes_le
    rw [ht.size hd]
    refine Word.wrap_eq_self (by decide) ?_ ?_ <;> omega
  · have hseg := List.getElem?_eq_getElem hi
    obtain ⟨j, hj, seg, hsegj, htsn⟩ | ⟨-, hk | ⟨p, hp, -⟩⟩ := hc.kept s i _ hseg
    · exact absurd (Tally.index_unique hd hsegj hseg htsn ▸ hj) hack
    · exact hk
    · cases hp

/-- The request of a connection is acknowledged, and three bytes more are written. -/
theorem bytes_to_write_second : ∃ x : Exec,
    peerMachine.run peerMachine.init [.event .newFlow, .event (.start 0 true false 5 6), .run,
      .back, .call (.connectTo [1, 2]), .run, .run, .back, .run, .run, .event (.acked 0 1 3), .back,
      .run, .back, .run, .run, .call (.writeData (.sub 0) [7, 8, 9] messageFlag), .run] = some x ∧
    (x.peer.streams (.sub 0)).twaitsize = 3 ∧
    (x.peer.streams (.sub 0)).twaitsize = (x.peer.streams (.sub 0)).unackedBytes ∧
    ∀ i < (x.peer.streams (.sub 0)).written.length, i ∉ (x.peer.streams (.sub 0)).ackedIds →
      x.peer.Kept (.sub 0) i :=
  have hrun : ∃ x, peerMachine.run peerMachine.init [.event .newFlow,
      .event (.start 0 true false 5 6), .run, .back, .call (.connectTo [1, 2]), .run, .run, .back,
      .run, .run, .event (.acked 0 1 3), .back, .run, .back, .run, .run,
      .call (.writeData (.sub 0) [7, 8, 9] messageFlag), .run] = some x ∧
      (x.peer.streams (.sub 0)).twaitsize = 3 ∧ (x.peer.streams (.sub 0)).written =
        [⟨0, ⟨true, true, false⟩, [1, 2]⟩, ⟨2, ⟨true, true, false⟩, [7, 8, 9]⟩] :=
    ⟨_, rfl, by decide +kernel, by decide +kernel⟩
  let ⟨x, hx, hsize, hwritten⟩ := hrun
  have hreach : peerMachine.Reach Exec.Loyal x := by
    refine Machine.Reach.init.extend (fun l hl u => ?_) hx
    simp only [List.mem_cons, List.not_mem_nil, or_false] at hl
    obtain rfl | rfl | rfl | rfl | rfl | rfl | rfl | rfl | rfl | rfl | rfl | rfl | rfl | rfl | rfl |
      rfl | rfl | rfl := hl <;> trivial
  ⟨x, hx, hsize, bytes_to_write hreach (by rw [hwritten]; decide) (by rw [hwritten]; decide)⟩

end Sst.Strm
