import Sst.Lib.Priority
import Sst.Lib.Transition
import Sst.Stream.Write

/-!
# The transmit queue

`txenqueue` keeps the packets of a stream by their positions: fresh segments and datagrams, and
segments that were missed. Positions are signed and 32 bits wide.

* `TxStream`: the transmit state of a stream.
* `TxStream.step`: writes, transmissions and the reports of the flow.
* **`TxStream.writeData_toWriter`**: a write queues the segments that `Writer.writeData` cuts.
* `TxStream.Tracked`: what every run keeps of positions, serial numbers and stamps.
* **`TxStream.tracked_of_reach`**: it holds in every state of every run.
-/

namespace Sst

open Word Transition Priority

/-- What a packet of the transmit queue carries: a segment with its flags, or a fragment of a
datagram with its begin and end flags. -/
inductive TxBody
  | data (flags : Flags)
  | datagram (first last : Bool)
  deriving DecidableEq

/-- A packet of the transmit queue. No decision reads the last three fields: the absolute position
in the stream, the number of the packet in the order of writing, and the number of the call of
`txenqueue` that queued it. -/
structure TxPacket where
  body : TxBody
  tsn : ℤ
  payload : List UInt8
  pos : ℕ
  serial : ℕ
  stamp : ℕ
  deriving DecidableEq

namespace TxPacket

def isDatagram (p : TxPacket) : Bool :=
  match p.body with
  | .data _ => false
  | .datagram .. => true

/-- The bytes of the stream that the packet takes. -/
def extent (p : TxPacket) : ℕ := if p.isDatagram then 0 else p.payload.length

/-- The segment in the packet. -/
def segment (p : TxPacket) : Option Segment :=
  match p.body with
  | .data flags => some ⟨p.tsn, flags, p.payload⟩
  | .datagram .. => none

end TxPacket

/-- The position field of the packet that carries a segment. -/
inductive TxWire
  | init (tsn : BitVec 16)
  | reply (tsn : BitVec 16)
  | data (tsn : BitVec 32)
  deriving DecidableEq

/-- The transmit state; `ackwait` holds the records of the stream's packets, with their `late`
flag. The last four fields count the bytes written, the packets made and the calls of `txenqueue`,
and list the segments sent, the last one first. -/
structure TxStream extends Writer where
  tqueue : List TxPacket
  twait : List ℤ
  ackwait : List (TxPacket × Bool)
  written : ℕ
  serials : ℕ
  stamps : ℕ
  sent : List (TxPacket × TxWire)

/-- What the attachment lets the stream send: it is acknowledged, or an Init or Reply packet may be
sent on it, or only an Attach packet. -/
inductive TxLink
  | acked
  | init
  | reply
  | attaching
  deriving DecidableEq

/-- The packet for the segment `p`, if the attachment lets the stream send it. -/
def TxLink.segment (link : TxLink) (p : TxPacket) : Option TxWire :=
  match link with
  | .acked => some (.data (BitVec.ofInt 32 p.tsn))
  | .init => if p.tsn ≤ 0xffff then some (.init (BitVec.ofInt 16 p.tsn)) else none
  | .reply => if p.tsn ≤ 0xffff then some (.reply (BitVec.ofInt 16 p.tsn)) else none
  | .attaching => none

namespace TxStream

/-- The constructor. -/
def new : TxStream := ⟨Writer.new, [], [], [], 0, 0, 0, []⟩

/-- `BaseStream::txenqueue`. -/
def txenqueue (s : TxStream) (p : TxPacket) : TxStream :=
  { s with
    tqueue :=
      insertAhead (fun q => decide (0 < q.tsn - p.tsn)) { p with stamp := s.stamps } s.tqueue
    stamps := s.stamps + 1 }

/-! ## Writing -/

/-- One turn of the loop of `writeData`. -/
def writeSegment (s : TxStream) (flags : Flags) (chunk : List UInt8) : TxStream :=
  { s with
    tasn := wrap 32 (s.tasn + chunk.length)
    twait := s.twait.insert s.tasn
    written := s.written + chunk.length
    serials := s.serials + 1 : TxStream }.txenqueue
      ⟨.data flags, s.tasn, chunk, s.written, s.serials, s.stamps⟩

/-- The loop of `writeData`. -/
def writeLoop (s : TxStream) (data : List UInt8) (endflags : Flags) : TxStream :=
  if data.length ≤ mtu then s.writeSegment endflags.pushed data
  else (s.writeSegment ⟨false, false, false⟩ (data.take mtu)).writeLoop (data.drop mtu) endflags
termination_by data.length
decreasing_by
  rw [List.length_drop]
  unfold mtu at *
  omega

/-- `BaseStream::writeData`. -/
def writeData (s : TxStream) (x : Write) : Option TxStream :=
  if s.endwrite then none
  else some { s.writeLoop x.data x.endflags with endwrite := x.endflags.close }

/-- The segments in the transmit queue. -/
def segments (s : TxStream) : List Segment := s.tqueue.filterMap TxPacket.segment

theorem segments_txenqueue (s : TxStream) (p : TxPacket) :
    (s.txenqueue p).segments.Perm (p.segment.toList ++ s.segments) := by
  have h := (insertAhead_perm (fun q => decide (0 < q.tsn - p.tsn)) { p with stamp := s.stamps }
    s.tqueue).filterMap TxPacket.segment
  obtain ⟨body, tsn, payload, pos, serial, stamp⟩ := p
  cases body with
  | data flags => exact h
  | datagram first last => exact h

/-- What the loop of `Writer` cuts is what the loop of the stream queues. -/
theorem writeLoop_toWriter (s : TxStream) (data : List UInt8) (endflags : Flags) :
    (s.writeLoop data endflags).tasn = (Writer.writeLoop s.tasn data endflags).2 ∧
      (s.writeLoop data endflags).segments.Perm
        (s.segments ++ (Writer.writeLoop s.tasn data endflags).1) := by
  fun_induction writeLoop s data endflags with
  | case1 s data hlen =>
    rw [Writer.writeLoop, if_pos hlen]
    exact ⟨rfl, (segments_txenqueue _ _).trans (List.perm_append_comm ..)⟩
  | case2 s data hlen ih =>
    have hlen' : (data.take mtu).length = mtu := by
      rw [List.length_take]
      omega
    have htasn : (s.writeSegment ⟨false, false, false⟩ (data.take mtu)).tasn =
        wrap 32 (s.tasn + mtu) :=
      congrArg (fun n : ℕ => wrap 32 (s.tasn + n)) hlen'
    rw [htasn] at ih
    rw [Writer.writeLoop.eq_def s.tasn, if_neg hlen]
    refine ⟨ih.1, ih.2.trans ?_⟩
    refine ((segments_txenqueue _ _).append_right _).trans ?_
    rw [List.append_assoc]
    exact List.perm_append_comm_assoc ..

/-- **A write queues the segments that `Writer.writeData` cuts.** -/
theorem writeData_toWriter {s t : TxStream} {x : Write} (h : s.writeData x = some t) :
    ∃ segs, s.toWriter.writeData x = some (t.toWriter, segs) ∧
      t.segments.Perm (s.segments ++ segs) := by
  obtain ⟨he, ht⟩ := Option.ite_none_left_eq_some.mp h
  cases ht
  obtain ⟨htasn, hperm⟩ := writeLoop_toWriter s x.data x.endflags
  refine ⟨_, ?_, hperm⟩
  rw [Writer.writeData, if_neg he]
  exact congrArg (fun n => some (Writer.mk n x.endflags.close, _)) htasn.symm

/-- One turn of the loop of `writeDatagram`: the fragment gets the position of the next byte. -/
def writeFragment (s : TxStream) (first last : Bool) (chunk : List UInt8) : TxStream :=
  { s with serials := s.serials + 1 }.txenqueue
    ⟨.datagram first last, s.tasn, chunk, s.written, s.serials, s.stamps⟩

/-- The loop of `writeDatagram`. -/
def writeFragments (s : TxStream) (first : Bool) (data : List UInt8) : TxStream :=
  if data.length ≤ mtu then s.writeFragment first true data
  else (s.writeFragment first false (data.take mtu)).writeFragments false (data.drop mtu)
termination_by data.length
decreasing_by
  rw [List.length_drop]
  unfold mtu at *
  omega

/-- A substream carries a reliable or large datagram. -/
def BySubstream (data : List UInt8) (reliable : Bool) : Prop := reliable ∨ mtu < data.length

instance (data : List UInt8) (reliable : Bool) : Decidable (BySubstream data reliable) := by
  unfold BySubstream
  infer_instance

/-- `BaseStream::writeDatagram`. -/
def writeDatagram (s : TxStream) (data : List UInt8) (reliable : Bool) : TxStream :=
  if BySubstream data reliable then s else s.writeFragments true data

/-! ## Transmission -/

/-- The packet is a segment that was acknowledged. -/
def isStale (s : TxStream) (p : TxPacket) : Bool := !p.isDatagram && decide (p.tsn ∉ s.twait)

/-- `txDatagram`: the packets up to the end of the datagram leave the queue. -/
def txDatagram : List TxPacket → Option (List TxPacket)
  | [] => none
  | p :: l =>
    match p.body with
    | .data _ => none
    | .datagram _ last => if last then some l else txDatagram l

/-- `txData`: the record of the packet is kept until the flow reports it. -/
def txData (s : TxStream) (p : TxPacket) (l : List TxPacket) (wire : TxWire) : TxStream :=
  { s with tqueue := l, ackwait := (p, false) :: s.ackwait, sent := (p, wire) :: s.sent }

/-- `BaseStream::transmit`. -/
def transmit (s : TxStream) (link : TxLink) : Option TxStream :=
  if s.tqueue = [] then none
  else
    match s.tqueue.dropWhile s.isStale with
    | [] => some { s with tqueue := [] }
    | p :: l =>
      if p.isDatagram then
        if link = .acked then (txDatagram (p :: l)).map fun l => { s with tqueue := l }
        else some { s with tqueue := p :: l }
      else
        match link.segment p with
        | some wire => some (s.txData p l wire)
        | none => some { s with tqueue := p :: l }

/-! ## Reports of the flow -/

/-- The record `i` is acknowledged. -/
def acked (s : TxStream) (i : ℕ) : Option TxStream :=
  s.ackwait[i]?.map fun (p, _) =>
    { s with
      twait := if p.isDatagram then s.twait else s.twait.erase p.tsn
      ackwait := s.ackwait.eraseIdx i }

/-- The record `i` is missed: a segment is queued again, once for each record. -/
def missed (s : TxStream) (i : ℕ) : Option TxStream :=
  s.ackwait[i]?.map fun (p, late) =>
    if late then s
    else if p.isDatagram then { s with ackwait := s.ackwait.eraseIdx i }
    else { s with ackwait := s.ackwait.set i (p, true) : TxStream }.txenqueue p

/-- The record `i` expires. -/
def expire (s : TxStream) (i : ℕ) : Option TxStream :=
  s.ackwait[i]?.map fun _ => { s with ackwait := s.ackwait.eraseIdx i }

/-- What happens to the stream. -/
inductive Op
  | writeData (x : Write)
  | writeDatagram (data : List UInt8) (reliable : Bool)
  | transmit (link : TxLink)
  | acked (i : ℕ)
  | missed (i : ℕ)
  | expire (i : ℕ)

def step (s : TxStream) : Op → Option TxStream
  | .writeData x => s.writeData x
  | .writeDatagram data reliable => some (s.writeDatagram data reliable)
  | .transmit link => s.transmit link
  | .acked i => s.acked i
  | .missed i => s.missed i
  | .expire i => s.expire i

end TxStream

/-- A stream that writes and transmits. -/
def txMachine : Machine TxStream TxStream.Op := ⟨.new, TxStream.step⟩

/-! ## Positions, serial numbers and stamps -/

namespace TxStream

/-- The packets queued or on record. -/
def packets (s : TxStream) : List TxPacket := s.tqueue ++ s.ackwait.map Prod.fst

/-- What every run keeps: a packet written after another lies behind its bytes, the copies of a
packet are of one kind, and a datagram was queued before all packets written after it. -/
structure Tracked (s : TxStream) : Prop where
  tasn : s.tasn = wrap 32 s.written
  tsn : ∀ p ∈ s.packets, p.tsn = wrap 32 p.pos
  bound : ∀ p ∈ s.packets, p.pos + p.extent ≤ s.written
  serial : ∀ p ∈ s.packets, p.serial < s.serials
  stamp : ∀ p ∈ s.packets, p.stamp < s.stamps
  follows : ∀ p ∈ s.packets, ∀ q ∈ s.packets, p.serial < q.serial → p.pos + p.extent ≤ q.pos
  kind : ∀ p ∈ s.packets, ∀ q ∈ s.packets, p.serial = q.serial → p.isDatagram = q.isDatagram
  queued : ∀ p ∈ s.packets, ∀ q ∈ s.packets, p.isDatagram = true → p.serial < q.serial →
    p.stamp < q.stamp

section Tracked

variable {s t : TxStream} {p q : TxPacket}

theorem mem_packets : p ∈ s.packets ↔ p ∈ s.tqueue ∨ p ∈ s.ackwait.map Prod.fst :=
  List.mem_append

theorem tracked_new : Tracked new := by
  refine ⟨?_, ?_, ?_, ?_, ?_, ?_, ?_, ?_⟩
  · exact (wrap_zero 32).symm
  all_goals
    intro p hp
    cases hp

theorem Tracked.of_subset (h : s.Tracked) (hp : t.packets ⊆ s.packets) (ha : t.tasn = s.tasn)
    (hw : t.written = s.written) (hs : t.serials = s.serials) (hc : t.stamps = s.stamps) :
    t.Tracked where
  tasn := by rw [ha, hw, h.tasn]
  tsn p hm := h.tsn p (hp hm)
  bound p hm := hw ▸ h.bound p (hp hm)
  serial p hm := hs ▸ h.serial p (hp hm)
  stamp p hm := hc ▸ h.stamp p (hp hm)
  follows p hm q hq := h.follows p (hp hm) q (hp hq)
  kind p hm q hq := h.kind p (hp hm) q (hp hq)
  queued p hm q hq := h.queued p (hp hm) q (hp hq)

theorem Tracked.concat (h : s.Tracked) (hm : t.packets ⊆ p :: s.packets) (ht : p.tsn = s.tasn)
    (hpos : p.pos = s.written) (hserial : p.serial = s.serials) (hstamp : p.stamp = s.stamps)
    (ha : t.tasn = wrap 32 (s.tasn + p.extent)) (hw : t.written = s.written + p.extent)
    (hs : t.serials = s.serials + 1) (hc : t.stamps = s.stamps + 1) : t.Tracked := by
  have hcases : ∀ q ∈ t.packets, q = p ∨ q ∈ s.packets := fun q hq => List.mem_cons.mp (hm hq)
  refine ⟨?_, ?_, ?_, ?_, ?_, ?_, ?_, ?_⟩
  · rw [ha, hw, h.tasn, wrap_add_wrap_left]
    push_cast
    rfl
  · intro q hq
    rcases hcases q hq with rfl | hq
    · rw [ht, hpos, h.tasn]
    · exact h.tsn q hq
  · intro q hq
    rcases hcases q hq with rfl | hq
    · omega
    · have := h.bound q hq
      omega
  · intro q hq
    rcases hcases q hq with rfl | hq
    · omega
    · have := h.serial q hq
      omega
  · intro q hq
    rcases hcases q hq with rfl | hq
    · omega
    · have := h.stamp q hq
      omega
  · intro q hq r hr hlt
    rcases hcases q hq with rfl | hq <;> rcases hcases r hr with rfl | hr
    · omega
    · have := h.serial r hr
      omega
    · rw [hpos]
      exact h.bound q hq
    · exact h.follows q hq r hr hlt
  · intro q hq r hr heq
    rcases hcases q hq with rfl | hq <;> rcases hcases r hr with rfl | hr
    · rfl
    · have := h.serial r hr
      omega
    · have := h.serial q hq
      omega
    · exact h.kind q hq r hr heq
  · intro q hq r hr hd hlt
    rcases hcases q hq with rfl | hq <;> rcases hcases r hr with rfl | hr
    · omega
    · have := h.serial r hr
      omega
    · rw [hstamp]
      exact h.stamp q hq
    · exact h.queued q hq r hr hd hlt

theorem Tracked.requeue (h : s.Tracked) (hp : p ∈ s.packets) (hd : p.isDatagram = false)
    (hm : t.packets ⊆ { p with stamp := s.stamps } :: s.packets) (ha : t.tasn = s.tasn)
    (hw : t.written = s.written) (hs : t.serials = s.serials) (hc : t.stamps = s.stamps + 1) :
    t.Tracked := by
  -- Every packet of `t` is one of `s`, up to the stamp, and only the stamp of `p` has changed.
  have hcases : ∀ q ∈ t.packets, ∃ r ∈ s.packets, q = { r with stamp := q.stamp } ∧
      (q.stamp = r.stamp ∨ q.isDatagram = false ∧ q.stamp = s.stamps) := by
    intro q hq
    rcases List.mem_cons.mp (hm hq) with rfl | hq
    · exact ⟨p, hp, rfl, .inr ⟨hd, rfl⟩⟩
    · exact ⟨q, hq, rfl, .inl rfl⟩
  refine ⟨by rw [ha, hw, h.tasn], ?_, ?_, ?_, ?_, ?_, ?_, ?_⟩
  · intro q hq
    obtain ⟨r, hr, he, -⟩ := hcases q hq
    rw [he]
    exact h.tsn r hr
  · intro q hq
    obtain ⟨r, hr, he, -⟩ := hcases q hq
    rw [he, hw]
    exact h.bound r hr
  · intro q hq
    obtain ⟨r, hr, he, -⟩ := hcases q hq
    rw [he, hs]
    exact h.serial r hr
  · intro q hq
    obtain ⟨r, hr, -, hst⟩ := hcases q hq
    have := h.stamp r hr
    omega
  · intro q hq u hu
    obtain ⟨r, hr, he, -⟩ := hcases q hq
    obtain ⟨v, hv, he', -⟩ := hcases u hu
    rw [he, he']
    exact h.follows r hr v hv
  · intro q hq u hu
    obtain ⟨r, hr, he, -⟩ := hcases q hq
    obtain ⟨v, hv, he', -⟩ := hcases u hu
    rw [he, he']
    exact h.kind r hr v hv
  · intro q hq u hu hdq hlt
    obtain ⟨r, hr, he, hst⟩ := hcases q hq
    obtain ⟨v, hv, he', hst'⟩ := hcases u hu
    have hq' : q.stamp = r.stamp := hst.resolve_right fun h => by simp [h.1] at hdq
    have hlt' : r.stamp < v.stamp := by
      refine h.queued r hr v hv ?_ ?_
      · rw [he] at hdq
        exact hdq
      · rw [he, he'] at hlt
        exact hlt
    have := h.stamp r hr
    omega

/-! ## Every step keeps them -/

theorem txenqueue_packets (s : TxStream) (p : TxPacket) :
    (s.txenqueue p).packets ⊆ { p with stamp := s.stamps } :: s.packets := by
  intro q hq
  rw [mem_packets, txenqueue, mem_insertAhead] at hq
  rw [List.mem_cons, mem_packets]
  tauto

theorem Tracked.writeSegment (h : s.Tracked) (flags : Flags) (chunk : List UInt8) :
    (s.writeSegment flags chunk).Tracked :=
  h.concat (txenqueue_packets _ _) rfl rfl rfl rfl rfl rfl rfl rfl

theorem Tracked.writeLoop (h : s.Tracked) (data : List UInt8) (endflags : Flags) :
    (s.writeLoop data endflags).Tracked := by
  fun_induction TxStream.writeLoop s data endflags with
  | case1 s data hlen => exact h.writeSegment _ _
  | case2 s data hlen ih => exact ih (h.writeSegment _ _)

theorem Tracked.writeFragment (h : s.Tracked) (first last : Bool) (chunk : List UInt8) :
    (s.writeFragment first last chunk).Tracked := by
  refine h.concat (txenqueue_packets _ _) rfl rfl rfl rfl ?_ rfl rfl rfl
  exact h.tasn.trans (by rw [h.tasn]; simp [TxPacket.extent, TxPacket.isDatagram])

theorem Tracked.writeFragments (h : s.Tracked) (first : Bool) (data : List UInt8) :
    (s.writeFragments first data).Tracked := by
  fun_induction TxStream.writeFragments s first data with
  | case1 s first data hlen => exact h.writeFragment _ _ _
  | case2 s first data hlen ih => exact ih (h.writeFragment _ _ _)

theorem txDatagram_suffix {l l' : List TxPacket} (h : txDatagram l = some l') : l' <:+ l := by
  fun_induction txDatagram l with
  | case1 => cases h
  | case2 => cases h
  | case3 p l first hb =>
    cases h
    exact List.suffix_cons ..
  | case4 p l first last hb hlast ih => exact (ih h).trans (List.suffix_cons ..)

/-- What a transmission does: packets leave the head of the queue, and at most one segment is sent
and put on record. -/
theorem transmit_cases {link : TxLink} (h : s.transmit link = some t) :
    (∃ l, l <:+ s.tqueue ∧ t = { s with tqueue := l }) ∨
      ∃ p l wire, p :: l <:+ s.tqueue ∧ link.segment p = some wire ∧ t = s.txData p l wire := by
  have hdrop : s.tqueue.dropWhile s.isStale <:+ s.tqueue := List.dropWhile_suffix _
  unfold transmit at h
  split at h
  · cases h
  split at h
  · cases h
    exact .inl ⟨[], List.nil_suffix, rfl⟩
  · next p l hl =>
    rw [hl] at hdrop
    split_ifs at h
    · obtain ⟨l', hl', rfl⟩ := Option.map_eq_some_iff.mp h
      exact .inl ⟨l', (txDatagram_suffix hl').trans hdrop, rfl⟩
    · cases h
      exact .inl ⟨p :: l, hdrop, rfl⟩
    · split at h
      · next wire hwire =>
        cases h
        exact .inr ⟨p, l, wire, hdrop, hwire, rfl⟩
      · cases h
        exact .inl ⟨p :: l, hdrop, rfl⟩

theorem Tracked.transmit {link : TxLink} (h : s.Tracked) (ht : s.transmit link = some t) :
    t.Tracked := by
  rcases transmit_cases ht with ⟨l, hl, rfl⟩ | ⟨p, l, wire, hl, -, rfl⟩
  · refine h.of_subset (fun p hp => ?_) rfl rfl rfl rfl
    exact mem_packets.mpr ((mem_packets.mp hp).imp_left fun hp => hl.subset hp)
  · refine h.of_subset (fun q hq => ?_) rfl rfl rfl rfl
    rw [mem_packets, txData, List.map_cons, List.mem_cons] at hq
    rcases hq with hq | rfl | hq
    · exact mem_packets.mpr (.inl (hl.subset (List.mem_cons_of_mem _ hq)))
    · exact mem_packets.mpr (.inl (hl.subset List.mem_cons_self))
    · exact mem_packets.mpr (.inr hq)

theorem eraseIdx_packets (s : TxStream) (twait : List ℤ) (i : ℕ) :
    ({ s with twait := twait, ackwait := s.ackwait.eraseIdx i } : TxStream).packets ⊆
      s.packets := by
  intro p hp
  refine mem_packets.mpr ((mem_packets.mp hp).imp_right fun hp => ?_)
  obtain ⟨r, hr, rfl⟩ := List.mem_map.mp hp
  exact List.mem_map.mpr ⟨r, (List.eraseIdx_sublist ..).subset hr, rfl⟩

theorem setLate_packets {i : ℕ} (hi : s.ackwait[i]? = some (p, false)) :
    ({ s with ackwait := s.ackwait.set i (p, true) } : TxStream).packets = s.packets := by
  have hp : (s.ackwait.map Prod.fst)[i]? = some p := by rw [List.getElem?_map, hi]; rfl
  obtain ⟨hlt, rfl⟩ := List.getElem?_eq_some_iff.mp hp
  rw [packets, packets, List.map_set, List.set_getElem_self]

theorem Tracked.missed {i : ℕ} (h : s.Tracked) (ht : s.missed i = some t) : t.Tracked := by
  obtain ⟨⟨p, late⟩, hi, rfl⟩ := Option.map_eq_some_iff.mp ht
  have hmem : p ∈ s.packets :=
    mem_packets.mpr (.inr (List.mem_map.mpr ⟨_, List.mem_of_getElem? hi, rfl⟩))
  dsimp only
  split_ifs with hl hd
  · exact h
  · exact h.of_subset (eraseIdx_packets s s.twait i) rfl rfl rfl rfl
  · obtain rfl : late = false := by simpa using hl
    refine h.requeue (t := TxStream.txenqueue _ p) hmem (by simpa using hd) ?_ rfl rfl rfl rfl
    refine List.Subset.trans (txenqueue_packets _ p) ?_
    rw [setLate_packets hi]
    exact List.Subset.refl _

/-- **One step.** -/
theorem Tracked.step {op : Op} (h : s.Tracked) (ht : s.step op = some t) : t.Tracked := by
  cases op with
  | writeData x =>
    obtain ⟨-, ht⟩ := Option.ite_none_left_eq_some.mp ht
    cases ht
    exact (h.writeLoop x.data x.endflags).of_subset (List.Subset.refl _) rfl rfl rfl rfl
  | writeDatagram data reliable =>
    cases ht
    rw [writeDatagram]
    split_ifs
    · exact h
    · exact h.writeFragments true data
  | transmit link => exact h.transmit ht
  | acked i =>
    obtain ⟨⟨p, late⟩, -, rfl⟩ := Option.map_eq_some_iff.mp ht
    exact h.of_subset (eraseIdx_packets s _ i) rfl rfl rfl rfl
  | missed i => exact h.missed ht
  | expire i =>
    obtain ⟨r, -, rfl⟩ := Option.map_eq_some_iff.mp ht
    exact h.of_subset (eraseIdx_packets s s.twait i) rfl rfl rfl rfl

end Tracked

/-- **Every run keeps them.** -/
theorem tracked_of_reach {C : TxStream → Op → Prop} {s : TxStream} (h : txMachine.Reach C s) :
    s.Tracked :=
  Machine.Reach.invariant (P := Tracked) tracked_new (fun _ _ _ _ h _ ht => h.step ht) h

end TxStream

end Sst
