import Sst.Stream.TxQueue

/-!
# The order of the transmit queue

The queue is to be in stream order, and first in, first out at equal positions. `txenqueue` compares
wrapped positions as plain numbers, so the order breaks where the signed 32-bit position wraps.

* `TxOrdered`: the order the queue is to have.
* `Comparable l n`: around the position `n` the wrapped positions of `l` compare like the absolute
  ones.
* **`Tracked.step_ordered_iff`**: a step keeps the order if and only if it meets
  `TxStream.KeepsOrder`.
* **`tqueue_ordered`**: the order holds throughout every run whose steps meet it.
* **`tqueue_disordered`**: it breaks between two segments on either side of `2 ^ 31` bytes.
-/

namespace Sst

open Word Transition Priority

namespace TxPacket

/-- Earlier in the stream, or at the same position and queued first. -/
def Before (p q : TxPacket) : Prop := p.pos < q.pos ∨ p.pos = q.pos ∧ p.stamp < q.stamp

/-- A datagram, or a segment with bytes of the stream. -/
def Carries (p : TxPacket) : Prop := p.isDatagram = true ∨ p.payload ≠ []

end TxPacket

/-- Stream order, first in, first out at equal positions; of a datagram and a segment with data, the
one written first comes first. -/
structure TxOrdered (l : List TxPacket) : Prop where
  stream : l.Pairwise TxPacket.Before
  datagrams : l.Pairwise fun p q =>
    p.isDatagram ≠ q.isDatagram → p.Carries → q.Carries → p.serial < q.serial

theorem TxOrdered.pos_sorted {l : List TxPacket} (h : TxOrdered l) :
    (l.map TxPacket.pos).Pairwise (· ≤ ·) :=
  List.pairwise_map.mpr (h.stream.imp fun hb => by rcases hb with hb | hb <;> omega)

/-- As signed 32-bit numbers, the positions beyond `n` are greater than `n`, and the last one at or
before `n` is not. -/
def Comparable (l : List TxPacket) (n : ℕ) : Prop :=
  (∀ q ∈ l, n < q.pos → wrap 32 n < wrap 32 q.pos) ∧
    ∀ q ∈ (l.filter fun q => decide (q.pos ≤ n)).getLast?, wrap 32 q.pos ≤ wrap 32 n

namespace TxStream

/-- The condition on a step: the positions of the packets it queues compare with those in the queue,
and with each other, like the absolute ones. -/
def KeepsOrder (s : TxStream) : Op → Prop
  | .writeData x => Comparable s.tqueue s.written ∧ ∀ k : ℕ, mtu * (k + 1) < x.data.length →
      wrap 32 (s.written + mtu * k : ℕ) ≤ wrap 32 (s.written + mtu * (k + 1) : ℕ)
  | .writeDatagram data reliable => ¬BySubstream data reliable → Comparable s.tqueue s.written
  | .missed i => ∀ p : TxPacket, s.ackwait[i]? = some (p, false) → p.isDatagram = false →
      Comparable s.tqueue p.pos
  | _ => True

section Order

variable {s t : TxStream} {p q : TxPacket} {l : List TxPacket} {n : ℕ}

theorem comparable_of_le (h : ∀ q ∈ l, q.pos ≤ n) :
    Comparable l n ↔ ∀ q ∈ l.getLast?, wrap 32 q.pos ≤ wrap 32 n := by
  have hfilter : (l.filter fun q => decide (q.pos ≤ n)) = l :=
    List.filter_eq_self.mpr fun q hq => decide_eq_true (h q hq)
  rw [Comparable, hfilter]
  refine and_iff_right fun q hq hlt => ?_
  have := h q hq
  omega

/-- Of a datagram and a segment with data, the one written first has the lesser position, or the
same and the lesser stamp. -/
theorem Tracked.serial_lt (h : s.Tracked) (hp : p ∈ s.packets) (hq : q ∈ s.packets)
    (hb : p.Before q) (hd : p.isDatagram ≠ q.isDatagram) (hcq : q.Carries) :
    p.serial < q.serial := by
  by_contra hlt
  rcases Nat.lt_or_eq_of_le (Nat.le_of_not_lt hlt) with hlt | heq
  · have hpos := h.follows q hq p hp hlt
    -- `q` was written first, so it takes no bytes: it is the datagram, and queued first.
    have hext : q.extent = 0 := by
      rcases hb with hb | hb <;> omega
    have hdq : q.isDatagram = true := by
      by_contra hdq
      rw [TxPacket.extent, if_neg hdq] at hext
      exact hcq.resolve_left hdq (List.length_eq_zero_iff.mp hext)
    have := h.queued q hq p hp hdq hlt
    rcases hb with hb | hb <;> omega
  · exact hd (h.kind q hq p hp heq).symm

theorem Tracked.ordered_iff (h : s.Tracked) :
    TxOrdered s.tqueue ↔ s.tqueue.Pairwise TxPacket.Before := by
  refine ⟨TxOrdered.stream, fun hs => ⟨hs, hs.imp_of_mem fun hp hq hb hd _ hcq => ?_⟩⟩
  exact h.serial_lt (mem_packets.mpr (.inl hp)) (mem_packets.mpr (.inl hq)) hb hd hcq

/-! ## One call of `txenqueue` -/

/-- The queued packets have their positions, and were queued by earlier calls. -/
def Numbered (s : TxStream) : Prop := ∀ q ∈ s.tqueue, q.tsn = wrap 32 q.pos ∧ q.stamp < s.stamps

theorem Tracked.numbered (h : s.Tracked) : s.Numbered := fun q hq =>
  ⟨h.tsn q (mem_packets.mpr (.inl hq)), h.stamp q (mem_packets.mpr (.inl hq))⟩

theorem Tracked.pos_le (h : s.Tracked) (hq : q ∈ s.tqueue) : q.pos ≤ s.written :=
  Nat.le_of_add_right_le (h.bound q (mem_packets.mpr (.inl hq)))

/-- **A queued packet is in its place** if and only if its position compares with the others. -/
theorem Numbered.txenqueue_iff (h : s.Numbered) (hs : s.tqueue.Pairwise TxPacket.Before)
    (hp : p.tsn = wrap 32 p.pos) :
    (s.txenqueue p).tqueue.Pairwise TxPacket.Before ↔ Comparable s.tqueue p.pos := by
  have hmono : s.tqueue.Pairwise fun c d =>
      decide (p.pos < c.pos) = true → decide (p.pos < d.pos) = true := by
    refine hs.imp fun {c d} hcd hc => ?_
    have hc := of_decide_eq_true hc
    rw [decide_eq_true_eq]
    rcases hcd with hcd | hcd <;> omega
  rw [txenqueue, pairwise_insertAhead_iff (q := fun b => decide (p.pos < b.pos)) hs ?_ ?_ hmono,
    Comparable]
  · refine and_congr (forall₂_congr fun q hq => ?_) ?_
    · rw [decide_eq_true_eq, decide_eq_true_eq, (h q hq).1, hp, sub_pos]
    · have hfilter : (s.tqueue.filter fun c => !decide (p.pos < c.pos)) =
          s.tqueue.filter fun c => decide (c.pos ≤ p.pos) :=
        List.filter_congr fun q _ => by rw [← decide_not, decide_eq_decide, not_lt]
      rw [hfilter]
      refine forall₂_congr fun q hq => ?_
      have hq' : q ∈ s.tqueue := (List.mem_filter.mp (List.mem_of_mem_getLast? hq)).1
      rw [decide_eq_false_iff_not, (h q hq').1, hp, sub_pos, not_lt]
  · intro q hq hlt
    have hlt := of_decide_eq_true hlt
    refine ⟨.inl hlt, ?_⟩
    rintro (hb | hb) <;> dsimp only at hb <;> omega
  · intro q hq hlt
    have hlt := of_decide_eq_false hlt
    have hst := (h q hq).2
    constructor
    · rcases Nat.lt_or_eq_of_le (Nat.le_of_not_lt hlt) with hlt | heq
      · exact .inl hlt
      · exact .inr ⟨heq, hst⟩
    · rintro (hb | hb) <;> dsimp only at hb <;> omega

theorem Numbered.txenqueue_eq_concat (h : s.Numbered) (hp : p.tsn = wrap 32 p.pos)
    (hle : ∀ q ∈ s.tqueue, q.pos ≤ p.pos) (hc : Comparable s.tqueue p.pos) :
    (s.txenqueue p).tqueue = s.tqueue ++ [{ p with stamp := s.stamps }] := by
  have hlast := (comparable_of_le hle).mp hc
  rcases List.eq_nil_or_concat' s.tqueue with hnil | ⟨l, q, hl⟩
  · rw [txenqueue, hnil]
    rfl
  · have hq : q ∈ s.tqueue := by rw [hl]; simp
    have hneg : decide (0 < q.tsn - p.tsn) = false := by
      have := hlast q (by rw [hl, List.getLast?_concat]; rfl)
      rw [decide_eq_false_iff_not, (h q hq).1, hp, sub_pos, not_lt]
      exact this
    rw [txenqueue, hl]
    exact insertAhead_concat_neg (p := fun b : TxPacket => decide (0 < b.tsn - p.tsn)) hneg

theorem comparable_concat {m : ℕ} (h : ∀ q ∈ l, q.pos ≤ m) (hp : p.pos = m) (hmn : m ≤ n) :
    Comparable (l ++ [p]) n ↔ wrap 32 m ≤ wrap 32 n := by
  rw [comparable_of_le, List.getLast?_concat]
  · simp [hp]
  · intro q hq
    rcases List.mem_append.mp hq with hq | hq
    · exact (h q hq).trans hmn
    · rw [List.mem_singleton.mp hq, hp]
      exact hmn

theorem sublist_txenqueue (s : TxStream) (p : TxPacket) :
    s.tqueue.Sublist (s.txenqueue p).tqueue :=
  sublist_insertAhead ..

/-! ## The loop of `writeData` -/

theorem Tracked.writeSegment_iff (h : s.Tracked) (hs : s.tqueue.Pairwise TxPacket.Before)
    (flags : Flags) (chunk : List UInt8) :
    (s.writeSegment flags chunk).tqueue.Pairwise TxPacket.Before ↔
      Comparable s.tqueue s.written :=
  Numbered.txenqueue_iff (s := { s with
    tasn := wrap 32 (s.tasn + chunk.length)
    twait := s.twait.insert s.tasn
    written := s.written + chunk.length
    serials := s.serials + 1 }) h.numbered hs h.tasn

theorem Tracked.writeSegment_eq_concat (h : s.Tracked) (hc : Comparable s.tqueue s.written)
    (flags : Flags) (chunk : List UInt8) :
    (s.writeSegment flags chunk).tqueue =
      s.tqueue ++ [⟨.data flags, s.tasn, chunk, s.written, s.serials, s.stamps⟩] :=
  Numbered.txenqueue_eq_concat (s := { s with
    tasn := wrap 32 (s.tasn + chunk.length)
    twait := s.twait.insert s.tasn
    written := s.written + chunk.length
    serials := s.serials + 1 }) h.numbered h.tasn (fun _ hq => h.pos_le hq) hc

theorem sublist_writeLoop (s : TxStream) (data : List UInt8) (endflags : Flags) :
    s.tqueue.Sublist (s.writeLoop data endflags).tqueue := by
  fun_induction TxStream.writeLoop s data endflags with
  | case1 s data hlen => exact sublist_txenqueue ..
  | case2 s data hlen ih => exact List.Sublist.trans (sublist_txenqueue ..) ih

/-- **The loop of `writeData`** keeps the order if and only if the position of each segment compares
with that of the one before. -/
theorem Tracked.writeLoop_iff {data : List UInt8} {endflags : Flags} (h : s.Tracked)
    (hs : s.tqueue.Pairwise TxPacket.Before) :
    (s.writeLoop data endflags).tqueue.Pairwise TxPacket.Before ↔
      Comparable s.tqueue s.written ∧ ∀ k : ℕ, mtu * (k + 1) < data.length →
        wrap 32 (s.written + mtu * k : ℕ) ≤ wrap 32 (s.written + mtu * (k + 1) : ℕ) := by
  fun_induction TxStream.writeLoop s data endflags with
  | case1 s data hlen =>
    rw [h.writeSegment_iff hs, iff_self_and]
    intro _ k hk
    have : mtu ≤ mtu * (k + 1) := Nat.le_mul_of_pos_right _ (Nat.succ_pos k)
    omega
  | case2 s data hlen ih =>
    -- A segment out of place stays so; otherwise it is the last one for the rest of the loop.
    by_cases hc : Comparable s.tqueue s.written
    · have hlast := h.writeSegment_eq_concat hc ⟨false, false, false⟩ (data.take mtu)
      have hlen' : (data.take mtu).length = mtu := by
        rw [List.length_take]
        omega
      have hw : (s.writeSegment ⟨false, false, false⟩ (data.take mtu)).written = s.written + mtu :=
        congrArg (s.written + ·) hlen'
      rw [ih (h.writeSegment _ _) ((h.writeSegment_iff hs _ _).mpr hc), hw, hlast,
        comparable_concat (fun q hq => h.pos_le hq) rfl (Nat.le_add_right ..), List.length_drop,
        and_iff_right hc]
      have hshift : ∀ k, s.written + mtu + mtu * k = s.written + mtu * (k + 1) := fun k => by ring
      simp only [hshift]
      constructor
      · rintro ⟨h0, hk⟩ (_ | k) hlt
        · simpa using h0
        · exact hk k (by rw [Nat.mul_add] at hlt; omega)
      · intro hk
        refine ⟨by simpa using hk 0 (by omega), fun k hlt => hk (k + 1) ?_⟩
        rw [Nat.mul_add]
        omega
    · refine iff_of_false (fun hp => ?_) fun hp => hc hp.1
      exact hc ((h.writeSegment_iff hs _ _).mp (hp.sublist (sublist_writeLoop ..)))

/-! ## The loop of `writeDatagram` -/

theorem Tracked.writeFragment_iff (h : s.Tracked) (hs : s.tqueue.Pairwise TxPacket.Before)
    (first last : Bool) (chunk : List UInt8) :
    (s.writeFragment first last chunk).tqueue.Pairwise TxPacket.Before ↔
      Comparable s.tqueue s.written :=
  Numbered.txenqueue_iff (s := { s with serials := s.serials + 1 }) h.numbered hs h.tasn

theorem Tracked.writeFragment_eq_concat (h : s.Tracked) (hc : Comparable s.tqueue s.written)
    (first last : Bool) (chunk : List UInt8) :
    (s.writeFragment first last chunk).tqueue =
      s.tqueue ++ [⟨.datagram first last, s.tasn, chunk, s.written, s.serials, s.stamps⟩] :=
  Numbered.txenqueue_eq_concat (s := { s with serials := s.serials + 1 }) h.numbered h.tasn
    (fun _ hq => h.pos_le hq) hc

theorem sublist_writeFragments (s : TxStream) (first : Bool) (data : List UInt8) :
    s.tqueue.Sublist (s.writeFragments first data).tqueue := by
  fun_induction TxStream.writeFragments s first data with
  | case1 s first data hlen => exact sublist_txenqueue ..
  | case2 s first data hlen ih => exact List.Sublist.trans (sublist_txenqueue ..) ih

/-- The fragments have one position, so only the first one is compared with the queue. -/
theorem Tracked.writeFragments_iff {first : Bool} {data : List UInt8} (h : s.Tracked)
    (hs : s.tqueue.Pairwise TxPacket.Before) :
    (s.writeFragments first data).tqueue.Pairwise TxPacket.Before ↔
      Comparable s.tqueue s.written := by
  fun_induction TxStream.writeFragments s first data with
  | case1 s first data hlen => exact h.writeFragment_iff hs _ _ _
  | case2 s first data hlen ih =>
    by_cases hc : Comparable s.tqueue s.written
    · have hw : (s.writeFragment first false (data.take mtu)).written = s.written := rfl
      rw [ih (h.writeFragment _ _ _) ((h.writeFragment_iff hs _ _ _).mpr hc), hw,
        h.writeFragment_eq_concat hc, comparable_concat (fun q hq => h.pos_le hq) rfl le_rfl]
      exact iff_of_true le_rfl hc
    · refine iff_of_false (fun hp => ?_) hc
      exact hc ((h.writeFragment_iff hs _ _ _).mp (hp.sublist (sublist_writeFragments ..)))

/-! ## Every step -/

/-- **A step keeps the order** if and only if it meets the condition. -/
theorem Tracked.step_ordered_iff {op : Op} (h : s.Tracked) (ho : TxOrdered s.tqueue)
    (ht : s.step op = some t) : TxOrdered t.tqueue ↔ s.KeepsOrder op := by
  rw [(h.step ht).ordered_iff]
  have hs := ho.stream
  cases op with
  | writeData x =>
    obtain ⟨-, ht⟩ := Option.ite_none_left_eq_some.mp ht
    cases ht
    exact h.writeLoop_iff hs
  | writeDatagram data reliable =>
    cases ht
    rw [writeDatagram, KeepsOrder]
    split_ifs with hb
    · exact iff_of_true hs fun hn => absurd hb hn
    · rw [h.writeFragments_iff hs]
      exact ⟨fun hc _ => hc, fun hc => hc hb⟩
  | transmit link =>
    refine iff_of_true ?_ trivial
    rcases transmit_cases ht with ⟨l, hl, rfl⟩ | ⟨p, l, wire, hl, -, rfl⟩
    · exact hs.sublist hl.sublist
    · exact hs.sublist ((List.sublist_cons_self ..).trans hl.sublist)
  | acked i =>
    obtain ⟨r, -, rfl⟩ := Option.map_eq_some_iff.mp ht
    exact iff_of_true hs trivial
  | missed i =>
    obtain ⟨⟨p, late⟩, hi, rfl⟩ := Option.map_eq_some_iff.mp ht
    have hp : p.tsn = wrap 32 p.pos := h.tsn p
      (mem_packets.mpr (.inr (List.mem_map.mpr ⟨_, List.mem_of_getElem? hi, rfl⟩)))
    dsimp only
    rw [KeepsOrder]
    split_ifs with hl hd
    · refine iff_of_true hs fun q hq => ?_
      rw [hi, hl] at hq
      cases hq
    · refine iff_of_true hs fun q hq hdq => ?_
      rw [hi] at hq
      cases hq
      rw [hd] at hdq
      cases hdq
    · obtain rfl : late = false := by simpa using hl
      refine (Numbered.txenqueue_iff (s := { s with ackwait := s.ackwait.set i (p, true) })
        h.numbered hs hp).trans ?_
      constructor
      · intro hc q hq _
        rw [hi] at hq
        cases hq
        exact hc
      · intro hc
        exact hc p hi (by simpa using hd)
  | expire i =>
    obtain ⟨r, -, rfl⟩ := Option.map_eq_some_iff.mp ht
    exact iff_of_true hs trivial

end Order

theorem writeData_short {s : TxStream} {x : Write} (he : s.endwrite = false)
    (hx : x.data.length ≤ mtu) : s.writeData x =
      some { s.writeSegment x.endflags.pushed x.data with endwrite := x.endflags.close } := by
  rw [writeData, if_neg (by rw [he]; exact Bool.false_ne_true), TxStream.writeLoop, if_pos hx]

theorem writeDatagram_short {s : TxStream} {data : List UInt8} (hd : data.length ≤ mtu) :
    s.writeDatagram data false = s.writeFragment true true data := by
  have hb : ¬BySubstream data false := by
    rintro (h | h)
    · cases h
    · omega
  rw [writeDatagram, if_neg hb, TxStream.writeFragments, if_pos hd]

/-- Within the first `2 ^ 31` bytes every step keeps the order. -/
theorem Tracked.keepsOrder {s : TxStream} {op : Op} (h : s.Tracked) (hw : s.written < 2 ^ 31)
    (hop : ∀ x, op = .writeData x → s.written + x.data.length < 2 ^ 31) : s.KeepsOrder op := by
  have hself : ∀ n : ℕ, n < 2 ^ 31 → wrap 32 n = n := fun n hn =>
    wrap_eq_self (by omega) (by omega) (by omega)
  have hcomp : ∀ n, n < 2 ^ 31 → Comparable s.tqueue n := by
    intro n hn
    refine ⟨fun q hq hlt => ?_, fun q hq => ?_⟩
    · rw [hself n hn, hself q.pos ((h.pos_le hq).trans_lt hw)]
      exact_mod_cast hlt
    · have hq := List.mem_filter.mp (List.mem_of_mem_getLast? hq)
      rw [hself n hn, hself q.pos ((h.pos_le hq.1).trans_lt hw)]
      exact_mod_cast of_decide_eq_true hq.2
  cases op with
  | writeData x =>
    have hx := hop x rfl
    refine ⟨hcomp _ hw, fun k hk => ?_⟩
    have hle : mtu * k ≤ mtu * (k + 1) := Nat.mul_le_mul_left _ (Nat.le_succ k)
    rw [hself _ (by omega), hself _ (by omega)]
    omega
  | writeDatagram data reliable => exact fun _ => hcomp _ hw
  | missed i =>
    intro p hp _
    have hb := h.bound p
      (mem_packets.mpr (.inr (List.mem_map.mpr ⟨_, List.mem_of_getElem? hp, rfl⟩)))
    exact hcomp _ (by omega)
  | transmit | acked | expire => trivial

end TxStream

open TxStream

/-- **The transmit queue is in order** in every state of a run whose steps meet the condition, and
the next step keeps it in order if and only if it meets the condition too. -/
theorem tqueue_ordered {s : TxStream} (h : txMachine.Reach KeepsOrder s) :
    TxOrdered s.tqueue ∧ ∀ op t, s.step op = some t → (TxOrdered t.tqueue ↔ s.KeepsOrder op) := by
  have ho : TxOrdered s.tqueue := by
    induction h with
    | init => exact ⟨List.Pairwise.nil, List.Pairwise.nil⟩
    | step hr hc ht ih => exact ((tracked_of_reach hr).step_ordered_iff ih ht).mpr hc
  exact ⟨ho, fun op t ht => (tracked_of_reach h).step_ordered_iff ho ht⟩

/-- A segment is lost and queued again, ahead of a datagram written after it. -/
theorem tqueue_ordered_requeued : ∃ s, txMachine.Reach KeepsOrder s ∧
    s.tqueue.map (fun p => (p.pos, p.isDatagram)) = [(0, false), (3, true)] ∧
    TxOrdered s.tqueue := by
  obtain ⟨s₁, s₂, s₃, s₄, h₁, h₂, h₃, h₄, hw₂, hw₃, hq⟩ : ∃ s₁ s₂ s₃ s₄ : TxStream,
      new.step (.writeData ⟨[1, 2, 3], ⟨true, false, false⟩⟩) = some s₁ ∧
      s₁.step (.transmit .acked) = some s₂ ∧ s₂.step (.writeDatagram [4] false) = some s₃ ∧
      s₃.step (.missed 0) = some s₄ ∧ s₂.written = 3 ∧ s₃.written = 3 ∧
      s₄.tqueue.map (fun p => (p.pos, p.isDatagram)) = [(0, false), (3, true)] :=
    ⟨_, _, _, _, writeData_short rfl (by decide), rfl,
      congrArg some (writeDatagram_short (by decide)), rfl, rfl, rfl, by decide +kernel⟩
  have hr : txMachine.Reach KeepsOrder s₄ := by
    have r₀ : txMachine.Reach KeepsOrder new := .init
    have r₁ : txMachine.Reach KeepsOrder s₁ := r₀.step (i := .writeData _)
      ((tracked_of_reach r₀).keepsOrder (by decide) (by rintro x ⟨⟩; decide)) h₁
    have r₂ : txMachine.Reach KeepsOrder s₂ := r₁.step (i := .transmit .acked) trivial h₂
    have r₃ : txMachine.Reach KeepsOrder s₃ := r₂.step (i := .writeDatagram [4] false)
      ((tracked_of_reach r₂).keepsOrder (by rw [hw₂]; decide) (by rintro x ⟨⟩)) h₃
    exact r₃.step (i := .missed 0)
      ((tracked_of_reach r₃).keepsOrder (by rw [hw₃]; decide) (by rintro x ⟨⟩)) h₄
  exact ⟨s₄, hr, hq, (tqueue_ordered hr).1⟩

/-! ## The wrap -/

/-- A write of one segment. -/
def oneSegment : Op := .writeData ⟨List.replicate mtu 0, ⟨false, false, false⟩⟩

/-- The packet that it makes. -/
def nextPacket (s : TxStream) : TxPacket :=
  ⟨.data ⟨true, false, false⟩, s.tasn, List.replicate mtu 0, s.written, s.serials, s.stamps⟩

theorem step_oneSegment {s : TxStream} (hq : s.tqueue = []) (he : s.endwrite = false) :
    ∃ t, s.step oneSegment = some t ∧ t.tqueue = [nextPacket s] ∧
      t.isStale (nextPacket s) = false ∧ t.ackwait = s.ackwait ∧ t.sent = s.sent ∧
      t.endwrite = false ∧ t.written = s.written + mtu := by
  have hlen : (List.replicate mtu (0 : UInt8)).length = mtu := List.length_replicate
  refine ⟨_, writeData_short he hlen.le, ?_, ?_, rfl, rfl, rfl, congrArg (s.written + ·) hlen⟩
  · change insertAhead _ (nextPacket s) s.tqueue = _
    rw [hq]
    rfl
  · have hmem : s.tasn ∈ s.twait.insert s.tasn := List.mem_insert_self
    change (true && decide (s.tasn ∉ s.twait.insert s.tasn)) = false
    rw [decide_eq_false (not_not_intro hmem), Bool.and_false]

theorem step_transmit_one {s : TxStream} {p : TxPacket} {wire : TxWire} (link : TxLink)
    (hq : s.tqueue = [p]) (hp : s.isStale p = false) (hd : p.isDatagram = false)
    (hw : link.segment p = some wire) :
    s.step (.transmit link) = some (s.txData p [] wire) := by
  change s.transmit link = _
  rw [transmit, if_neg (by rw [hq]; exact List.cons_ne_nil _ _), hq,
    List.dropWhile_cons_of_neg (by rw [hp]; exact Bool.false_ne_true)]
  dsimp only
  rw [hd, if_neg Bool.false_ne_true, hw]

theorem idle_round {s : TxStream} (hq : s.tqueue = []) (ha : s.ackwait = [])
    (he : s.endwrite = false) : ∃ t, txMachine.run s [oneSegment, .transmit .acked, .acked 0] =
      some t ∧ t.tqueue = [] ∧ t.ackwait = [] ∧ t.endwrite = false ∧
      t.written = s.written + mtu := by
  obtain ⟨t, h1, hq1, hp, ha1, -, he1, hw1⟩ := step_oneSegment hq he
  have h2 := step_transmit_one .acked hq1 hp rfl rfl
  let u : TxStream := { t with
    tqueue := []
    twait := t.twait.erase s.tasn
    sent := (nextPacket s, .data (BitVec.ofInt 32 s.tasn)) :: t.sent }
  have h3 : (t.txData (nextPacket s) [] (.data (BitVec.ofInt 32 s.tasn))).step (.acked 0) =
      some u := rfl
  refine ⟨u, ?_, rfl, ha1.trans ha, he1, hw1⟩
  rw [Machine.run_cons, show txMachine.step s oneSegment = some t from h1, Option.bind_some,
    Machine.run_cons, show txMachine.step t (.transmit .acked) = _ from h2, Option.bind_some]
  exact congrArg (fun o => o.bind fun t => txMachine.run t []) h3

theorem exists_idle (n : ℕ) : ∃ s : TxStream, txMachine.Reach Machine.always s ∧ s.tqueue = [] ∧
    s.ackwait = [] ∧ s.endwrite = false ∧ s.written = mtu * n := by
  induction n with
  | zero => exact ⟨new, .init, rfl, rfl, rfl, rfl⟩
  | succ n ih =>
    obtain ⟨s, hr, hq, ha, he, hw⟩ := ih
    obtain ⟨t, ht, hq', ha', he', hw'⟩ := idle_round hq ha he
    exact ⟨t, hr.extend (fun _ _ _ => trivial) ht, hq', ha', he', by rw [hw', hw]; rfl⟩

/-- **Two segments on either side of `2 ^ 31` bytes**: the later one goes first. -/
theorem tqueue_disordered : ∃ s t u : TxStream, txMachine.Reach Machine.always s ∧
    s.written = 2147482800 ∧ s.step oneSegment = some t ∧ t.step oneSegment = some u ∧
    u.tqueue.map TxPacket.pos = [2147484000, 2147482800] ∧ ¬TxOrdered u.tqueue := by
  obtain ⟨s, hr, hq, ha, he, hw⟩ := exists_idle 1789569
  obtain ⟨t, h1, hq1, -, -, -, he1, hw1⟩ := step_oneSegment hq he
  have htw : t.written = 2147484000 := by rw [hw1, hw]; rfl
  have hs := tracked_of_reach hr
  have ht := hs.step h1
  -- The position of the first segment is positive, that of the second one negative.
  have hbeyond : decide (0 < (nextPacket s).tsn - (nextPacket t).tsn) = true := by
    change decide (0 < s.tasn - t.tasn) = true
    rw [ht.tasn, hs.tasn, htw, hw]
    decide +kernel
  have hlen : (List.replicate mtu (0 : UInt8)).length = mtu := List.length_replicate
  refine ⟨s, t, _, hr, hw, h1, writeData_short he1 hlen.le, ?_⟩
  have hpos : (insertAhead (fun b => decide (0 < b.tsn - (nextPacket t).tsn)) (nextPacket t)
      t.tqueue).map TxPacket.pos = [2147484000, 2147482800] := by
    have hins := insertAhead_concat_pos (p := fun b : TxPacket =>
      decide (0 < b.tsn - (nextPacket t).tsn)) (a := nextPacket t) (l := []) hbeyond
    rw [hq1, ← List.nil_append [nextPacket s], hins]
    exact congrArg₂ (fun a b => [a, b]) htw hw
  exact ⟨hpos, fun ho => absurd ((congrArg (List.Pairwise (· ≤ ·)) hpos).mp ho.pos_sorted)
    (by decide)⟩

end Sst
