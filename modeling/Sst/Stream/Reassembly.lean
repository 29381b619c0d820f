import Sst.Stream.Position

/-!
# Reassembly

Segments of one fixed stream arrive in any order, with losses, duplicates and overlaps, while the
application reads.

* `bytes stream p n`: the bytes of the stream from `p` on.
* `Prefix`: the bytes consumed are a prefix, and the pending segments are correct.
* `RxStream.readLoop_spec`: a read moves bytes from the queue to the application.
* **`reassembly`**: no byte is lost, duplicated or reordered.
* `readMessage_drops`: the bytes that `readMessage` drops do not reach the application.
-/

namespace Sst

open Word

/-- The `n` bytes of the stream from position `p` on. -/
def bytes (stream : ℕ → UInt8) (p n : ℕ) : List UInt8 := (List.range' p n).map stream

theorem bytes_length (stream : ℕ → UInt8) (p n : ℕ) : (bytes stream p n).length = n := by
  rw [bytes, List.length_map, List.length_range']

theorem bytes_append (stream : ℕ → UInt8) (p m n : ℕ) :
    bytes stream p m ++ bytes stream (p + m) n = bytes stream p (m + n) := by
  rw [bytes, bytes, bytes, ← List.map_append, List.range'_append_1]

theorem bytes_drop (stream : ℕ → UInt8) (p n k : ℕ) :
    (bytes stream p n).drop k = bytes stream (p + k) (n - k) := by
  rw [bytes, bytes, ← List.map_drop, List.drop_range']
  simp

/-- The segment carries the bytes of the stream at its position, and no close flag. -/
def Carries (stream : ℕ → UInt8) (x : Placed) : Prop :=
  x.2.buf = bytes stream x.1 x.2.buf.length ∧ x.2.flags.close = false

/-- The bytes consumed are the first `R` of the stream, and pending segments are correct. -/
structure Prefix (stream : ℕ → UInt8) (s : RxStream) (R : ℕ) (L : List Placed) (closed : Bool) :
    Prop where
  consumed : s.consumed = bytes stream 0 R
  pending : ∀ x ∈ L, Carries stream x
  noClose : ∀ seg ∈ s.rsegs, seg.flags.close = false
  notClosed : closed = false
  reading : s.endread = false

namespace RxStream

variable {stream : ℕ → UInt8}

theorem consumed_take (s : RxStream) (x : Placed) (R : ℕ) :
    (s.take x R).consumed = s.consumed ++ x.2.buf.drop (R - x.1) := by
  unfold consumed removed queued
  rw [take_reads, take_rsegs, List.flatMap_append, List.flatMap_singleton, RxSegment.payload,
    List.append_assoc]

/-- **Reception keeps the prefix.** -/
theorem handles_prefix (stream : ℕ → UInt8) : Handles (Prefix stream) where
  skip s R x L c h hx hst :=
    ⟨h.consumed, fun y hy => h.pending y (List.mem_cons_of_mem x hy), h.noClose, h.notClosed,
      h.reading⟩
  take s R x L c h hx h1 h2 h3 := by
    obtain ⟨hbuf, hclose⟩ := h.pending x List.mem_cons_self
    refine ⟨?_, fun y hy => h.pending y (List.mem_cons_of_mem x hy), ?_, ?_,
      (take_endread s x R).trans h.reading⟩
    · have hpay : x.2.buf.drop (R - x.1) = bytes stream (0 + R) (x.stop - R) := by
        rw [hbuf, bytes_drop, Placed.stop]
        congr 1 <;> omega
      rw [consumed_take, hpay, h.consumed, bytes_append]
      congr 1
      omega
    · intro seg hseg
      rw [take_rsegs] at hseg
      rcases List.mem_append.mp hseg with hseg | hseg
      · exact h.noClose seg hseg
      · rw [List.mem_singleton.mp hseg]
        exact hclose
    · rw [h.notClosed, hclose]
      rfl
  perm s R L L' c h hp :=
    ⟨h.consumed, fun y hy => h.pending y (hp.mem_iff.mpr hy), h.noClose, h.notClosed, h.reading⟩
  repeated s R x y L c h _ _ _ _ :=
    ⟨h.consumed, fun y hy => h.pending y (List.mem_cons_of_mem x hy), h.noClose, h.notClosed,
      h.reading⟩

/-! ## Reads -/

/-- What a read leaves alone. -/
structure SameAhead (s t : RxStream) : Prop where
  rsn : t.rsn = s.rsn
  rahead : t.rahead = s.rahead
  endread : t.endread = s.endread
  reads : t.reads = s.reads

theorem sameAhead_account (s : RxStream) (size : ℤ) : SameAhead s (s.account size).1 := by
  dsimp only [account]
  split
  · exact ⟨rfl, rfl, rfl, rfl⟩
  · split_ifs <;> exact ⟨rfl, rfl, rfl, rfl⟩

theorem rmsgsize_account (s : RxStream) (size : ℤ) :
    (s.account size).1.rmsgsize.length + (s.account size).2.toNat = s.rmsgsize.length := by
  dsimp only [account]
  split
  · rename_i h
    rw [h]
    rfl
  · rename_i h
    rw [h]
    split_ifs <;> rfl

theorem SameAhead.trans {s t u : RxStream} (h₁ : SameAhead s t) (h₂ : SameAhead t u) :
    SameAhead s u :=
  ⟨h₂.rsn.trans h₁.rsn, h₂.rahead.trans h₁.rahead, h₂.endread.trans h₁.endread,
    h₂.reads.trans h₁.reads⟩

theorem length_payload {seg : RxSegment} {n : ℕ} (h : ¬(n : ℤ) < seg.segmentSize) :
    seg.payload.length ≤ n ∧ seg.payload.length = seg.segmentSize.toNat := by
  rw [RxSegment.segmentSize] at h ⊢
  rw [RxSegment.payload, List.length_drop]
  omega

/-- **The read loop** moves the bytes of the segments it dequeues, and stops when the buffer is
full, when nothing is available or at a message boundary. -/
theorem readLoop_spec : ∀ (rsegs : List RxSegment) (s t : RxStream) (maxSize : ℕ)
    (data data' : List UInt8), (∀ seg ∈ rsegs, seg.flags.close = false) →
    readLoop rsegs s maxSize data = some (t, data') →
    SameAhead s t ∧ (∀ seg ∈ t.rsegs, seg ∈ rsegs) ∧
      data ++ rsegs.flatMap RxSegment.payload = data' ++ t.queued ∧
      (data'.length = data.length + maxSize ∨ t.ravail ≤ 0 ∨
        t.rmsgsize.length + 1 = s.rmsgsize.length) ∧ t.rmsgsize.length ≤ s.rmsgsize.length := by
  intro rsegs
  induction rsegs with
  | nil =>
    intro s t maxSize data data' _ h
    unfold readLoop at h
    split_ifs at h with h1
    cases h
    refine ⟨⟨rfl, rfl, rfl, rfl⟩, nofun, rfl, ?_, le_rfl⟩
    rcases (Bool.or_eq_true _ _).mp h1 with h1 | h1
    · exact .inl (by rw [of_decide_eq_true h1, Nat.add_zero])
    · exact .inr (.inl (of_decide_eq_true h1))
  | cons rseg rsegs ih =>
    intro s t maxSize data data' hc h
    obtain ⟨hc1, hc2⟩ := List.forall_mem_cons.mp hc
    unfold readLoop at h
    split_ifs at h with h1
    · cases h
      refine ⟨⟨rfl, rfl, rfl, rfl⟩, fun _ h => h, rfl, ?_, le_rfl⟩
      rcases (Bool.or_eq_true _ _).mp h1 with h1 | h1
      · exact .inl (by rw [of_decide_eq_true h1, Nat.add_zero])
      · exact .inr (.inl (of_decide_eq_true h1))
    · dsimp only at h
      have hsame := sameAhead_account s rseg.segmentSize
      have hlen := rmsgsize_account s rseg.segmentSize
      generalize s.account rseg.segmentSize = a at h hsame hlen
      obtain ⟨u, boundary⟩ := a
      dsimp only at h hsame hlen
      rw [hc1, Bool.false_and, Bool.false_and, if_neg Bool.false_ne_true] at h
      split_ifs at h with h2 h3
      · cases h
        rw [h3, Bool.toNat_true] at hlen
        refine ⟨⟨hsame.rsn, hsame.rahead, hsame.endread, hsame.reads⟩,
          fun _ h => List.mem_cons_of_mem _ h, ?_, .inr (.inr hlen), ?_⟩
        · rw [List.flatMap_cons, ← List.append_assoc]
          rfl
        · change u.rmsgsize.length ≤ _
          omega
      · rw [Bool.eq_false_iff.mpr h3, Bool.toNat_false, Nat.add_zero] at hlen
        obtain ⟨h5, h6, h7, h8, h9⟩ := ih u t _ _ data' hc2 h
        obtain ⟨h10, h11⟩ := length_payload h2
        refine ⟨hsame.trans h5, fun seg hseg => List.mem_cons_of_mem _ (h6 seg hseg), ?_, ?_, ?_⟩
        · rw [List.flatMap_cons, ← List.append_assoc]
          exact h7
        · rw [List.length_append] at h8
          rw [← hlen]
          exact h8.imp_left fun h8 => by omega
        · omega

/-- Segments without the close flag arrive, each carrying the bytes of the stream at a position
less than `2 ^ 31` from the receive point. -/
def Arriving (stream : ℕ → UInt8) (s : RxStream) (op : Op) : Prop :=
  ∀ seg, op = .rxData seg → ∃ p, Fits (p, seg) ∧ Carries stream (p, seg) ∧
    s.consumed.length ≤ p + 2 ^ 31 ∧ p < s.consumed.length + 2 ^ 31

/-- A drop needs a full buffer. -/
def DropsBehindFull (s : RxStream) : Prop :=
  ∀ r ∈ s.reads, r.dropped ≠ [] → r.returned.length = r.maxSize

/-- The state between operations. -/
structure Reassembled (stream : ℕ → UInt8) (s : RxStream) (R : ℕ) (L : List Placed) : Prop where
  located : Located s R L
  pre : Prefix stream s R L false
  drops : s.DropsBehindFull

namespace Reassembled

variable {s : RxStream} {R : ℕ} {L : List Placed}

theorem length (h : Reassembled stream s R L) : s.consumed.length = R := by
  rw [h.pre.consumed, bytes_length]

theorem new {connected : Bool} : Reassembled stream (.new connected) 0 [] :=
  ⟨⟨(wrap_zero 32).symm, rfl, nofun, .nil, nofun⟩, ⟨rfl, nofun, nofun, rfl, rfl⟩, nofun⟩

theorem rxData_handles {P : RxStream → ℕ → List Placed → Bool → Prop} (hP : Handles P) {x : Placed}
    (h : Reassembled stream s R L) (hx : Fits x) (hc : Carries stream x) (h1 : R ≤ x.1 + 2 ^ 31)
    (h2 : x.1 < R + 2 ^ 31) (hs : P s.core R (x :: L) false) :
    ∃ R' L', Reassembled stream (s.rxData x.2) R' L' ∧ P (s.rxData x.2).core R' L' false := by
  have hpre : Prefix stream s.core R (x :: L) false :=
    ⟨h.pre.consumed, List.forall_mem_cons.mpr ⟨hc, h.pre.pending⟩, h.pre.noClose, rfl,
      h.pre.reading⟩
  have hH : Handles fun t R L c => (Prefix stream t R L c ∧ t.reads = s.reads) ∧ P t R L c := by
    obtain ⟨h1, h2, h3, h4⟩ := handles_prefix stream
    exact ⟨fun t R x L c hp hx hst => ⟨⟨h1 t R x L c hp.1.1 hx hst, hp.1.2⟩,
        hP.skip t R x L c hp.2 hx hst⟩,
      fun t R x L c hp hx h5 h6 h7 => ⟨⟨h2 t R x L c hp.1.1 hx h5 h6 h7,
        (take_reads t x R).trans hp.1.2⟩, hP.take t R x L c hp.2 hx h5 h6 h7⟩,
      fun t R L L' c hp hL => ⟨⟨h3 t R L L' c hp.1.1 hL, hp.1.2⟩, hP.perm t R L L' c hp.2 hL⟩,
      fun t R x y L c hp h5 h6 h7 h8 => ⟨⟨h4 t R x y L c hp.1.1 h5 h6 h7 h8, hp.1.2⟩,
        hP.repeated t R x y L c hp.2 h5 h6 h7 h8⟩⟩
  obtain ⟨t, R', L', closed, h3, ⟨⟨h4, h5⟩, h6⟩, h7⟩ :=
    rxData_spec hH h.located hx h1 h2 h.pre.reading ⟨⟨hpre, rfl⟩, hs⟩
  have hclosed := h4.notClosed
  subst hclosed
  have hreads : t.reads = s.reads := h5
  refine ⟨R', L', ?_, ?_⟩
  · rw [h7]
    exact ⟨h3, ⟨h4.consumed, h4.pending, h4.noClose, rfl, h4.reading⟩,
      fun r hr => h.drops r (hreads ▸ hr)⟩
  · rw [h7]
    exact h6

theorem rxData {x : Placed} (h : Reassembled stream s R L) (hx : Fits x)
    (hc : Carries stream x) (h1 : R ≤ x.1 + 2 ^ 31) (h2 : x.1 < R + 2 ^ 31) :
    ∃ R' L', Reassembled stream (s.rxData x.2) R' L' := by
  have htrue : Handles fun _ _ _ _ => True :=
    ⟨fun _ _ _ _ _ _ _ _ => trivial, fun _ _ _ _ _ _ _ _ _ _ => trivial,
      fun _ _ _ _ _ _ _ => trivial, fun _ _ _ _ _ _ _ _ _ _ _ => trivial⟩
  obtain ⟨R', L', hstate, -⟩ := h.rxData_handles htrue hx hc h1 h2 trivial
  exact ⟨R', L', hstate⟩

theorem takeData {t : RxStream} {maxSize : ℕ} {data : List UInt8} (h : Reassembled stream s R L)
    (ht : s.takeData maxSize = some (t, data)) :
    Located t R L ∧ t.endread = false ∧ t.reads = s.reads ∧
      (∀ seg ∈ t.rsegs, seg.flags.close = false) ∧ s.queued = data ++ t.queued ∧
      (data.length = maxSize ∨ t.ravail ≤ 0 ∨ t.rmsgsize.length + 1 = s.rmsgsize.length) := by
  obtain ⟨h1, h2, h3, h4, -⟩ := readLoop_spec s.rsegs s t maxSize [] data h.pre.noClose ht
  refine ⟨?_, h1.endread.trans h.pre.reading, h1.reads,
    fun seg hseg => h.pre.noClose seg (h2 seg hseg), h3, by simpa using h4⟩
  exact ⟨h1.rsn.trans h.located.rsn, h1.rahead.trans h.located.rahead, h.located.fits,
    h.located.sorted, h.located.beyond⟩

theorem record {t : RxStream} {r : ReadRecord} (h : Reassembled stream s R L)
    (hl : Located t R L) (he : t.endread = false) (hr : t.reads = s.reads)
    (hf : ∀ seg ∈ t.rsegs, seg.flags.close = false)
    (hq : s.queued = r.returned ++ r.dropped ++ t.queued)
    (hd : r.dropped ≠ [] → r.returned.length = r.maxSize) :
    Reassembled stream (t.record r) R L := by
  refine ⟨⟨hl.rsn, hl.rahead, hl.fits, hl.sorted, hl.beyond⟩,
    ⟨?_, h.pre.pending, hf, rfl, he⟩, ?_⟩
  · rw [← h.pre.consumed]
    change (t.reads ++ [r]).flatMap _ ++ t.queued = s.removed ++ s.queued
    rw [hr, hq, List.flatMap_append, List.flatMap_singleton]
    simp [removed]
  · intro r' hr'
    change r' ∈ t.reads ++ [r] at hr'
    rw [hr] at hr'
    rcases List.mem_append.mp hr' with hr' | hr'
    · exact h.drops r' hr'
    · rw [List.mem_singleton.mp hr']
      exact hd

theorem takeData_nil {t u : RxStream} {n : ℕ} {data : List UInt8} (hr : t.ravail ≤ 0)
    (h : t.takeData n = some (u, data)) : data = [] := by
  unfold RxStream.takeData readLoop at h
  rw [if_pos (by simp [hr])] at h
  cases h
  rfl

theorem readData {t : RxStream} {maxSize : ℕ} (h : Reassembled stream s R L)
    (ht : s.readData maxSize = some t) : Reassembled stream t R L := by
  obtain ⟨⟨u, data⟩, hu, rfl⟩ := Option.map_eq_some_iff.mp ht
  obtain ⟨h1, h2, h3, h4, h5, -⟩ := h.takeData hu
  exact h.record h1 h2 h3 h4 (by rw [List.append_nil]; exact h5) fun hne => absurd rfl hne

theorem readMessage {t : RxStream} {maxSize : ℕ} (h : Reassembled stream s R L)
    (ht : s.readMessage maxSize = some t) : Reassembled stream t R L := by
  unfold RxStream.readMessage at ht
  split_ifs at ht with hm
  · cases ht
    exact h
  · obtain ⟨⟨u, data⟩, hu, ht⟩ := Option.bind_eq_some_iff.mp ht
    obtain ⟨h1, h2, h3, h4, h5, h6⟩ := h.takeData hu
    dsimp only at ht
    split_ifs at ht with hlen
    · obtain ⟨⟨v, rest⟩, hv, rfl⟩ := Option.map_eq_some_iff.mp ht
      have hru : Reassembled stream (u.record ⟨maxSize, data, []⟩) R L :=
        h.record h1 h2 h3 h4 (by rw [List.append_nil]; exact h5) fun hne => absurd rfl hne
      obtain ⟨h7, h8, h9, h10, -⟩ := readLoop_spec u.rsegs u v (2 ^ 30) [] rest h4 hv
      refine h.record ⟨h7.rsn.trans h1.rsn, h7.rahead.trans h1.rahead, h1.fits, h1.sorted,
        h1.beyond⟩ (h7.endread.trans h2) (h7.reads.trans h3)
        (fun seg hseg => h4 seg (h8 seg hseg)) ?_ ?_
      · have h9 : u.queued = rest ++ v.queued := h9
        rw [h5, h9, List.append_assoc]
      · intro hne
        rcases h6 with h6 | h6 | h6
        · exact h6
        · exact absurd (takeData_nil h6 hv) hne
        · omega
    · cases ht
      exact h.record h1 h2 h3 h4 (by rw [List.append_nil]; exact h5) fun hne => absurd rfl hne

end Reassembled

end RxStream

/-- **No byte is lost, duplicated or reordered.** Whatever arrives and however it is read: the
bytes that reads removed, followed by the queued payloads, are the stream up to the receive point;
nothing in the reorder buffer starts at or before it; and a read drops bytes only behind a buffer
that it filled. -/
theorem reassembly {stream : ℕ → UInt8} {connected : Bool} {s : RxStream}
    (h : (rxMachine connected).Reach (RxStream.Arriving stream) s) :
    s.removed ++ s.queued = bytes stream 0 s.consumed.length ∧
      s.rsn = wrap 32 s.consumed.length ∧ (∀ seg ∈ s.rahead, 0 < s.rsnDiff seg) ∧
      ∀ r ∈ s.reads, r.dropped ≠ [] → r.returned.length = r.maxSize := by
  obtain ⟨R, L, hr⟩ : ∃ R L, RxStream.Reassembled stream s R L := by
    refine h.invariant (P := fun s => ∃ R L, RxStream.Reassembled stream s R L) ?_ ?_
    · exact ⟨0, [], ⟨(wrap_zero 32).symm, rfl, nofun, .nil, nofun⟩, ⟨rfl, nofun, nofun, rfl, rfl⟩,
        nofun⟩
    · rintro s t op - ⟨R, L, hs⟩ hc hstep
      cases op with
      | rxData seg =>
        obtain ⟨p, hx, hcar, h1, h2⟩ := hc seg rfl
        rw [hs.length] at h1 h2
        cases hstep
        exact hs.rxData hx hcar h1 h2
      | readData maxSize => exact ⟨R, L, hs.readData hstep⟩
      | readMessage maxSize => exact ⟨R, L, hs.readMessage hstep⟩
  refine ⟨?_, ?_, fun seg hseg => ?_, hr.drops⟩
  · rw [hr.length]
    exact hr.pre.consumed
  · rw [hr.length]
    exact hr.located.rsn
  · rw [hr.located.rahead] at hseg
    obtain ⟨x, hx, rfl⟩ := List.mem_map.mp hseg
    have hb := hr.located.beyond x hx
    rw [RxStream.rsnDiff_eq hr.located.rsn (hr.located.fits x hx) (by omega) hb.2]
    omega

/-- The byte at each position is the position. -/
def counting (p : ℕ) : UInt8 := .ofNat p

/-- A segment with one byte of the counting stream. -/
def single (p : ℕ) (message : Bool) : RxSegment :=
  ⟨p, ⟨true, message, false⟩, bytes counting p 1, 0⟩

theorem arriving_single {s : RxStream} {p : ℕ} {message : Bool} (hp : p < 2 ^ 31)
    (hs : s.consumed.length < 2 ^ 31) :
    s.Arriving counting (.rxData (single p message)) := by
  intro seg h
  cases h
  refine ⟨p, ⟨?_, rfl, ?_⟩, ⟨?_, rfl⟩, by omega, by omega⟩
  · change (p : ℤ) = wrap 32 p
    exact (wrap_eq_self (by decide) (by omega) (by omega)).symm
  · rw [single, bytes_length]
    decide
  · rw [single, bytes_length]

/-- Two segments arrive in the wrong order and are read together. -/
theorem reassembly_reordered : ∃ s, (rxMachine true).Reach (RxStream.Arriving counting) s ∧
    s.removed ++ s.queued = [0, 1] ∧ s.rsn = 2 ∧ s.rahead = [] := by
  have h0 : (rxMachine true).Reach (RxStream.Arriving counting) (.new true) := .init
  have h1 := h0.step (i := .rxData (single 1 false)) (arriving_single (by decide) (by decide)) rfl
  have h2 := h1.step (i := .rxData (single 0 false))
    (arriving_single (by decide) (by decide +kernel)) rfl
  obtain ⟨s, hs⟩ : ∃ s, (((RxStream.new true).rxData (single 1 false)).rxData
      (single 0 false)).readData 2 = some s := Option.isSome_iff_exists.mp (by decide +kernel)
  have h3 := h2.step (i := .readData 2) nofun hs
  obtain ⟨hc, hr, -, -⟩ := reassembly h3
  have hlen : s.consumed.length = 2 := by
    rw [← Option.get_of_eq_some (by decide +kernel) hs]
    decide +kernel
  rw [hlen] at hc hr
  refine ⟨s, h3, hc, hr.trans (by decide +kernel), ?_⟩
  rw [← Option.get_of_eq_some (by decide +kernel) hs]
  decide +kernel

/-- The rest of a message longer than the buffer reaches neither the application nor the queue. -/
theorem readMessage_drops : ¬∀ s, (rxMachine true).Reach (RxStream.Arriving counting) s →
    s.reads.flatMap ReadRecord.returned ++ s.queued = bytes counting 0 s.consumed.length := by
  intro hall
  have h0 : (rxMachine true).Reach (RxStream.Arriving counting) (.new true) := .init
  have h1 := h0.step (i := .rxData (single 0 false)) (arriving_single (by decide) (by decide)) rfl
  have h2 := h1.step (i := .rxData (single 1 true))
    (arriving_single (by decide) (by decide +kernel)) rfl
  obtain ⟨s, hs⟩ : ∃ s, (((RxStream.new true).rxData (single 0 false)).rxData
      (single 1 true)).readMessage 1 = some s := Option.isSome_iff_exists.mp (by decide +kernel)
  have := hall s (h2.step (i := .readMessage 1) nofun hs)
  rw [← Option.get_of_eq_some (by decide +kernel) hs] at this
  revert this
  decide +kernel

end Sst
