import Sst.Stream.Markings

/-!
# End of stream

The segments of a closed stream arrive in any order, and the application reads.

* `Queue`: the unread segments agree with `ravail` and, short of an overflow, with the queue of
  message sizes.
* `Queue.account`: a dequeued segment with the close flag is always at a message boundary.
* `Live`, `Ended`: the states before and after the end was seen.
* **`atEnd_iff`**: when everything was read, the end was seen exactly if the closing segment arrived
  in a state where everything was received and read already.
* `atEnd_missed`: the usual order of events never sees the end.
-/

namespace Sst

open Word Framing

namespace RxStream

/-- The sizes of the queued payloads. -/
def sizes (l : List RxSegment) : List ℕ := l.map fun seg => seg.payload.length

/-- What holds of the unread segments `l` short of an overflow: they make up the messages recorded,
and a closing segment is followed by no bytes. -/
structure Fine (S : List Placed) (l : List RxSegment) (s : RxStream) (R : ℕ) : Prop where
  grouped : ∃ (q : List ℕ) (o : ℕ), s.rmsgsize = q.map (↑) ∧ s.rmsgavail = o ∧ Grouped q o (sizes l)
  closing : ∀ pre seg post, l = pre ++ seg :: post → seg.flags.close = true →
    R = extent S ∧ s.rmsgavail = 0 ∧ (sizes post).sum = 0

/-- The unread segments `l` at the receive point `R`. -/
structure Queue (S : List Placed) (l : List RxSegment) (s : RxStream) (R : ℕ) : Prop where
  whole : ∀ seg ∈ l, seg.hdrlen ≤ seg.buf.length ∧ seg.buf.length < 2 ^ 31
  avail : s.ravail = wrap 32 (sizes l).sum
  fine : (sizes l).sum < 2 ^ 31 → Fine S l s R

theorem sum_sizes (l : List RxSegment) : (sizes l).sum = (l.flatMap RxSegment.payload).length := by
  rw [sizes, List.length_flatMap]

theorem account_ravail (s : RxStream) (size : ℤ) :
    (s.account size).1.ravail = wrap 32 (s.ravail - size) := by
  dsimp only [account]
  split
  · rfl
  · split_ifs <;> rfl

theorem account_connected (s : RxStream) (size : ℤ) :
    (s.account size).1.connected = s.connected := by
  dsimp only [account]
  split
  · rfl
  · split_ifs <;> rfl

theorem account_nil {s : RxStream} (h : s.rmsgsize = []) (size : ℤ) :
    (s.account size).2 = false ∧ (s.account size).1.rmsgsize = [] ∧
      (s.account size).1.rmsgavail = wrap 32 (s.rmsgavail - size) := by
  dsimp only [account]
  rw [h]
  exact ⟨rfl, rfl, rfl⟩

theorem account_cons {s : RxStream} {n : ℤ} {q : List ℤ} (h : s.rmsgsize = n :: q) (size : ℤ) :
    (s.account size).1.rmsgavail = s.rmsgavail ∧
      (n = size → (s.account size).2 = true ∧ (s.account size).1.rmsgsize = q) ∧
      (n ≠ size → (s.account size).2 = false ∧ (s.account size).1.rmsgsize = (n - size) :: q) := by
  dsimp only [account]
  rw [h]
  dsimp only
  by_cases hn : n = size
  · rw [if_pos (by omega)]
    exact ⟨rfl, fun _ => ⟨rfl, rfl⟩, fun h => absurd hn h⟩
  · rw [if_neg (by omega)]
    exact ⟨rfl, fun h => absurd h hn, fun _ => ⟨rfl, rfl⟩⟩

variable {S : List Placed} {s : RxStream} {R : ℕ} {rseg : RxSegment} {l : List RxSegment}

/-- **A segment leaves the queue.** If it closes the stream, the read stops at a message boundary
there. -/
theorem Queue.account (h : Queue S (rseg :: l) s R) (ha : 0 < s.ravail) :
    Queue S l (s.account rseg.segmentSize).1 R ∧
      (rseg.flags.close = true → (s.account rseg.segmentSize).2 = false →
        2 ^ 31 ≤ (sizes l).sum) := by
  obtain ⟨⟨h1, h2⟩, hl⟩ := List.forall_mem_cons.mp h.whole
  have hlen : rseg.payload.length = rseg.buf.length - rseg.hdrlen := List.length_drop
  have hsz : rseg.segmentSize = rseg.payload.length := by
    rw [RxSegment.segmentSize, hlen]
    omega
  have hsum : (sizes (rseg :: l)).sum = rseg.payload.length + (sizes l).sum := List.sum_cons
  have hav := h.avail
  rw [hsum] at hav
  -- a large queue stays large
  have hsmall : (sizes l).sum < 2 ^ 31 → rseg.payload.length + (sizes l).sum < 2 ^ 31 := by
    intro hlt
    rw [hav] at ha
    rcases wrap_pos ha with hw | hw
    · exact hw
    · omega
  rw [hsz]
  have hsizes : sizes (rseg :: l) = rseg.payload.length :: sizes l := rfl
  generalize rseg.payload.length = n at *
  have hra : (s.account n).1.ravail = wrap 32 (sizes l).sum := by
    rw [account_ravail, hav, wrap_sub_wrap_left]
    congr 1
    push_cast
    omega
  rcases Nat.lt_or_ge (sizes l).sum (2 ^ 31) with hlt | hge
  · obtain ⟨⟨q, o, hq, ho, hg⟩, hcl⟩ := h.fine (hsum.trans_lt (hsmall hlt))
    rw [hsizes] at hg
    have hn : n < 2 ^ 31 := by
      have := hsmall hlt
      omega
    have hpos : 0 < n + (sizes l).sum := by
      refine Nat.pos_of_ne_zero fun h0 => ?_
      rw [hav, h0] at ha
      simp at ha
    have hoq : q.sum + o = n + (sizes l).sum := hg.sum
    have htail : ∀ pre seg post, l = pre ++ seg :: post → seg.flags.close = true →
        R = extent S ∧ s.rmsgavail = 0 ∧ (sizes post).sum = 0 := fun pre seg post hl hc =>
      hcl (rseg :: pre) seg post (by rw [hl]; rfl) hc
    cases q with
    | nil =>
      obtain ⟨h3, h4⟩ := hg.pop_open
      obtain ⟨h5, h6, h7⟩ := account_nil hq n
      have hw : (s.account n).1.rmsgavail = (o - n : ℕ) := by
        rw [h7, ho, wrap_eq_self (by decide) (by omega) (by have := hsmall hlt; omega)]
        omega
      refine ⟨⟨hl, hra, fun _ => ⟨⟨[], o - n, h6, hw, h4⟩, fun pre seg post hp hc => ?_⟩⟩,
        fun hc _ => ?_⟩
      · obtain ⟨h8, h9, h10⟩ := htail pre seg post hp hc
        exact ⟨h8, by rw [hw]; omega, h10⟩
      · obtain ⟨-, h9, h10⟩ := hcl [] rseg l rfl hc
        rw [List.sum_nil] at hoq
        omega
    | cons m q =>
      obtain ⟨h3, h4, h5⟩ := hg.pop
      obtain ⟨h6, h7, h8⟩ := account_cons hq n
      by_cases hm : m = n
      · obtain ⟨h9, h10⟩ := h7 (by exact_mod_cast hm)
        exact ⟨⟨hl, hra, fun _ => ⟨⟨q, o, h10, h6.trans ho, h4 hm⟩, fun pre seg post hp hc =>
          h6.symm ▸ htail pre seg post hp hc⟩⟩, fun _ hb => absurd hb (by rw [h9]; decide)⟩
      · obtain ⟨h9, h10⟩ := h8 (by exact_mod_cast hm)
        refine ⟨⟨hl, hra, fun _ => ⟨⟨(m - n) :: q, o, ?_, h6.trans ho, h5 hm⟩,
          fun pre seg post hp hc => h6.symm ▸ htail pre seg post hp hc⟩⟩, fun hc _ => ?_⟩
        · rw [h10, List.map_cons, Nat.cast_sub h3]
        · obtain ⟨-, h11, h12⟩ := hcl [] rseg l rfl hc
          rw [List.sum_cons] at hoq
          omega
  · exact ⟨⟨hl, hra, fun hlt => absurd hlt (by omega)⟩, fun _ _ => hge⟩

theorem sizes_append (l₁ l₂ : List RxSegment) : sizes (l₁ ++ l₂) = sizes l₁ ++ sizes l₂ :=
  List.map_append

/-- **A segment enters the queue.** -/
theorem Queue.take {x : Placed} (hS : Consecutive 0 S) (hc : ClosesLast S) (hx : x ∈ S)
    (h : Queue S s.rsegs s R) (h1 : x.1 ≤ R) (h2 : R ≤ x.stop) :
    Queue S (s.take x R).rsegs (s.take x R) x.stop := by
  have hsz := (hS.fits hx).size
  have hle := stop_le hS hx
  rw [take_rsegs]
  obtain ⟨seg, hseg⟩ : ∃ seg : RxSegment, seg = { x.2 with hdrlen := R - x.1 } := ⟨_, rfl⟩
  rw [← hseg]
  have hlen : sizes [seg] = [x.stop - R] := by
    rw [hseg, sizes, List.map_singleton, RxSegment.payload, List.length_drop, Placed.stop]
    dsimp only
    congr 1
    omega
  have hsum : (sizes (s.rsegs ++ [seg])).sum = (sizes s.rsegs).sum + (x.stop - R) := by
    rw [sizes_append, List.sum_append, hlen, List.sum_singleton]
  refine ⟨fun y hy => ?_, ?_, fun hlt => ?_⟩
  · rcases List.mem_append.mp hy with hy | hy
    · exact h.whole y hy
    · rw [List.mem_singleton.mp hy, hseg]
      rw [Placed.stop] at h2
      exact ⟨by dsimp only; omega, hsz⟩
  · rw [take_ravail, h.avail, hsum, wrap_add_wrap_left]
    norm_cast
  · rw [hsum] at hlt
    obtain ⟨⟨q, o, hq, ho, hg⟩, hcl⟩ := h.fine (by omega)
    have hoq := hg.sum
    have hw : wrap 32 (s.rmsgavail + (x.stop - R : ℕ)) = (o + (x.stop - R) : ℕ) := by
      rw [ho, ← Nat.cast_add]
      exact wrap_eq_self (by decide) (by omega) (by omega)
    have hma := take_rmsgavail s x R
    have hms := take_rmsgsize s x R
    rw [hw] at hma hms
    have hpush := hg.push (x.stop - R)
    rw [← hlen, ← sizes_append] at hpush
    have hmark : x.2.flags.marks = true → (s.take x R).rmsgavail = 0 := by
      intro hm
      rw [hma, hm]
      split_ifs with hp
      · rfl
      · simp only [Bool.true_and, decide_eq_true_eq] at hp
        omega
    refine ⟨?_, fun pre y post hp hyc => ?_⟩
    · by_cases hm : (x.2.flags.marks && decide (0 < ((o + (x.stop - R) : ℕ) : ℤ))) = true
      · rw [if_pos hm] at hma hms
        rw [Bool.and_eq_true, decide_eq_true_eq] at hm
        refine ⟨q ++ [o + (x.stop - R)], 0, ?_, hma, hpush.mark (by omega)⟩
        rw [hms, hq, List.map_append, List.map_singleton]
      · rw [if_neg hm] at hma hms
        exact ⟨q, _, hms.trans hq, hma, hpush⟩
    · rcases List.eq_nil_or_concat post with rfl | ⟨post, z, rfl⟩
      · obtain ⟨-, rfl⟩ := List.append_inj' hp rfl |>.imp_right List.singleton_inj.mp
        have hxc : x.2.flags.close = true := by rw [hseg] at hyc; exact hyc
        exact ⟨stop_of_close hS hc hx hxc, hmark (by simp [Flags.marks, hxc]), rfl⟩
      · rw [List.concat_eq_append, ← List.cons_append, ← List.append_assoc] at hp
        obtain ⟨hp, hz⟩ := List.append_inj' hp rfl
        obtain ⟨h3, h4, h5⟩ := hcl pre y post hp hyc
        have hd : x.stop - R = 0 := by omega
        refine ⟨by omega, ?_, ?_⟩
        · rw [hma, hd]
          have ho0 : o = 0 := by omega
          simp [ho0]
        · rw [List.concat_eq_append, sizes_append, ← hz, hlen, hd, List.sum_append, h5]
          rfl

/-! ## Reads -/

/-- The end was seen. -/
structure Ended (s : RxStream) : Prop where
  endread : s.endread = true
  ravail : s.ravail = 0
  rmsgsize : s.rmsgsize = []

/-- **The read loop** leaves a queue, or an overflow makes it end the stream with bytes unread. -/
theorem readLoop_queue : ∀ (l : List RxSegment) (s t : RxStream) (maxSize : ℕ)
    (data data' : List UInt8), Queue S l s R → s.connected = true → s.endread = false →
    readLoop l s maxSize data = some (t, data') →
    (Queue S t.rsegs t R ∧ SameAhead s t ∧ t.connected = true ∧
        data ++ l.flatMap RxSegment.payload = data' ++ t.queued) ∨
      Ended t ∧ t.reads = s.reads ∧ data'.length < data.length + (sizes l).sum := by
  intro l
  induction l with
  | nil =>
    intro s t maxSize data data' hq hc he h
    unfold readLoop at h
    split_ifs at h with h1
    cases h
    exact .inl ⟨⟨hq.whole, hq.avail, fun hl => ⟨(hq.fine hl).grouped, (hq.fine hl).closing⟩⟩,
      ⟨rfl, rfl, rfl, rfl⟩, hc, rfl⟩
  | cons rseg l ih =>
    intro s t maxSize data data' hq hc he h
    unfold readLoop at h
    split_ifs at h with h1
    · cases h
      exact .inl ⟨⟨hq.whole, hq.avail, fun hl => ⟨(hq.fine hl).grouped, (hq.fine hl).closing⟩⟩,
        ⟨rfl, rfl, rfl, rfl⟩, hc, rfl⟩
    · have hav : 0 < s.ravail := by
        simp only [Bool.or_eq_true, decide_eq_true_eq, not_or] at h1
        omega
      obtain ⟨hq', hb⟩ := hq.account hav
      have hsame := sameAhead_account s rseg.segmentSize
      have hcon := (account_connected s rseg.segmentSize).trans hc
      dsimp only at h
      generalize s.account rseg.segmentSize = a at h hq' hb hsame hcon
      obtain ⟨u, boundary⟩ := a
      dsimp only at h hq' hb hsame hcon
      have hue := hsame.endread.trans he
      have hflat : data ++ (rseg :: l).flatMap RxSegment.payload =
          data ++ rseg.payload ++ l.flatMap RxSegment.payload := by
        rw [List.flatMap_cons, List.append_assoc]
      split_ifs at h with h2 h3 h4
      · cases h
        exact .inl ⟨⟨hq'.whole, hq'.avail,
          fun hl => ⟨(hq'.fine hl).grouped, (hq'.fine hl).closing⟩⟩,
          ⟨hsame.rsn, hsame.rahead, hsame.endread, hsame.reads⟩, hcon, hflat⟩
      · cases h
        rw [Bool.and_eq_true, Bool.and_eq_true] at h4
        have hlarge := hb h4.1.1 (Bool.eq_false_iff.mpr h3)
        refine .inr ⟨?_, ?_, ?_⟩
        · rw [shutdownRead, hcon, hue]
          exact ⟨rfl, rfl, rfl⟩
        · rw [shutdownRead, hcon, hue]
          exact hsame.reads
        · rw [List.length_append, sizes, List.map_cons, List.sum_cons, ← sizes]
          omega
      · rcases ih u t _ _ data' hq' hcon hue h with ⟨h5, h6, h7, h8⟩ | ⟨h5, h6, h7⟩
        · exact .inl ⟨h5, hsame.trans h6, h7, hflat.trans h8⟩
        · refine .inr ⟨h5, h6.trans hsame.reads, h7.trans_eq ?_⟩
          rw [List.length_append, sizes, sizes, List.map_cons, List.sum_cons, Nat.add_assoc]

/-! ## States -/

/-- The stream `S` is being received and read. -/
structure Live (S : List Placed) (s : RxStream) (R : ℕ) (L : List Placed) : Prop where
  located : Located s R L
  reading : s.endread = false
  connected : s.connected = true
  pending : ∀ x ∈ L, x ∈ S
  length : s.consumed.length = R
  le : R ≤ extent S
  queue : Queue S s.rsegs s R

variable {L : List Placed} {x : Placed} {t : RxStream} {maxSize : ℕ}

theorem length_consumed (s : RxStream) :
    s.consumed.length = s.removed.length + (sizes s.rsegs).sum := by
  rw [consumed, List.length_append, sum_sizes]
  rfl

/-- **An arrival** leaves the stream live, or ends it. -/
theorem Live.rxData (hS : Consecutive 0 S) (hc : ClosesLast S) (h : Live S s R L) (hx : x ∈ S)
    (h1 : R ≤ x.1 + 2 ^ 31) (h2 : x.1 < R + 2 ^ 31) :
    (∃ R' L', Live S (s.rxData x.2) R' L') ∨
      Ended (s.rxData x.2) ∧ (s.rxData x.2).removed = s.removed := by
  have hH : Handles fun t R L _ => t.endread = false ∧ t.connected = true ∧ t.reads = s.reads ∧
      (∀ y ∈ L, y ∈ S) ∧ t.consumed.length = R ∧ R ≤ extent S ∧ Queue S t.rsegs t R := by
    refine ⟨?_, ?_, ?_, ?_⟩
    · rintro s R x L c ⟨h3, h4, h5, h6, h7⟩ - -
      exact ⟨h3, h4, h5, (List.forall_mem_cons.mp h6).2, h7⟩
    · rintro s R x L c ⟨h3, h4, h5, h6, h7, h8, h9⟩ - h10 h11 -
      obtain ⟨h12, h13⟩ := List.forall_mem_cons.mp h6
      exact ⟨(take_endread s x R).trans h3, (take_connected s x R).trans h4,
        (take_reads s x R).trans h5, h13, length_consumed_take h10 h11 h7, stop_le hS h12,
        h9.take hS hc h12 h10 h11⟩
    · rintro s R L L' c ⟨h3, h4, h5, h6, h7⟩ hp
      exact ⟨h3, h4, h5, fun y hy => h6 y (hp.mem_iff.mpr hy), h7⟩
    · rintro s R x y L c ⟨h3, h4, h5, h6, h7⟩ - - - -
      exact ⟨h3, h4, h5, (List.forall_mem_cons.mp h6).2, h7⟩
  obtain ⟨t, R', L', closed, h3, ⟨h4, h5, h6, h7, h8, h9, h10⟩, h11⟩ :=
    rxData_spec hH h.located (hS.fits hx) h1 h2 h.reading
      ⟨h.reading, h.connected, rfl, List.forall_mem_cons.mpr ⟨hx, h.pending⟩, h.length, h.le,
        h.queue.whole, h.queue.avail, fun hl =>
          ⟨(h.queue.fine hl).grouped, (h.queue.fine hl).closing⟩⟩
  have he : t.endread = false := h4
  have hcon : t.connected = true := h5
  rw [h11, finish]
  split_ifs with hcl
  · refine .inr ?_
    rw [shutdownRead, he, hcon]
    exact ⟨⟨rfl, rfl, rfl⟩, congrArg (List.flatMap _) h6⟩
  · exact .inl ⟨R', L', h3, he, hcon, h7, h8, h9, h10.whole, h10.avail,
      fun hl => ⟨(h10.fine hl).grouped, (h10.fine hl).closing⟩⟩

/-- **When everything was read**, an arrival ends the stream exactly if it closes it. -/
theorem Live.rxData_all (hS : Consecutive 0 S) (hc : ClosesLast S) (h : Live S s R L)
    (hx : x ∈ S) (h1 : R ≤ x.1 + 2 ^ 31) (hall : s.removed.length = extent S) :
    (s.rxData x.2).endread = x.2.flags.close := by
  have hlen := length_consumed s
  rw [h.length] at hlen
  have hle := h.le
  have hR : R = extent S := by omega
  have hL : L = [] := by
    refine List.eq_nil_iff_forall_not_mem.mpr fun y hy => ?_
    have h3 := (h.located.beyond y hy).1
    have h4 := stop_le hS (h.pending y hy)
    rw [Placed.stop] at h4
    omega
  have hst := stop_le hS hx
  have hfit := hS.fits hx
  have hx1 : x.1 ≤ R := by
    rw [Placed.stop] at hst
    omega
  subst hL
  by_cases hstale : Stale x R
  · rw [rxData_stale h.located hfit h1 hx1 hstale, h.reading]
    cases hcl : x.2.flags.close with
    | false => rfl
    | true =>
      have := stop_of_close hS hc hx hcl
      rcases hstale with hs | ⟨-, hf⟩
      · omega
      · simp [Flags.any, hcl] at hf
  · have hstop : x.stop = R := by
      rw [Stale, not_or] at hstale
      omega
    obtain ⟨t, h3, h4, h5⟩ := rxData_next h.located h.reading hfit hx1 hstop.ge hstale
    have he : t.endread = false :=
      (congrArg RxStream.endread h5).trans ((take_endread _ _ _).trans h.reading)
    have hcon : t.connected = true :=
      (congrArg RxStream.connected h5).trans ((take_connected _ _ _).trans h.connected)
    have hav : t.ravail = 0 := by
      refine ((congrArg RxStream.ravail h5).trans (take_ravail _ _ _)).trans ?_
      change wrap 32 (s.ravail + _) = 0
      have hz : (sizes s.rsegs).sum = 0 := by omega
      rw [h.queue.avail, hz, hstop, Nat.sub_self]
      simp
    rw [h3, finish, hav]
    cases x.2.flags.close with
    | false => exact he
    | true =>
      rw [if_pos (by decide), shutdownRead, he, hcon]
      rfl

theorem Live.record {r : ReadRecord} (h : Live S s R L) (hq : Queue S t.rsegs t R)
    (hsame : SameAhead s t) (hcon : t.connected = true)
    (hr : s.queued = r.returned ++ r.dropped ++ t.queued) : Live S (t.record r) R L := by
  refine ⟨⟨hsame.rsn.trans h.located.rsn, hsame.rahead.trans h.located.rahead, h.located.fits,
    h.located.sorted, h.located.beyond⟩, hsame.endread.trans h.reading, hcon, h.pending, ?_, h.le,
    hq.whole, hq.avail, fun hl => ⟨(hq.fine hl).grouped, (hq.fine hl).closing⟩⟩
  rw [← h.length, consumed, removed, queued]
  change ((t.reads ++ [r]).flatMap _ ++ t.queued).length = _
  rw [hsame.reads, List.flatMap_append, List.flatMap_singleton, consumed, removed, hr]
  simp only [List.append_assoc]

theorem Live.record_ended {r : ReadRecord} (h : Live S s R L) (he : Ended t)
    (hr : t.reads = s.reads) (hd : r.returned.length + r.dropped.length < s.queued.length) :
    Ended (t.record r) ∧ (t.record r).removed.length < extent S := by
  refine ⟨⟨he.endread, he.ravail, he.rmsgsize⟩, ?_⟩
  have hlen := h.length
  have hle := h.le
  rw [consumed, List.length_append] at hlen
  change ((t.reads ++ [r]).flatMap _).length < _
  rw [hr, List.flatMap_append, List.flatMap_singleton, List.length_append, List.length_append]
  change s.removed.length + _ < _
  omega

theorem Live.readData (h : Live S s R L) (ht : s.readData maxSize = some t) :
    Live S t R L ∨ Ended t ∧ t.removed.length < extent S := by
  obtain ⟨⟨u, data⟩, hu, rfl⟩ := Option.map_eq_some_iff.mp ht
  rcases readLoop_queue _ _ _ _ _ _ h.queue h.connected h.reading hu with
    ⟨h1, h2, h3, h4⟩ | ⟨h1, h2, h3⟩
  · exact .inl (h.record h1 h2 h3 (by rw [List.append_nil]; exact h4))
  · refine .inr (h.record_ended h1 h2 ?_)
    rw [List.length_nil, Nat.zero_add, sum_sizes] at h3
    exact h3

theorem Live.readMessage (h : Live S s R L) (ht : s.readMessage maxSize = some t) :
    Live S t R L ∨ Ended t ∧ t.removed.length < extent S := by
  unfold RxStream.readMessage at ht
  split_ifs at ht with hm
  · cases ht
    exact .inl h
  · obtain ⟨⟨u, data⟩, hu, ht⟩ := Option.bind_eq_some_iff.mp ht
    dsimp only at ht
    rcases readLoop_queue _ _ _ _ _ _ h.queue h.connected h.reading hu with
      ⟨h1, h2, h3, h4⟩ | ⟨h1, h2, h3⟩
    · have h4 : s.queued = data ++ u.queued := h4
      split_ifs at ht with hlen
      · obtain ⟨⟨v, rest⟩, hv, rfl⟩ := Option.map_eq_some_iff.mp ht
        rcases readLoop_queue _ _ _ _ _ _ h1 h3 (h2.endread.trans h.reading) hv with
          ⟨h5, h6, h7, h8⟩ | ⟨h5, h6, h7⟩
        · refine .inl (h.record h5 (h2.trans h6) h7 ?_)
          rw [h4, List.append_assoc]
          exact congrArg (data ++ ·) h8
        · refine .inr (h.record_ended h5 (h6.trans h2.reads) ?_)
          rw [List.length_nil, Nat.zero_add, sum_sizes] at h7
          rw [h4, List.length_append]
          exact Nat.add_lt_add_left h7 _
      · cases ht
        exact .inl (h.record h1 h2 h3 (by rw [List.append_nil]; exact h4))
    · have hsize : ¬u.rmsgsize.length = s.rmsgsize.length := by
        rw [h1.rmsgsize]
        exact fun h0 => hm (List.length_eq_zero_iff.mp h0.symm)
      rw [if_neg hsize] at ht
      cases ht
      refine .inr (h.record_ended h1 h2 ?_)
      rw [List.length_nil, Nat.zero_add, sum_sizes] at h3
      exact h3

theorem Ended.step {op : Op} (h : Ended s) (ht : s.step op = some t) :
    Ended t ∧ t.removed = s.removed := by
  cases op with
  | rxData seg =>
    cases ht
    rw [RxStream.rxData, if_pos h.endread]
    exact ⟨h, rfl⟩
  | readData maxSize =>
    obtain ⟨⟨u, data⟩, hu, rfl⟩ := Option.map_eq_some_iff.mp ht
    unfold RxStream.takeData readLoop at hu
    rw [if_pos (by simp [h.ravail])] at hu
    cases hu
    refine ⟨⟨h.endread, h.ravail, h.rmsgsize⟩, ?_⟩
    change (s.reads ++ [_]).flatMap _ = _
    rw [List.flatMap_append, List.flatMap_singleton]
    exact List.append_nil _
  | readMessage maxSize =>
    change s.readMessage maxSize = some t at ht
    unfold RxStream.readMessage at ht
    rw [if_pos h.rmsgsize] at ht
    cases ht
    exact ⟨h, rfl⟩

end RxStream

/-! ## Runs -/

/-- The operations of a run: segments of `S` arrive, in a stream of `2 ^ 31` bytes or more near the
receive point. -/
def Plays (S : List Placed) (ops : List RxStream.Op) : Prop :=
  ∀ pre seg post, ops = pre ++ .rxData seg :: post → ∃ p, (p, seg) ∈ S ∧
    (extent S < 2 ^ 31 ∨ ∀ s, (rxMachine true).run (.new true) pre = some s → s.endread = false →
      s.consumed.length ≤ p + 2 ^ 31 ∧ p < s.consumed.length + 2 ^ 31)

/-- A segment with the close flag arrives when all of `S` was received and read. -/
def ClosedAfterRead (S : List Placed) (ops : List RxStream.Op) : Prop :=
  ∃ pre seg post s, ops = pre ++ .rxData seg :: post ∧ seg.flags.close = true ∧
    (rxMachine true).run (.new true) pre = some s ∧ s.removed.length = extent S

section Runs

variable {S : List Placed} {ops : List RxStream.Op} {op : RxStream.Op} {s t : RxStream}

theorem Plays.init (h : Plays S (ops ++ [op])) : Plays S ops := fun pre seg post hp =>
  h pre seg (post ++ [op]) (by rw [hp]; simp)

theorem closedAfterRead_concat (hs : (rxMachine true).run (.new true) ops = some s) :
    ClosedAfterRead S (ops ++ [op]) ↔ ClosedAfterRead S ops ∨
      (∃ seg, op = .rxData seg ∧ seg.flags.close = true) ∧ s.removed.length = extent S := by
  constructor
  · rintro ⟨pre, seg, post, u, hp, hc, hu, hr⟩
    rcases List.eq_nil_or_concat post with rfl | ⟨post, op', rfl⟩
    · obtain ⟨rfl, h1⟩ := List.append_inj' hp rfl
      rw [hs] at hu
      cases hu
      exact .inr ⟨⟨seg, List.singleton_inj.mp h1, hc⟩, hr⟩
    · rw [List.concat_eq_append, ← List.cons_append, ← List.append_assoc] at hp
      obtain ⟨h1, -⟩ := List.append_inj' hp rfl
      exact .inl ⟨pre, seg, post, u, h1, hc, hu, hr⟩
  · rintro (⟨pre, seg, post, u, rfl, hc, hu, hr⟩ | ⟨⟨seg, rfl, hc⟩, hr⟩)
    · exact ⟨pre, seg, post ++ [op], u, by simp, hc, hu, hr⟩
    · exact ⟨ops, seg, [], s, rfl, hc, hs, hr⟩

/-- **The invariant of a run.** -/
theorem live_or_ended (hS : Consecutive 0 S) (hc : ClosesLast S) (hp : Plays S ops)
    (hs : (rxMachine true).run (.new true) ops = some s) :
    (∃ R L, RxStream.Live S s R L) ∧ ¬ClosedAfterRead S ops ∨ RxStream.Ended s ∧
      (ClosedAfterRead S ops ∨ s.removed.length < extent S) := by
  induction ops using List.reverseRecOn generalizing s with
  | nil =>
    cases hs
    refine .inl ⟨⟨0, [], ⟨(wrap_zero 32).symm, rfl, List.forall_mem_nil _, .nil,
      List.forall_mem_nil _⟩, rfl, rfl, List.forall_mem_nil _, rfl, Nat.zero_le _,
      List.forall_mem_nil _, (wrap_zero 32).symm, fun _ => ⟨⟨[], 0, rfl, rfl, rfl⟩, ?_⟩⟩, ?_⟩
    · intro pre seg post h
      simp [RxStream.new] at h
    · rintro ⟨pre, seg, post, -, h, -⟩
      simp at h
  | append_singleton ops op ih =>
    obtain ⟨u, hu, hstep⟩ := Transition.Machine.run_concat hs
    change u.step op = some s at hstep
    rw [closedAfterRead_concat hu]
    rcases ih hp.init hu with ⟨⟨R, L, hl⟩, hn⟩ | ⟨he, hr⟩
    · have hread : (RxStream.Live S s R L ∨ RxStream.Ended s ∧ s.removed.length < extent S) →
          (¬∃ seg, op = .rxData seg) →
          (∃ R L, RxStream.Live S s R L) ∧ ¬(ClosedAfterRead S ops ∨
            (∃ seg, op = .rxData seg ∧ seg.flags.close = true) ∧ u.removed.length = extent S) ∨
          RxStream.Ended s ∧ ((ClosedAfterRead S ops ∨
            (∃ seg, op = .rxData seg ∧ seg.flags.close = true) ∧ u.removed.length = extent S) ∨
              s.removed.length < extent S) := by
        rintro (h1 | ⟨h1, h2⟩) hop
        · refine .inl ⟨⟨R, L, h1⟩, ?_⟩
          rintro (h | ⟨⟨seg, h, -⟩, -⟩)
          · exact hn h
          · exact hop ⟨seg, h⟩
        · exact .inr ⟨h1, .inr h2⟩
      cases op with
      | rxData seg =>
        obtain ⟨p, hx, hw⟩ := hp ops seg [] rfl
        have hwin : R ≤ p + 2 ^ 31 ∧ p < R + 2 ^ 31 := by
          rcases hw with hw | hw
          · have h1 := stop_le hS hx
            have h2 := hl.le
            rw [Placed.stop] at h1
            omega
          · rw [← hl.length]
            exact hw u hu hl.reading
        cases hstep
        have hstep := hl.rxData hS hc hx hwin.1 hwin.2
        have hlen := RxStream.length_consumed u
        have hle := hl.le
        rw [hl.length] at hlen
        by_cases hall : u.removed.length = extent S
        · have hend := hl.rxData_all hS hc hx hwin.1 hall
          dsimp only at hstep hend
          cases hcl : seg.flags.close with
          | false =>
            rw [hcl] at hend
            refine .inl ⟨?_, ?_⟩
            · rcases hstep with h1 | ⟨h1, -⟩
              · exact h1
              · rw [h1.endread] at hend
                cases hend
            · rintro (h | ⟨⟨seg', h, h'⟩, -⟩)
              · exact hn h
              · cases h
                rw [hcl] at h'
                cases h'
          | true =>
            rw [hcl] at hend
            refine .inr ⟨?_, .inl (.inr ⟨⟨seg, rfl, hcl⟩, hall⟩)⟩
            rcases hstep with ⟨R', L', h1⟩ | ⟨h1, -⟩
            · rw [h1.reading] at hend
              cases hend
            · exact h1
        · rcases hstep with h1 | ⟨h1, h2⟩
          · exact .inl ⟨h1, fun h => h.elim hn fun h => hall h.2⟩
          · refine .inr ⟨h1, .inr ?_⟩
            rw [h2]
            omega
      | readData maxSize =>
        refine hread (hl.readData hstep) ?_
        rintro ⟨seg, h⟩
        cases h
      | readMessage maxSize =>
        refine hread (hl.readMessage hstep) ?_
        rintro ⟨seg, h⟩
        cases h
    · obtain ⟨h1, h2⟩ := he.step hstep
      refine .inr ⟨h1, hr.imp .inl fun hr => ?_⟩
      rw [h2]
      exact hr

/-- **When everything was read, the end was seen exactly if the closing segment arrived after
that.** The reads before the last one can have been of any kind, and the closing segment can have
arrived before as well. -/
theorem atEnd_iff (hS : Consecutive 0 S) (hc : ClosesLast S) (hp : Plays S ops)
    (hs : (rxMachine true).run (.new true) ops = some s) (hall : s.removed.length = extent S) :
    s.atEnd = true ↔ ClosedAfterRead S ops := by
  rcases live_or_ended hS hc hp hs with ⟨⟨R, L, hl⟩, hn⟩ | ⟨he, hr⟩
  · rw [RxStream.atEnd, hl.reading]
    exact ⟨nofun, fun h => absurd h hn⟩
  · exact ⟨fun _ => hr.resolve_right (by omega), fun _ => he.endread⟩

end Runs

/-- One byte, and the close behind it. -/
def byteThenClose : List Placed :=
  [(0, ⟨0, ⟨true, false, false⟩, [7], 0⟩), (1, ⟨1, ⟨true, false, true⟩, [], 0⟩)]

/-- The close arrives after the byte was read: the end is seen. -/
theorem atEnd_iff_late : ∃ s, (rxMachine true).run (.new true)
    [.rxData ⟨0, ⟨true, false, false⟩, [7], 0⟩, .readData 1,
      .rxData ⟨1, ⟨true, false, true⟩, [], 0⟩] =
      some s ∧ s.removed.length = extent byteThenClose ∧ s.atEnd = true := by
  obtain ⟨t, ht⟩ : ∃ t, (rxMachine true).run (.new true)
      [.rxData ⟨0, ⟨true, false, false⟩, [7], 0⟩, .readData 1] = some t :=
    Option.isSome_iff_exists.mp (by decide +kernel)
  obtain ⟨s, hs⟩ : ∃ s, (rxMachine true).run (.new true) [.rxData ⟨0, ⟨true, false, false⟩, [7], 0⟩,
      .readData 1, .rxData ⟨1, ⟨true, false, true⟩, [], 0⟩] = some s :=
    Option.isSome_iff_exists.mp (by decide +kernel)
  have hall : s.removed.length = extent byteThenClose := by
    rw [← Option.get_of_eq_some (by decide +kernel) hs]
    decide +kernel
  have hall' : t.removed.length = extent byteThenClose := by
    rw [← Option.get_of_eq_some (by decide +kernel) ht]
    decide +kernel
  have hfits : Consecutive 0 byteThenClose :=
    ⟨rfl, ⟨(wrap_zero 32).symm, rfl, by decide⟩, rfl, ⟨by decide +kernel, rfl, by decide⟩, trivial⟩
  refine ⟨s, hs, hall, (atEnd_iff hfits ⟨nofun, fun _ => rfl, trivial⟩ ?_ hs hall).mpr
    ⟨_, _, [], t, rfl, rfl, ht, hall'⟩⟩
  intro pre seg post hp
  have hmem : RxStream.Op.rxData seg ∈ [RxStream.Op.rxData ⟨0, ⟨true, false, false⟩, [7], 0⟩,
      .readData 1, .rxData ⟨1, ⟨true, false, true⟩, [], 0⟩] := by
    rw [hp]
    simp
  simp only [List.mem_cons, RxStream.Op.rxData.injEq, reduceCtorEq, List.not_mem_nil, or_false,
    false_or] at hmem
  rcases hmem with rfl | rfl
  · exact ⟨0, List.mem_cons_self, .inl (by decide)⟩
  · exact ⟨1, List.mem_cons_of_mem _ List.mem_cons_self, .inl (by decide)⟩

/-- A closing segment with a byte arrives and is read: the read stops at the end of the message
before it sees the close flag. -/
theorem atEnd_missed : ¬∀ S ops s, Consecutive 0 S → ClosesLast S →
    (∃ x ∈ S, x.2.flags.close = true) → Plays S ops → (∀ x ∈ S, .rxData x.2 ∈ ops) →
    (rxMachine true).run (.new true) ops = some s →
    s.reads.flatMap ReadRecord.returned = S.flatMap (fun x => x.2.buf) → s.atEnd = true := by
  intro hall
  let seg : RxSegment := ⟨0, ⟨true, false, true⟩, [7], 0⟩
  obtain ⟨s, hs⟩ : ∃ s, (rxMachine true).run (.new true) [.rxData seg, .readData 1] = some s :=
    Option.isSome_iff_exists.mp (by decide +kernel)
  have := hall [(0, seg)] _ s ⟨rfl, ⟨(wrap_zero 32).symm, rfl, by decide⟩, trivial⟩
    ⟨fun _ => rfl, trivial⟩ ⟨_, List.mem_singleton_self _, rfl⟩ ?_ (by simp) hs ?_
  · rw [← Option.get_of_eq_some (by decide +kernel) hs] at this
    revert this
    decide +kernel
  · intro pre seg' post hp
    have hmem : RxStream.Op.rxData seg' ∈ [RxStream.Op.rxData seg, .readData 1] := by
      rw [hp]
      simp
    simp only [List.mem_cons, RxStream.Op.rxData.injEq, reduceCtorEq, List.not_mem_nil,
      or_false] at hmem
    subst hmem
    exact ⟨0, List.mem_singleton_self _, .inl (by decide)⟩
  · rw [← Option.get_of_eq_some (by decide +kernel) hs]
    decide +kernel

end Sst
