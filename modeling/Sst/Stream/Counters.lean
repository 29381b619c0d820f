import Mathlib.Algebra.BigOperators.Ring.Finset
import Sst.Stream.EndOfStream

/-!
# Receive accounting

Arbitrary segments arrive, the application reads and shuts the stream down, and the counters
`ravail`, `rmsgavail`, `rbufused` and `rmsgsize` follow the queues.

* `counterMachine`: the runs of the receive side, with `shutdown` and changes of the state.
* `Counted s L`: the counters agree with the queue and with the pending segments `L`.
* `Accounts`: what the counters say of the two queues.
* **`counters_exact`**: they agree while fewer than `2 ^ 31` bytes are buffered.
* `counters_overflow`: nothing keeps a sender from having more buffered, and `ravail` is negative.
-/

namespace Sst

open Word Framing

/-- What happens to the receive side: an operation, `shutdown(Stream::Read)`, or a change of
`state`. -/
inductive RxEvent
  | op (op : RxStream.Op)
  | shutdown
  | state (connected : Bool)

namespace RxStream

/-- The bytes of a list of segments. -/
def bytesIn (l : List RxSegment) : ℕ := (sizes l).sum

/-- The bytes that an arriving segment adds to the two queues. -/
def newBytes (s : RxStream) (seg : RxSegment) : ℕ :=
  if s.endread then 0
  else if 0 < s.rsnDiff seg then
    if s.isDuplicate seg (s.parkIndex (s.rsnDiff seg)) then 0 else seg.payload.length
  else (s.actSize seg).toNat

def react (s : RxStream) : RxEvent → Option RxStream
  | .op op => s.step op
  | .shutdown => some s.shutdownRead
  | .state connected => some { s with connected := connected }

/-- The counters agree with the queues, which are in order. -/
structure Accounts (s : RxStream) : Prop where
  ravail : s.ravail = bytesIn s.rsegs
  messages : s.ravail = s.rmsgsize.sum + s.rmsgavail
  rbufused : s.rbufused = s.ravail + bytesIn s.rahead
  sorted : s.rahead.Pairwise fun x y => s.rsnDiff x ≤ s.rsnDiff y
  ahead : ∀ seg ∈ s.rahead, 0 < s.rsnDiff seg
  positive : ∀ n ∈ s.rmsgsize, 0 < n
  boundary : ∀ k, ∃ m, (s.rmsgsize.take k).sum = bytesIn (s.rsegs.take m)
  nonneg : 0 ≤ s.ravail ∧ 0 ≤ s.rmsgavail ∧ 0 ≤ s.rbufused

end RxStream

/-- The runs of the receive side of a stream, shutdowns included. -/
def counterMachine (connected : Bool) : Transition.Machine RxStream RxEvent where
  init := .new connected
  step := RxStream.react

/-- A segment as `rxData` builds it from a packet. -/
structure Arrives (seg : RxSegment) : Prop where
  rsn : wrap 32 seg.rsn = seg.rsn
  hdrlen : seg.hdrlen = 0
  size : seg.buf.length < 2 ^ 31

namespace RxStream

/-- A segment that arrives is one that `rxData` builds. -/
def Fed (_ : RxStream) (e : RxEvent) : Prop := ∀ seg, e = .op (.rxData seg) → Arrives seg

/-- There is room for the segment that arrives. -/
def Roomy (s : RxStream) (e : RxEvent) : Prop := ∀ seg, e = .op (.rxData seg) →
  Arrives seg ∧ bytesIn s.rsegs + bytesIn s.rahead + s.newBytes seg < 2 ^ 31

/-! ## The counters -/

/-- The counters agree with the queue and with the pending segments `L`. -/
structure Counted (s : RxStream) (L : List RxSegment) : Prop where
  whole : ∀ seg ∈ s.rsegs, seg.hdrlen ≤ seg.buf.length
  pending : ∀ seg ∈ L, seg.hdrlen = 0
  room : bytesIn s.rsegs + bytesIn L < 2 ^ 31
  ravail : s.ravail = bytesIn s.rsegs
  rbufused : s.rbufused = (bytesIn s.rsegs + bytesIn L : ℕ)
  grouped : ∃ (q : List ℕ) (o : ℕ), s.rmsgsize = q.map (↑) ∧ s.rmsgavail = o ∧
    Grouped q o (sizes s.rsegs)

variable {s t : RxStream} {seg : RxSegment} {l L : List RxSegment}

@[simp] theorem bytesIn_nil : bytesIn [] = 0 := rfl

theorem bytesIn_cons (seg : RxSegment) (l : List RxSegment) :
    bytesIn (seg :: l) = seg.payload.length + bytesIn l := List.sum_cons

theorem bytesIn_append (l₁ l₂ : List RxSegment) :
    bytesIn (l₁ ++ l₂) = bytesIn l₁ + bytesIn l₂ := by
  rw [bytesIn, sizes_append, List.sum_append, bytesIn, bytesIn]

theorem segmentSize_eq_payload (h : seg.hdrlen ≤ seg.buf.length) :
    seg.segmentSize = seg.payload.length := by
  rw [RxSegment.segmentSize, RxSegment.payload, List.length_drop]
  omega

theorem payload_merged (h0 : seg.hdrlen = 0) (hd : s.rsnDiff seg ≤ 0) (ha : 0 ≤ s.actSize seg) :
    ∃ x : RxSegment, x = { seg with hdrlen := seg.hdrlen + (-s.rsnDiff seg).toNat } ∧
      x.hdrlen ≤ x.buf.length ∧ x.payload.length = s.actSize seg := by
  refine ⟨_, rfl, ?_⟩
  rw [actSize, RxSegment.segmentSize] at ha ⊢
  simp only [RxSegment.payload, List.length_drop]
  omega

/-- **Queueing a segment** keeps the counters. -/
theorem Counted.consume (h : Counted s L) (h0 : seg.hdrlen = 0) (hd : s.rsnDiff seg ≤ 0)
    (ha : 0 ≤ s.actSize seg)
    (hr : bytesIn s.rsegs + bytesIn L + (s.actSize seg).toNat < 2 ^ 31) :
    Counted (s.consume seg) L ∧
      bytesIn (s.consume seg).rsegs = bytesIn s.rsegs + (s.actSize seg).toNat := by
  obtain ⟨x, hx, h1, h2⟩ := payload_merged h0 hd ha
  obtain ⟨q, o, hq, ho, hg⟩ := h.grouped
  obtain ⟨n, hn⟩ := Int.eq_ofNat_of_zero_le ha
  have hs : q.sum + o = bytesIn s.rsegs := hg.sum
  rw [hn, Int.toNat_natCast] at hr ⊢
  rw [hn, Nat.cast_inj] at h2
  have hsz : sizes (s.rsegs ++ [x]) = sizes s.rsegs ++ [n] := by
    rw [sizes_append, ← h2]
    rfl
  have hb : bytesIn (s.rsegs ++ [x]) = bytesIn s.rsegs + n := by
    rw [bytesIn, hsz, List.sum_append, List.sum_singleton, bytesIn]
  have hmsg : wrap 32 (s.rmsgavail + n) = (o + n : ℕ) := by
    rw [ho, wrap_eq_self (by decide) (by omega) (by omega), Nat.cast_add]
  have hav : wrap 32 (s.ravail + n) = (bytesIn s.rsegs + n : ℕ) := by
    rw [h.ravail, wrap_eq_self (by decide) (by omega) (by omega), Nat.cast_add]
  have hused : wrap 32 (s.rbufused + n) = (bytesIn s.rsegs + n + bytesIn L : ℕ) := by
    rw [h.rbufused, wrap_eq_self (by decide) (by omega) (by omega)]
    push_cast
    ring
  unfold RxStream.consume
  dsimp only
  rw [hn, hmsg, hav, hused, ← hx]
  refine ⟨⟨?_, h.pending, ?_, ?_, ?_, ?_⟩, hb⟩
  · exact List.forall_mem_append.mpr ⟨h.whole, List.forall_mem_singleton.mpr h1⟩
  · change bytesIn (s.rsegs ++ [x]) + bytesIn L < 2 ^ 31
    omega
  · change _ = ((bytesIn (s.rsegs ++ [x]) : ℕ) : ℤ)
    rw [hb]
  · change _ = ((bytesIn (s.rsegs ++ [x]) + bytesIn L : ℕ) : ℤ)
    rw [hb]
  · have hp := hg.push n
    rw [← hsz] at hp
    dsimp only
    split_ifs with hm
    · rw [Bool.and_eq_true, decide_eq_true_eq] at hm
      refine ⟨q ++ [o + n], 0, ?_, rfl, hp.mark (by exact_mod_cast hm.2)⟩
      rw [hq, List.map_append, List.map_singleton]
    · exact ⟨q, o + n, hq, rfl, hp⟩

theorem Counted.unpark (h : Counted s (seg :: L)) :
    Counted { s with rbufused := wrap 32 (s.rbufused - seg.segmentSize) } L := by
  obtain ⟨h0, hL⟩ := List.forall_mem_cons.mp h.pending
  have hroom := h.room
  have hused := h.rbufused
  rw [bytesIn_cons] at hroom hused
  refine ⟨h.whole, hL, ?_, h.ravail, ?_, h.grouped⟩
  · dsimp only
    omega
  · dsimp only
    rw [hused, segmentSize_eq_payload (by omega), wrap_eq_self (by decide) (by omega) (by omega)]
    push_cast
    ring

theorem Counted.unpark_room (h : Counted s (seg :: L)) (hd : s.rsnDiff seg ≤ 0) :
    bytesIn s.rsegs + bytesIn L + (s.actSize seg).toNat < 2 ^ 31 := by
  have h0 := h.pending seg List.mem_cons_self
  have hroom := h.room
  rw [bytesIn_cons] at hroom
  have ha : s.actSize seg ≤ seg.payload.length := by
    rw [actSize, segmentSize_eq_payload (by omega)]
    omega
  omega

/-- **The pull loop** keeps the counters. -/
theorem Counted.pull : ∀ (L : List RxSegment) (s : RxStream) (c : Bool), Counted s L →
    Counted (RxStream.pull L s c).1 (RxStream.pull L s c).1.rahead := by
  intro L
  induction L with
  | nil =>
    intro s c h
    exact ⟨h.whole, nofun, h.room, h.ravail, h.rbufused, h.grouped⟩
  | cons seg L ih =>
    intro s c h
    unfold RxStream.pull
    dsimp only
    split_ifs with h1 h2
    · exact ⟨h.whole, h.pending, h.room, h.ravail, h.rbufused, h.grouped⟩
    · exact ih _ c h.unpark
    · simp only [outOfDate, Bool.or_eq_true, decide_eq_true_eq, not_or, not_lt] at h2
      refine ih _ _ (h.unpark.consume (h.pending seg List.mem_cons_self) (not_lt.mp h1) h2.1 ?_).1
      exact h.unpark_room (not_lt.mp h1)

theorem Counted.shutdownRead (h : Counted s s.rahead) :
    Counted s.shutdownRead s.shutdownRead.rahead := by
  unfold RxStream.shutdownRead
  split_ifs
  · exact ⟨nofun, nofun, (by decide : 0 + 0 < 2 ^ 31), rfl, rfl, [], 0, rfl, rfl, rfl⟩
  · exact h

theorem Counted.park (h : Counted s s.rahead) (ha : Arrives seg) (hd : 0 < s.rsnDiff seg)
    (he : s.endread = false)
    (hr : bytesIn s.rsegs + bytesIn s.rahead + s.newBytes seg < 2 ^ 31) :
    Counted (s.park seg) (s.park seg).rahead := by
  unfold newBytes at hr
  rw [he, if_neg Bool.false_ne_true, if_pos hd] at hr
  dsimp only [RxStream.park]
  generalize s.parkIndex (s.rsnDiff seg) = k at hr
  split_ifs at hr ⊢ with hdup
  · exact h
  · have hsz := segmentSize_eq_payload (by rw [ha.hdrlen]; exact Nat.zero_le _)
    have hb : bytesIn (s.rahead.take k ++ seg :: s.rahead.drop k) =
        bytesIn s.rahead + seg.payload.length := by
      conv_rhs => rw [← List.take_append_drop k s.rahead, bytesIn_append]
      rw [bytesIn_append, bytesIn_cons]
      omega
    have hused := h.rbufused
    refine ⟨h.whole, fun x hx => ?_, ?_, h.ravail, ?_, h.grouped⟩
    · rcases List.mem_append.mp hx with hx | hx
      · exact h.pending x (List.mem_of_mem_take hx)
      · rcases List.mem_cons.mp hx with rfl | hx
        · exact ha.hdrlen
        · exact h.pending x (List.mem_of_mem_drop hx)
    · dsimp only
      omega
    · dsimp only
      rw [hb, hused, hsz, wrap_eq_self (by decide) (by omega) (by omega)]
      push_cast
      ring

/-- **An arrival** keeps the counters. -/
theorem Counted.rxData (h : Counted s s.rahead) (ha : Arrives seg)
    (hr : bytesIn s.rsegs + bytesIn s.rahead + s.newBytes seg < 2 ^ 31) :
    Counted (s.rxData seg) (s.rxData seg).rahead := by
  unfold RxStream.rxData
  split_ifs with he hd hst
  · exact h
  · exact h.park ha hd (Bool.eq_false_iff.mpr he) hr
  · exact h
  · unfold newBytes at hr
    rw [if_neg he, if_neg hd] at hr
    simp only [outOfDate, Bool.or_eq_true, decide_eq_true_eq, not_or, not_lt] at hst
    have hp := Counted.pull s.rahead _ seg.flags.close
      (h.consume ha.hdrlen (not_lt.mp hd) hst.1 hr).1
    generalize RxStream.pull s.rahead (s.consume seg) seg.flags.close = p at hp
    obtain ⟨t, closed⟩ := p
    dsimp only at hp ⊢
    split_ifs
    · exact hp.shutdownRead
    · exact hp

/-! ## Reads -/

theorem account_rbufused (s : RxStream) (size : ℤ) :
    (s.account size).1.rbufused = wrap 32 (s.rbufused - size) := by
  dsimp only [account]
  split
  · rfl
  · split_ifs <;> rfl

theorem account_grouped {q : List ℕ} {o n : ℕ} {l : List ℕ} (hq : s.rmsgsize = q.map (↑))
    (ho : s.rmsgavail = o) (hg : Grouped q o (n :: l)) (hn : n + l.sum < 2 ^ 31) :
    ∃ (q' : List ℕ) (o' : ℕ), (s.account n).1.rmsgsize = q'.map (↑) ∧
      (s.account n).1.rmsgavail = o' ∧ Grouped q' o' l := by
  have hs := hg.sum
  rw [List.sum_cons] at hs
  cases q with
  | nil =>
    rw [List.sum_nil] at hs
    obtain ⟨h1, h2⟩ := hg.pop_open
    obtain ⟨-, h3, h4⟩ := account_nil hq n
    refine ⟨[], o - n, h3, ?_, h2⟩
    rw [h4, ho, wrap_eq_self (by decide) (by omega) (by omega), Nat.cast_sub h1]
  | cons m q =>
    obtain ⟨h1, h2, h3⟩ := hg.pop
    obtain ⟨h4, h5, h6⟩ := account_cons hq n
    by_cases hm : m = n
    · exact ⟨q, o, (h5 (by exact_mod_cast hm)).2, h4.trans ho, h2 hm⟩
    · refine ⟨(m - n) :: q, o, ?_, h4.trans ho, h3 hm⟩
      rw [(h6 (by exact_mod_cast hm)).2, List.map_cons, Nat.cast_sub h1]

/-- **A segment leaves the queue.** -/
theorem Counted.account (h : Counted { s with rsegs := seg :: l } L) :
    Counted { (s.account seg.segmentSize).1 with rsegs := l } L := by
  obtain ⟨h1, hl⟩ := List.forall_mem_cons.mp h.whole
  obtain ⟨q, o, hq, ho, hg⟩ := h.grouped
  obtain ⟨-, hpend, hroom, hav, hused, -⟩ := h
  dsimp only at hroom hav hused hq ho
  rw [bytesIn_cons] at hroom hav hused
  rw [segmentSize_eq_payload h1]
  have hn : seg.payload.length + (sizes l).sum < 2 ^ 31 := by
    rw [← bytesIn]
    omega
  refine ⟨hl, hpend, ?_, ?_, ?_, ?_⟩
  · dsimp only
    omega
  · dsimp only
    rw [account_ravail, hav, wrap_eq_self (by decide) (by omega) (by omega)]
    push_cast
    ring
  · dsimp only
    rw [account_rbufused, hused, wrap_eq_self (by decide) (by omega) (by omega)]
    push_cast
    ring
  · exact account_grouped hq ho hg hn

/-- **The read loop** keeps the counters and leaves the reorder buffer alone or clears it. -/
theorem Counted.readLoop : ∀ (l : List RxSegment) (s t : RxStream) (maxSize : ℕ)
    (data data' : List UInt8), Counted { s with rsegs := l } s.rahead →
    RxStream.readLoop l s maxSize data = some (t, data') →
    Counted t t.rahead ∧ t.rsn = s.rsn ∧ (t.rahead = s.rahead ∨ t.rahead = []) := by
  intro l
  induction l with
  | nil =>
    intro s t maxSize data data' h ht
    unfold RxStream.readLoop at ht
    split_ifs at ht
    cases ht
    exact ⟨h, rfl, .inl rfl⟩
  | cons seg l ih =>
    intro s t maxSize data data' h ht
    unfold RxStream.readLoop at ht
    split_ifs at ht with h1
    · cases ht
      exact ⟨h, rfl, .inl rfl⟩
    · have hs := h.account
      have hsame := sameAhead_account s seg.segmentSize
      dsimp only at ht
      generalize s.account seg.segmentSize = a at ht hs hsame
      obtain ⟨u, boundary⟩ := a
      dsimp only at ht hs hsame
      rw [← hsame.rahead] at hs
      split_ifs at ht with h2 h3 h4
      · cases ht
        exact ⟨hs, hsame.rsn, .inl hsame.rahead⟩
      · cases ht
        rw [Bool.and_eq_true, Bool.and_eq_true] at h4
        rw [RxStream.shutdownRead, if_pos (Bool.and_eq_true _ _ ▸ ⟨h4.1.2, h4.2⟩)]
        exact ⟨⟨List.forall_mem_nil _, List.forall_mem_nil _, (by decide : 0 + 0 < 2 ^ 31), rfl,
          rfl, [], 0, rfl, rfl, rfl⟩, hsame.rsn, .inr rfl⟩
      · obtain ⟨h5, h6, h7⟩ := ih u t _ _ data' hs ht
        refine ⟨h5, h6.trans hsame.rsn, ?_⟩
        rwa [hsame.rahead] at h7

/-- The state between operations: the counters agree, and the reorder buffer is in order at a
receive point beyond which no position is negative. -/
def Sound (s : RxStream) : Prop :=
  Counted s s.rahead ∧ ∃ R L, 2 ^ 32 ≤ R ∧ Located s R L

theorem Sound.of_ahead (h : Sound s) (hc : Counted t t.rahead) (hr : t.rsn = s.rsn)
    (ha : t.rahead = s.rahead ∨ t.rahead = []) : Sound t := by
  obtain ⟨-, R, L, h1, h2⟩ := h
  refine ⟨hc, ?_⟩
  rcases ha with ha | ha
  · exact ⟨R, L, h1, hr.trans h2.rsn, ha.trans h2.rahead, h2.fits, h2.sorted, h2.beyond⟩
  · exact ⟨R, [], h1, hr.trans h2.rsn, ha, nofun, .nil, nofun⟩

theorem Sound.takeData {maxSize : ℕ} {data : List UInt8} (h : Sound s)
    (ht : s.takeData maxSize = some (t, data)) : Sound t := by
  obtain ⟨h1, h2, h3⟩ := Counted.readLoop s.rsegs s t maxSize [] data h.1 ht
  exact h.of_ahead h1 h2 h3

theorem Sound.record (h : Sound s) (r : ReadRecord) : Sound (s.record r) :=
  h.of_ahead ⟨h.1.whole, h.1.pending, h.1.room, h.1.ravail, h.1.rbufused, h.1.grouped⟩ rfl
    (.inl rfl)

theorem Sound.shutdownRead (h : Sound s) : Sound s.shutdownRead := by
  refine h.of_ahead h.1.shutdownRead ?_ ?_ <;> unfold RxStream.shutdownRead <;> split_ifs
  · rfl
  · rfl
  · exact .inr rfl
  · exact .inl rfl

theorem fits_of_arrives {R : ℕ} (ha : Arrives seg) (hr : s.rsn = wrap 32 R) (hR : 2 ^ 32 ≤ R) :
    ∃ p, Fits (p, seg) ∧ R ≤ p + 2 ^ 31 ∧ p < R + 2 ^ 31 := by
  have h1 : s.rsnDiff seg < 2 ^ 31 := wrap_lt (by decide) _
  have h2 : -2 ^ 31 ≤ s.rsnDiff seg := le_wrap (by decide) _
  refine ⟨(R + s.rsnDiff seg).toNat, ⟨?_, ha.hdrlen, ha.size⟩, by omega, by omega⟩
  change seg.rsn = _
  rw [Int.toNat_of_nonneg (by omega), rsnDiff, hr, wrap_sub_wrap_right, wrap_add_wrap_right,
    add_sub_cancel, ha.rsn]

theorem handles_large : Handles fun _ R _ _ => 2 ^ 32 ≤ R where
  skip _ _ _ _ _ h _ _ := h
  take _ _ _ _ _ h _ _ h2 _ := h.trans h2
  perm _ _ _ _ _ h _ := h
  repeated _ _ _ _ _ _ h _ _ _ _ := h

/-- **An arrival** keeps the counters and the order. -/
theorem Sound.rxData (h : Sound s) (ha : Arrives seg)
    (hr : bytesIn s.rsegs + bytesIn s.rahead + s.newBytes seg < 2 ^ 31) : Sound (s.rxData seg) := by
  refine ⟨h.1.rxData ha hr, ?_⟩
  obtain ⟨-, R, L, hR, hl⟩ := h
  by_cases he : s.endread = true
  · rw [RxStream.rxData, if_pos he]
    exact ⟨R, L, hR, hl⟩
  · obtain ⟨p, hx, h1, h2⟩ := fits_of_arrives ha hl.rsn hR
    obtain ⟨t, R', L', closed, h3, h4, h5⟩ :=
      rxData_spec handles_large hl hx h1 h2 (Bool.eq_false_iff.mpr he) hR
    rw [h5, finish]
    split_ifs
    · unfold RxStream.shutdownRead
      split_ifs
      · exact ⟨R', [], h4, h3.rsn, rfl, List.forall_mem_nil _, .nil, List.forall_mem_nil _⟩
      · exact ⟨R', L', h4, h3⟩
    · exact ⟨R', L', h4, h3⟩

/-- **One event** keeps the counters and the order. -/
theorem Sound.react {e : RxEvent} (h : Sound s) (hr : s.Roomy e) (ht : s.react e = some t) :
    Sound t := by
  cases e with
  | op op =>
    cases op with
    | rxData seg =>
      obtain ⟨ha, hroom⟩ := hr seg rfl
      cases ht
      exact h.rxData ha hroom
    | readData maxSize =>
      obtain ⟨⟨u, data⟩, hu, rfl⟩ := Option.map_eq_some_iff.mp ht
      exact (h.takeData hu).record _
    | readMessage maxSize =>
      change s.readMessage maxSize = some t at ht
      unfold readMessage at ht
      split_ifs at ht with hm
      · cases ht
        exact h
      · obtain ⟨⟨u, data⟩, hu, ht⟩ := Option.bind_eq_some_iff.mp ht
        dsimp only at ht
        split_ifs at ht
        · obtain ⟨⟨v, rest⟩, hv, rfl⟩ := Option.map_eq_some_iff.mp ht
          exact ((h.takeData hu).takeData hv).record _
        · cases ht
          exact (h.takeData hu).record _
  | shutdown =>
    cases ht
    exact h.shutdownRead
  | state connected =>
    cases ht
    exact h.of_ahead ⟨h.1.whole, h.1.pending, h.1.room, h.1.ravail, h.1.rbufused, h.1.grouped⟩ rfl
      (.inl rfl)

/-! ## The accounts -/

theorem Sound.accounts (h : Sound s) : Accounts s := by
  obtain ⟨hc, R, L, hR, hl⟩ := h
  obtain ⟨q, o, hq, ho, hg⟩ := hc.grouped
  have hs : q.sum + o = bytesIn s.rsegs := hg.sum
  have hav := hc.ravail
  have hused := hc.rbufused
  have hdiff : ∀ x ∈ L, s.rsnDiff x.2 = x.1 - R := by
    intro x hx
    have hb := hl.beyond x hx
    exact rsnDiff_eq hl.rsn (hl.fits x hx) (by omega) hb.2
  refine ⟨hav, ?_, ?_, ?_, ?_, ?_, fun k => ?_, by omega, by omega, by omega⟩
  · rw [hav, ho, hq, ← hs, Nat.cast_add, Nat.cast_list_sum]
  · rw [hused, hav, Nat.cast_add]
  · rw [hl.rahead, List.pairwise_map]
    refine hl.sorted.imp_of_mem fun {x y} hx hy hxy => ?_
    rw [hdiff x hx, hdiff y hy]
    omega
  · intro seg hseg
    rw [hl.rahead] at hseg
    obtain ⟨x, hx, rfl⟩ := List.mem_map.mp hseg
    rw [hdiff x hx]
    have hb := hl.beyond x hx
    omega
  · intro n hn
    rw [hq] at hn
    obtain ⟨m, hm, rfl⟩ := List.mem_map.mp hn
    exact_mod_cast hg.pos m hm
  · obtain ⟨m, hm⟩ := hg.boundary k
    refine ⟨m, ?_⟩
    rw [hq, ← List.map_take, ← Nat.cast_list_sum, hm, bytesIn, sizes, sizes, List.map_take]

end RxStream

theorem sound_of_reach {connected : Bool} {s : RxStream}
    (h : (counterMachine connected).Reach RxStream.Roomy s) : s.Sound := by
  refine h.invariant (P := RxStream.Sound) ?_ fun s t e _ hs hr ht => hs.react hr ht
  refine ⟨⟨nofun, nofun, (by decide : 0 + 0 < 2 ^ 31), rfl, rfl, [], 0, rfl, rfl, rfl⟩,
    2 ^ 32, [], le_rfl, ?_, rfl, nofun, .nil, nofun⟩
  change 0 = wrap 32 (2 ^ 32 : ℕ)
  exact (wrap_eq_zero_iff.mpr (dvd_refl _)).symm

/-- **The counters agree with the queues** while there is room for what arrives. -/
theorem counters_exact (connected : Bool) {s : RxStream}
    (h : (counterMachine connected).Reach RxStream.Roomy s) : s.Accounts :=
  (sound_of_reach h).accounts

/-- A segment ahead of the receive point waits while one with a message arrives. -/
theorem counters_exact_reordered :
    ((((RxStream.new true).rxData ⟨1, ⟨true, true, false⟩, [8], 0⟩).rxData
      ⟨3, ⟨true, false, false⟩, [9], 0⟩).rxData
        ⟨-1, ⟨true, false, false⟩, [6, 7], 0⟩).Accounts := by
  refine counters_exact true ?_
  have h0 : (counterMachine true).Reach RxStream.Roomy (.new true) := .init
  refine ((h0.step (i := .op (.rxData _)) ?_ rfl).step (i := .op (.rxData _)) ?_ rfl).step
    (i := .op (.rxData _)) ?_ rfl
  all_goals
    intro seg h
    cases h
    exact ⟨⟨by decide +kernel, rfl, by decide⟩, by decide +kernel⟩

/-! ## Too many bytes -/

/-- A segment of 1024 bytes, the `i`th of a stream. -/
def kilobyte (i : ℕ) : RxSegment := ⟨1024 * i, ⟨false, false, false⟩, .replicate 1024 0, 0⟩

/-- The segments of the stream arrive one after the other. -/
def flooded (connected : Bool) (n : ℕ) : RxStream :=
  (List.range n).foldl (fun s i => s.rxData (kilobyte i)) (.new connected)

theorem flooded_succ (connected : Bool) (n : ℕ) :
    flooded connected (n + 1) = (flooded connected n).rxData (kilobyte n) := by
  rw [flooded, List.range_succ, List.foldl_append]
  rfl

theorem flooded_spec (connected : Bool) {n : ℕ} (hn : n ≤ 2 ^ 21) :
    (counterMachine connected).Reach RxStream.Fed (flooded connected n) ∧
      Located (flooded connected n) (1024 * n) [] ∧ (flooded connected n).endread = false ∧
      (flooded connected n).ravail = wrap 32 (1024 * n : ℕ) := by
  induction n with
  | zero => exact ⟨.init, ⟨(wrap_zero 32).symm, rfl, nofun, .nil, nofun⟩, rfl, (wrap_zero 32).symm⟩
  | succ n ih =>
    obtain ⟨h1, h2, h3, h4⟩ := ih (by omega)
    have hlen : (kilobyte n).buf.length = 1024 := List.length_replicate
    have hrsn : wrap 32 (1024 * n : ℕ) = 1024 * n := by
      rw [wrap_eq_self (by decide) (by omega) (by omega), Nat.cast_mul]
      rfl
    have hstop : Placed.stop (1024 * n, kilobyte n) = 1024 * (n + 1) := by
      rw [Placed.stop, hlen]
      omega
    have hx : Fits (1024 * n, kilobyte n) := ⟨hrsn.symm, rfl, by rw [hlen]; decide⟩
    obtain ⟨t, h5, h6, h7⟩ := RxStream.rxData_next h2 h3 hx le_rfl (by omega) <| by
      unfold Stale
      omega
    have ht : flooded connected (n + 1) = t := by
      rw [flooded_succ]
      exact h5
    rw [hstop] at h6
    have hav : t.ravail = wrap 32 (1024 * (n + 1) : ℕ) := by
      have h8 := congrArg RxStream.ravail h7
      rw [RxStream.take_ravail, hstop] at h8
      change t.ravail = wrap 32 ((flooded connected n).ravail + _) at h8
      rw [h8, h4, wrap_add_wrap_left]
      exact congrArg (wrap 32) (by omega)
    have hstep : (flooded connected n).react (.op (.rxData (kilobyte n))) =
        some (flooded connected (n + 1)) := by
      rw [flooded_succ]
      rfl
    have ha : Arrives (kilobyte n) := by
      refine ⟨?_, rfl, hx.size⟩
      have he : (kilobyte n).rsn = wrap 32 (1024 * n : ℕ) := hrsn.symm
      rw [he, wrap_wrap]
    refine ⟨h1.step (i := .op (.rxData (kilobyte n))) (fun seg h => ?_) hstep, ?_⟩
    · cases h
      exact ha
    · rw [ht]
      refine ⟨h6, ?_, hav⟩
      have h8 := congrArg RxStream.endread h7
      rw [RxStream.take_endread] at h8
      exact h8.trans h3

/-- **Nothing bounds the bytes buffered**: after `2 ^ 21` segments `ravail` is negative. -/
theorem counters_overflow : ¬∀ connected s,
    (counterMachine connected).Reach RxStream.Fed s → s.Accounts := by
  intro hall
  obtain ⟨h1, -, -, h2⟩ := flooded_spec true (le_refl (2 ^ 21))
  have h3 := (hall true _ h1).nonneg.1
  have h4 : wrap 32 (1024 * 2 ^ 21 : ℕ) = -2 ^ 31 := by decide +kernel
  rw [h2, h4] at h3
  exact absurd h3 (by decide)

end Sst
