import Sst.Stream.Counters

/-!
# The queue and its messages

While fewer than `2 ^ 31` bytes are buffered, `rmsgsize` and `rmsgavail` are the messages that the
queued segments make up, whatever arrives and however it is read.

* `framing`: the sizes and marks of the queued segments.
* `Framed`: the messages recorded are those of the queue.
* `Framed.account`: a segment leaves the queue.
* **`framed_of_reach`**: it holds in every run.
-/

namespace Sst

open Word Framing

/-- The bytes a queued segment still has, and whether it ends a message. -/
def RxSegment.piece (seg : RxSegment) : ℕ × Bool := (seg.payload.length, seg.flags.marks)

/-- The sizes and marks of queued segments. -/
def framing (l : List RxSegment) : List (ℕ × Bool) := l.map RxSegment.piece

namespace RxStream

/-- The messages recorded are those of the queue, which is empty once the stream was shut down. -/
structure Framed (s : RxStream) : Prop where
  rmsgsize : s.rmsgsize = (messages 0 (framing s.rsegs)).map (↑)
  rmsgavail : s.rmsgavail = rest 0 (framing s.rsegs)
  ended : s.endread = true → s.rsegs = []

variable {s t : RxStream} {seg : RxSegment} {l L : List RxSegment}

theorem size_framing (l : List RxSegment) : size (framing l) = bytesIn l := by
  rw [size, framing, bytesIn, sizes, List.map_map]
  rfl

theorem rest_le (o : ℕ) (l : List (ℕ × Bool)) : rest o l ≤ o + size l := by
  have := sum_messages o l
  omega

/-! ## Arrivals -/

/-- **Queueing a segment** adds it to the messages. -/
theorem Framed.consume (h : Framed s) (he : s.endread = false)
    (h0 : seg.hdrlen = 0) (hd : s.rsnDiff seg ≤ 0) (ha : 0 ≤ s.actSize seg)
    (hr : bytesIn s.rsegs + (s.actSize seg).toNat < 2 ^ 31) : Framed (s.consume seg) := by
  obtain ⟨x, hx, -, h2⟩ := payload_merged h0 hd ha
  obtain ⟨n, hn⟩ := Int.eq_ofNat_of_zero_le ha
  rw [hn, Int.toNat_natCast] at hr
  rw [hn, Nat.cast_inj] at h2
  have hpiece : framing (s.rsegs ++ [x]) = framing s.rsegs ++ [(n, seg.flags.marks)] := by
    have hp : x.piece = (n, seg.flags.marks) := by
      rw [RxSegment.piece, h2, hx]
    rw [framing, List.map_append, List.map_singleton, hp, framing]
  have hle := rest_le 0 (framing s.rsegs)
  rw [size_framing] at hle
  have hmsg : wrap 32 (s.rmsgavail + n) = (rest 0 (framing s.rsegs) + n : ℕ) := by
    rw [h.rmsgavail, wrap_eq_self (by decide) (by omega) (by omega), Nat.cast_add]
  unfold RxStream.consume
  dsimp only
  rw [hn, hmsg, ← hx]
  generalize hr : rest 0 (framing s.rsegs) = r at hmsg ⊢
  have hpos : decide (0 < ((r + n : ℕ) : ℤ)) = decide (0 < r + n) := by
    rw [decide_eq_decide]
    omega
  refine ⟨?_, ?_, fun he' => absurd (he.symm.trans he') Bool.false_ne_true⟩
  · dsimp only
    rw [hpiece, messages_append, h.rmsgsize, hr, hpos]
    cases seg.flags.marks with
    | false => simp [messages]
    | true =>
      rw [Bool.true_and]
      by_cases hrn : 0 < r + n
      · simp [messages, hrn]
      · simp [messages, hrn]
  · dsimp only
    rw [hpiece, rest_append, hr, hpos]
    cases seg.flags.marks with
    | false => rfl
    | true =>
      rw [Bool.true_and]
      by_cases hrn : 0 < r + n
      · rw [decide_eq_true hrn, if_pos rfl]
        rfl
      · rw [decide_eq_false hrn, if_neg Bool.false_ne_true, Nat.eq_zero_of_not_pos hrn]
        rfl

/-- **The pull loop** adds what it takes. -/
theorem Framed.pull : ∀ (L : List RxSegment) (s : RxStream) (c : Bool), Framed s → Counted s L →
    s.endread = false → Framed (RxStream.pull L s c).1 := by
  intro L
  induction L with
  | nil =>
    intro s c h _ he
    exact ⟨h.rmsgsize, h.rmsgavail, h.ended⟩
  | cons seg L ih =>
    intro s c h hc he
    unfold RxStream.pull
    dsimp only
    split_ifs with h1 h2
    · exact ⟨h.rmsgsize, h.rmsgavail, h.ended⟩
    all_goals
      have hs : Framed { s with rbufused := wrap 32 (s.rbufused - seg.segmentSize) } :=
        ⟨h.rmsgsize, h.rmsgavail, h.ended⟩
    · exact ih _ c hs hc.unpark he
    · simp only [outOfDate, Bool.or_eq_true, decide_eq_true_eq, not_or, not_lt] at h2
      have h0 := hc.pending seg List.mem_cons_self
      have hroom := hc.unpark_room (not_lt.mp h1)
      refine ih _ _ (hs.consume he h0 (not_lt.mp h1) h2.1 ?_)
        (hc.unpark.consume h0 (not_lt.mp h1) h2.1 hroom).1 he
      change bytesIn s.rsegs + (s.actSize seg).toNat < 2 ^ 31
      omega

theorem Framed.shutdownRead (h : Framed s) : Framed s.shutdownRead := by
  unfold RxStream.shutdownRead
  split_ifs
  · exact ⟨rfl, rfl, fun _ => rfl⟩
  · exact h

/-- **An arrival** keeps the messages. -/
theorem Framed.rxData (h : Framed s) (hc : Counted s s.rahead) (ha : Arrives seg)
    (hr : bytesIn s.rsegs + bytesIn s.rahead + s.newBytes seg < 2 ^ 31) :
    Framed (s.rxData seg) := by
  unfold RxStream.rxData
  split_ifs with he hd hst
  · exact h
  · dsimp only [RxStream.park]
    split_ifs
    · exact h
    · exact ⟨h.rmsgsize, h.rmsgavail, h.ended⟩
  · exact h
  · unfold newBytes at hr
    rw [if_neg he, if_neg hd] at hr
    have he : s.endread = false := Bool.eq_false_iff.mpr he
    simp only [outOfDate, Bool.or_eq_true, decide_eq_true_eq, not_or, not_lt] at hst
    have hp := Framed.pull s.rahead _ seg.flags.close
      (h.consume he ha.hdrlen (not_lt.mp hd) hst.1 (by omega))
      (hc.consume ha.hdrlen (not_lt.mp hd) hst.1 hr).1 he
    generalize RxStream.pull s.rahead (s.consume seg) seg.flags.close = p at hp
    obtain ⟨t, closed⟩ := p
    dsimp only at hp ⊢
    split_ifs
    · exact hp.shutdownRead
    · exact hp

/-! ## Reads -/

/-- **A segment leaves the queue**, and the open bytes or the first message with it. -/
theorem Framed.account (h : Framed { s with rsegs := seg :: l })
    (hc : Counted { s with rsegs := seg :: l } L) (he : s.endread = false) :
    Framed { (s.account seg.segmentSize).1 with rsegs := l } := by
  have hended : (s.account seg.segmentSize).1.endread = true → l = [] := fun h' =>
    absurd ((sameAhead_account s _).endread.symm.trans h') (by rw [he]; exact Bool.false_ne_true)
  have hroom := hc.room
  have hle := rest_le 0 (framing l)
  rw [size_framing] at hle
  dsimp only at hroom
  rw [bytesIn_cons] at hroom
  have hmsg := h.rmsgsize
  have havail := h.rmsgavail
  have hpiece : framing (seg :: l) = (seg.payload.length, seg.flags.marks) :: framing l := rfl
  dsimp only at hmsg havail
  rw [hpiece] at hmsg havail
  rw [segmentSize_eq_payload (hc.whole seg List.mem_cons_self)] at hended ⊢
  generalize seg.payload.length = n at *
  rcases messages_pop n seg.flags.marks (framing l) with
    ⟨h1, h2, h3⟩ | ⟨m, q, hm, h1, h2, h3⟩ | ⟨hn, h1, h3⟩
  · rw [h1, List.map_nil] at hmsg
    obtain ⟨-, h4, h5⟩ := account_nil hmsg n
    refine ⟨?_, ?_, hended⟩
    · dsimp only
      rw [h4, h2, List.map_nil]
    · dsimp only
      rw [h5, havail, h3, wrap_eq_self (by decide) (by omega) (by omega)]
      omega
  · rw [h1, List.map_cons] at hmsg
    obtain ⟨h4, -, h5⟩ := account_cons hmsg n
    refine ⟨?_, ?_, hended⟩
    · dsimp only
      rw [(h5 (by omega)).2, h2, List.map_cons]
      congr 1
      omega
    · dsimp only
      rw [h4, havail, h3]
  · rw [h1, List.map_cons] at hmsg
    obtain ⟨h4, h5, -⟩ := account_cons hmsg n
    refine ⟨?_, ?_, hended⟩
    · dsimp only
      rw [(h5 rfl).2]
    · dsimp only
      rw [h4, havail, h3]

/-- **The read loop** keeps the messages. -/
theorem Framed.readLoop : ∀ (l : List RxSegment) (s t : RxStream) (maxSize : ℕ)
    (data data' : List UInt8), Framed { s with rsegs := l } →
    Counted { s with rsegs := l } s.rahead →
    RxStream.readLoop l s maxSize data = some (t, data') → Framed t := by
  intro l
  induction l with
  | nil =>
    intro s t maxSize data data' h _ ht
    unfold RxStream.readLoop at ht
    split_ifs at ht
    cases ht
    exact h
  | cons seg l ih =>
    intro s t maxSize data data' h hc ht
    have he : s.endread = false := by
      by_contra he
      have := h.ended (by simpa using he)
      cases this
    have hf := h.account hc he
    have hs := hc.account
    have hsame := sameAhead_account s seg.segmentSize
    unfold RxStream.readLoop at ht
    dsimp only at ht
    generalize s.account seg.segmentSize = a at ht hs hsame hf
    obtain ⟨u, boundary⟩ := a
    dsimp only at ht hs hsame hf
    rw [← hsame.rahead] at hs
    split_ifs at ht with h1 h2 h3 h4
    · cases ht
      exact h
    · cases ht
      exact hf
    · cases ht
      rw [Bool.and_eq_true, Bool.and_eq_true] at h4
      rw [RxStream.shutdownRead, if_pos (Bool.and_eq_true _ _ ▸ ⟨h4.1.2, h4.2⟩)]
      exact ⟨rfl, rfl, fun _ => rfl⟩
    · exact ih u t _ _ data' hf hs ht

theorem Framed.takeData {maxSize : ℕ} {data : List UInt8} (h : Framed s) (hs : Sound s)
    (ht : s.takeData maxSize = some (t, data)) : Framed t :=
  Framed.readLoop s.rsegs s t maxSize [] data h hs.1 ht

/-- **One event** keeps the messages. -/
theorem Framed.react {e : RxEvent} (h : Framed s) (hs : Sound s) (hr : s.Roomy e)
    (ht : s.react e = some t) : Framed t := by
  cases e with
  | op op =>
    cases op with
    | rxData seg =>
      obtain ⟨ha, hroom⟩ := hr seg rfl
      cases ht
      exact h.rxData hs.1 ha hroom
    | readData maxSize =>
      obtain ⟨⟨u, data⟩, hu, rfl⟩ := Option.map_eq_some_iff.mp ht
      obtain ⟨h1, h2, h3⟩ := h.takeData hs hu
      exact ⟨h1, h2, h3⟩
    | readMessage maxSize =>
      change s.readMessage maxSize = some t at ht
      unfold readMessage at ht
      split_ifs at ht with hm
      · cases ht
        exact h
      · obtain ⟨⟨u, data⟩, hu, ht⟩ := Option.bind_eq_some_iff.mp ht
        dsimp only at ht
        split_ifs at ht
        · obtain ⟨⟨v, rest⟩, hv, rfl⟩ := Option.map_eq_some_iff.mp ht
          obtain ⟨h1, h2, h3⟩ := (h.takeData hs hu).takeData (hs.takeData hu) hv
          exact ⟨h1, h2, h3⟩
        · cases ht
          obtain ⟨h1, h2, h3⟩ := h.takeData hs hu
          exact ⟨h1, h2, h3⟩
  | shutdown =>
    cases ht
    exact h.shutdownRead
  | state connected =>
    cases ht
    exact ⟨h.rmsgsize, h.rmsgavail, h.ended⟩

end RxStream

/-- **The messages recorded are those of the queue**, while there is room for what arrives. -/
theorem framed_of_reach {connected : Bool} {s : RxStream}
    (h : (counterMachine connected).Reach RxStream.Roomy s) : s.Framed := by
  induction h with
  | init => exact ⟨rfl, rfl, fun _ => rfl⟩
  | step hr hc ht ih => exact ih.react (sound_of_reach hr) hc ht

end Sst
