import Sst.Stream.Framed

/-!
# Bounded reads

`readData` dequeues whole segments and asserts that each fits in what is left of the buffer. So a
read fails where the end of the buffer cuts a segment; all other assertions hold.

* `RxStream.assertLoop`, `readAsserted`, `messageAsserted`, `arrayAsserted`: the reads, with every
  assertion.
* `RxStream.Uncut s n`: the end of a buffer of `n` bytes cuts no segment that the read comes to.
* `Framed.readLoop_iff`: the loop gets to its end exactly if it cuts none.
* `Framed.readLoop_message`: what a read of a message leaves.
* **`bounded_reads`**: which reads succeed, in every run, and what they return.
* **`bounded_reads_cut`**: a read of one byte of two, and a service message of one segment.
-/

namespace Sst

open Word Framing

namespace RxStream

/-! ## The reads and their assertions -/

/-- What `readData` asserts about the counters behind a segment of `size` bytes. -/
def accountOk (s : RxStream) (size : ℤ) : Bool :=
  decide (0 ≤ wrap 32 (s.ravail - size)) &&
    match s.rmsgsize with
    | [] => decide (0 ≤ wrap 32 (s.rmsgavail - size))
    | headsize :: _ => decide (0 ≤ headsize - size)

/-- The loop of `readData`, with all its assertions. -/
def assertLoop : List RxSegment → RxStream → ℕ → List UInt8 → Option (RxStream × List UInt8)
  | rsegs, s, maxSize, data =>
    if maxSize = 0 || s.ravail ≤ 0 then some ({ s with rsegs := rsegs }, data)
    else if s.endread then none
    else match rsegs with
      | [] => none
      | rseg :: rsegs =>
        if rseg.segmentSize < 0 || maxSize < rseg.segmentSize || !s.accountOk rseg.segmentSize then
          none
        else
          let (s, boundary) := s.account rseg.segmentSize
          if boundary then some ({ s with rsegs := rsegs }, data ++ rseg.payload)
          else if rseg.flags.close && s.connected && !s.endread then
            some (s.shutdownRead, data ++ rseg.payload)
          else assertLoop rsegs s (maxSize - rseg.segmentSize.toNat) (data ++ rseg.payload)

/-- `BaseStream::readData`. -/
def readAsserted (s : RxStream) (maxSize : ℕ) : Option (RxStream × List UInt8) :=
  assertLoop s.rsegs s maxSize []

/-- `BaseStream::readMessage` into a buffer; without a complete message it returns `-1`. -/
def messageAsserted (s : RxStream) (maxSize : ℕ) : Option (RxStream × List UInt8) :=
  if s.rmsgsize = [] then some (s, [])
  else (s.readAsserted maxSize).bind fun (t, data) =>
    if data = [] then none
    else if t.rmsgsize.length = s.rmsgsize.length then
      (t.readAsserted (2 ^ 30)).bind fun (u, rest) =>
        if rest = [] ∨ u.rmsgsize.length + 1 ≠ s.rmsgsize.length then none else some (u, data)
    else if t.rmsgsize.length + 1 ≠ s.rmsgsize.length then none
    else some (t, data)

/-- `BaseStream::readMessage` into a new array. -/
def arrayAsserted (s : RxStream) (maxSize : ℕ) : Option (RxStream × List UInt8) :=
  let msgsize := wrap 32 (s.rmsgsize.headD (-1))
  if msgsize ≤ 0 then some (s, [])
  else
    let bufsize := min msgsize.toNat maxSize
    (s.messageAsserted bufsize).bind fun (t, data) =>
      if data.length = bufsize then some (t, data) else none

/-! ## The conditions -/

/-- The bytes up to the end of the first message, or all of them if none is complete. -/
def stop (s : RxStream) : ℤ := s.rmsgsize.headD s.ravail

/-- The end of a buffer of `maxSize` bytes cuts no segment that a read comes to, before the end of
the first message or of the stream. -/
def Uncut (s : RxStream) (maxSize : ℕ) : Prop :=
  ∀ pre seg post, s.rsegs = pre ++ seg :: post → bytesIn pre < maxSize →
    (bytesIn pre : ℤ) < s.stop → (s.connected = true → ∀ x ∈ pre, x.flags.close = false) →
    bytesIn pre + seg.payload.length ≤ maxSize

/-- The stream does not end before the next byte. -/
def Continuing (s : RxStream) : Prop :=
  s.connected = true → ∀ pre seg post, s.rsegs = pre ++ seg :: post → bytesIn pre = 0 →
    seg.flags.close = true → 0 < seg.payload.length

/-- The condition on a read of a message: the buffer is not empty and cuts no segment, the stream
does not end before the message, and what is dropped of it are at most `2 ^ 30` bytes. -/
def MessageUncut (s : RxStream) (maxSize : ℕ) : Prop :=
  ∀ msgsize ∈ s.rmsgsize.head?, 0 < maxSize ∧ s.Uncut maxSize ∧ s.Continuing ∧
    msgsize ≤ maxSize + 2 ^ 30

variable {s t : RxStream} {seg : RxSegment} {l L : List RxSegment} {maxSize : ℕ}

/-! ## The assertions on the counters -/

theorem Framed.nonneg (h : Framed s) : 0 ≤ s.rmsgavail ∧ ∀ n ∈ s.rmsgsize, 0 < n := by
  refine ⟨by rw [h.rmsgavail]; omega, fun n hn => ?_⟩
  rw [h.rmsgsize] at hn
  obtain ⟨m, hm, rfl⟩ := List.mem_map.mp hn
  exact_mod_cast messages_pos hm

theorem Framed.reading (h : Framed { s with rsegs := seg :: l }) : s.endread = false := by
  by_contra he
  have := h.ended (by simpa using he)
  cases this

theorem Framed.accountOk (h : Framed { s with rsegs := seg :: l })
    (hc : Counted { s with rsegs := seg :: l } L) : s.accountOk seg.segmentSize = true := by
  have hf := (h.account hc h.reading).nonneg
  have hav := hc.account.ravail
  dsimp only at hf hav
  rw [account_ravail] at hav
  rw [RxStream.accountOk, hav, Bool.and_eq_true, decide_eq_true_eq]
  refine ⟨by omega, ?_⟩
  cases hm : s.rmsgsize with
  | nil =>
    dsimp only
    rw [decide_eq_true_eq, ← (account_nil hm seg.segmentSize).2.2]
    exact hf.1
  | cons m q =>
    dsimp only
    rw [decide_eq_true_eq]
    obtain ⟨-, -, h2⟩ := account_cons hm seg.segmentSize
    by_cases hn : m = seg.segmentSize
    · omega
    · have := hf.2 (m - seg.segmentSize) (by rw [(h2 hn).2]; exact List.mem_cons_self)
      omega

/-- **The assertions on the counters hold**: the loops with and without them are the same. -/
theorem Framed.assertLoop_eq : ∀ (l : List RxSegment) (s : RxStream) (maxSize : ℕ)
    (data : List UInt8), Framed { s with rsegs := l } → Counted { s with rsegs := l } s.rahead →
    assertLoop l s maxSize data = RxStream.readLoop l s maxSize data := by
  intro l
  induction l with
  | nil =>
    intro s maxSize data h hc
    have hav : s.ravail = 0 := hc.ravail
    unfold assertLoop RxStream.readLoop
    simp [hav]
  | cons seg l ih =>
    intro s maxSize data h hc
    have hsize := segmentSize_eq_payload (hc.whole seg List.mem_cons_self)
    have hok := h.accountOk hc
    have hf := h.account hc h.reading
    have hs := hc.account
    have hsame := sameAhead_account s seg.segmentSize
    have hneg : decide (seg.segmentSize < 0) = false := decide_eq_false (by omega)
    unfold assertLoop RxStream.readLoop
    dsimp only
    rw [h.reading, hok, hneg, if_neg Bool.false_ne_true, Bool.not_true, Bool.or_false,
      Bool.false_or]
    generalize s.account seg.segmentSize = a at hf hs hsame
    obtain ⟨u, boundary⟩ := a
    dsimp only at hf hs hsame ⊢
    rw [← hsame.rahead] at hs
    rw [ih u _ _ hf hs]
    simp only [decide_eq_true_eq]

theorem Framed.readAsserted_eq (h : Framed s) (hc : Counted s s.rahead) (maxSize : ℕ) :
    s.readAsserted maxSize = s.takeData maxSize :=
  Framed.assertLoop_eq s.rsegs s maxSize [] h hc

/-! ## How far a read goes -/

theorem Framed.stop_pos (h : Framed s) (hr : 0 < s.ravail) : 0 < s.stop := by
  rw [stop]
  cases hm : s.rmsgsize with
  | nil => exact hr
  | cons n q => exact h.nonneg.2 n (hm ▸ List.mem_cons_self)

theorem stop_boundary (s : RxStream) (size : ℤ) (h : (s.account size).2 = true) :
    s.stop = size := by
  rw [stop]
  cases hm : s.rmsgsize with
  | nil =>
    rw [(account_nil hm size).1] at h
    cases h
  | cons n q =>
    by_contra hn
    rw [((account_cons hm size).2.2 hn).1] at h
    cases h

theorem Counted.stop_account (h : Counted { s with rsegs := seg :: l } L)
    (hb : (s.account seg.segmentSize).2 = false) :
    s.stop = seg.segmentSize + (s.account seg.segmentSize).1.stop := by
  rw [stop, stop]
  cases hm : s.rmsgsize with
  | nil =>
    rw [(account_nil hm seg.segmentSize).2.1]
    have hav := h.ravail
    have hav' := h.account.ravail
    have hsize := segmentSize_eq_payload (h.whole seg List.mem_cons_self)
    dsimp only at hav hav'
    rw [bytesIn_cons] at hav
    rw [List.headD_nil, List.headD_nil, hav', hav, hsize]
    push_cast
    ring
  | cons n q =>
    have hn : n ≠ seg.segmentSize := by
      intro hn
      rw [((account_cons hm _).2.1 hn).1] at hb
      cases hb
    rw [((account_cons hm _).2.2 hn).2, List.headD_cons, List.headD_cons]
    ring

theorem uncut_cons (s : RxStream) (seg : RxSegment) (l : List RxSegment) (maxSize : ℕ) :
    Uncut { s with rsegs := seg :: l } maxSize ↔
      (0 < maxSize → 0 < s.stop → seg.payload.length ≤ maxSize) ∧
      ∀ pre x post, l = pre ++ x :: post → seg.payload.length + bytesIn pre < maxSize →
        ((seg.payload.length + bytesIn pre : ℕ) : ℤ) < s.stop →
        (s.connected = true → seg.flags.close = false ∧ ∀ y ∈ pre, y.flags.close = false) →
        seg.payload.length + bytesIn pre + x.payload.length ≤ maxSize := by
  constructor
  · intro h
    refine ⟨fun h1 h2 => ?_, fun pre x post hl h1 h2 h3 => ?_⟩
    · have := h [] seg l rfl h1 h2 fun _ y hy => absurd hy List.not_mem_nil
      rwa [bytesIn_nil, Nat.zero_add] at this
    · have := h (seg :: pre) x post (by rw [hl]; rfl) (by rwa [bytesIn_cons])
        (by rw [bytesIn_cons]; exact h2) fun hc => List.forall_mem_cons.mpr (h3 hc)
      rwa [bytesIn_cons] at this
  · rintro ⟨h1, h2⟩ pre x post hl h3 h4 h5
    cases pre with
    | nil =>
      obtain ⟨rfl, -⟩ := List.cons_eq_cons.mp hl
      rw [bytesIn_nil, Nat.zero_add]
      exact h1 h3 h4
    | cons y pre =>
      obtain ⟨rfl, hl'⟩ := List.cons_eq_cons.mp hl
      rw [bytesIn_cons] at h3 h4 ⊢
      exact h2 pre x post hl' h3 h4 fun hc => List.forall_mem_cons.mp (h5 hc)

theorem Uncut.tail (h : Uncut { s with rsegs := seg :: l } maxSize)
    (hn : seg.payload.length ≤ maxSize) (hcon : t.connected = s.connected)
    (hst : s.stop = seg.payload.length + t.stop)
    (hopen : s.connected = true → seg.flags.close = false) :
    Uncut { t with rsegs := l } (maxSize - seg.payload.length) := by
  intro pre x post hl hm hs hcl
  change (bytesIn pre : ℤ) < t.stop at hs
  have := ((uncut_cons ..).mp h).2 pre x post hl (by omega) (by omega) fun hc =>
    ⟨hopen hc, hcl (hcon.trans hc)⟩
  omega

/-- **The loop of `readData`** gets to its end exactly if the end of the buffer cuts no segment. -/
theorem Framed.readLoop_iff : ∀ (l : List RxSegment) (s : RxStream) (maxSize : ℕ)
    (data : List UInt8), Framed { s with rsegs := l } → Counted { s with rsegs := l } s.rahead →
    ((∃ r, RxStream.readLoop l s maxSize data = some r) ↔
      Uncut { s with rsegs := l } maxSize) := by
  intro l
  induction l with
  | nil =>
    intro s maxSize data h hc
    have hav : s.ravail = 0 := hc.ravail
    unfold RxStream.readLoop
    refine iff_of_true ⟨_, if_pos ?_⟩ fun pre seg post hl => absurd hl (by simp)
    rw [hav]
    simp
  | cons seg l ih =>
    intro s maxSize data h hc
    have hsize := segmentSize_eq_payload (hc.whole seg List.mem_cons_self)
    have hav := hc.ravail
    have hf := h.account hc h.reading
    have hs := hc.account
    have hstop := stop_boundary s seg.segmentSize
    have hstop' := hc.stop_account
    have hsame := sameAhead_account s seg.segmentSize
    have hcon := account_connected s seg.segmentSize
    dsimp only at hav
    rw [bytesIn_cons] at hav
    rw [uncut_cons]
    unfold RxStream.readLoop
    dsimp only
    generalize s.account seg.segmentSize = a at *
    obtain ⟨u, boundary⟩ := a
    dsimp only at hf hs hstop hstop' hsame hcon ⊢
    rw [← hsame.rahead] at hs
    have hfirst : 0 < s.ravail → 0 < s.stop := h.stop_pos
    have hue : u.endread = false := hsame.endread.trans h.reading
    split_ifs with h1 h2 h3 h4
    · refine iff_of_true ⟨_, rfl⟩ ⟨fun hm hs' => ?_, fun pre x post hl hm hs' _ => ?_⟩
      · simp only [Bool.or_eq_true, decide_eq_true_eq] at h1
        omega
      · have hb : bytesIn l = bytesIn pre + (x.payload.length + bytesIn post) := by
          rw [hl, bytesIn_append, bytesIn_cons]
        simp only [Bool.or_eq_true, decide_eq_true_eq] at h1
        omega
    · simp only [Bool.or_eq_true, decide_eq_true_eq, not_or, not_le] at h1
      refine iff_of_false (by rintro ⟨r, hr⟩; cases hr) fun hu => ?_
      have := hu.1 (by omega) (hfirst h1.2)
      omega
    · refine iff_of_true ⟨_, rfl⟩ ⟨fun _ _ => by omega, fun pre x post hl hm hs' _ => ?_⟩
      rw [hstop h3] at hs'
      omega
    · simp only [Bool.and_eq_true] at h4
      refine iff_of_true ⟨_, rfl⟩ ⟨fun _ _ => by omega, fun pre x post hl hm hs' hcl => ?_⟩
      have := (hcl (hcon ▸ h4.1.2)).1
      rw [h4.1.1] at this
      cases this
    · have hopen : s.connected = true → seg.flags.close = false := by
        intro hsc
        rw [hcon, hsc, hue] at h4
        simpa using h4
      have hst := hstop' (Bool.eq_false_iff.mpr h3)
      rw [ih u _ _ hf hs, hsize, Int.toNat_natCast]
      rw [hsize] at hst h2
      constructor
      · intro hu
        refine ⟨fun _ _ => by omega, fun pre x post hl hm hs' hcl => ?_⟩
        have := hu pre x post hl (by omega) (by change (bytesIn pre : ℤ) < u.stop; omega)
          fun hc' => (hcl (hcon ▸ hc')).2
        omega
      · intro hu
        exact Uncut.tail ((uncut_cons ..).mpr hu) (by omega) hcon hst hopen

/-! ## What a read returns -/

/-- What was read are the first segments of the queue; the others are left in it, or the last one
read ended the stream. -/
def Continues (s t : RxStream) (data : List UInt8) : Prop :=
  ∃ pre post, s.rsegs = pre ++ post ∧ data = pre.flatMap RxSegment.payload ∧ (t.rsegs = post ∨
    t.endread = true ∧ t.rsegs = [] ∧ ∃ l seg, pre = l ++ [seg] ∧ seg.flags.close = true)

/-- **The loop** returns the bytes of the first segments. -/
theorem readLoop_segments : ∀ (l : List RxSegment) (s t : RxStream) (maxSize : ℕ)
    (data data' : List UInt8), (∀ seg ∈ l, seg.hdrlen ≤ seg.buf.length) →
    readLoop l s maxSize data = some (t, data') →
    ∃ d, data' = data ++ d ∧ d.length ≤ maxSize ∧ Continues { s with rsegs := l } t d := by
  intro l
  induction l with
  | nil =>
    intro s t maxSize data data' _ ht
    unfold readLoop at ht
    split_ifs at ht
    cases ht
    exact ⟨[], (List.append_nil _).symm, Nat.zero_le _, [], [], rfl, rfl, .inl rfl⟩
  | cons seg l ih =>
    intro s t maxSize data data' hw ht
    obtain ⟨h0, hl⟩ := List.forall_mem_cons.mp hw
    have hsize := segmentSize_eq_payload h0
    unfold readLoop at ht
    dsimp only at ht
    generalize s.account seg.segmentSize = a at ht
    obtain ⟨u, boundary⟩ := a
    dsimp only at ht
    have hflat : seg.payload = [seg].flatMap RxSegment.payload :=
      (List.flatMap_singleton ..).symm
    split_ifs at ht with h1 h2 h3 h4
    · cases ht
      exact ⟨[], (List.append_nil _).symm, Nat.zero_le _, [], seg :: l, rfl, rfl, .inl rfl⟩
    · cases ht
      exact ⟨seg.payload, rfl, by omega, [seg], l, rfl, hflat, .inl rfl⟩
    · cases ht
      rw [Bool.and_eq_true, Bool.and_eq_true] at h4
      rw [shutdownRead, if_pos (Bool.and_eq_true _ _ ▸ ⟨h4.1.2, h4.2⟩)]
      exact ⟨seg.payload, rfl, by omega, [seg], l, rfl, hflat,
        .inr ⟨rfl, rfl, [], seg, rfl, h4.1.1⟩⟩
    · obtain ⟨d, rfl, hd, pre, post, hl', rfl, hend⟩ := ih u t _ _ data' hl ht
      refine ⟨seg.payload ++ pre.flatMap RxSegment.payload, List.append_assoc .., ?_,
        seg :: pre, post, congrArg (seg :: ·) hl', List.flatMap_cons.symm, hend.imp_right ?_⟩
      · rw [List.length_append]
        omega
      · rintro ⟨h5, h6, k, x, rfl, hxc⟩
        exact ⟨h5, h6, seg :: k, x, rfl, hxc⟩

theorem Counted.takeData_returns {data : List UInt8} (hc : Counted s L)
    (ht : s.takeData maxSize = some (t, data)) : data.length ≤ maxSize ∧ Continues s t data := by
  obtain ⟨d, hd, hlen, hcont⟩ := readLoop_segments s.rsegs s t maxSize [] data hc.whole ht
  rw [List.nil_append] at hd
  rw [hd]
  exact ⟨hlen, hcont⟩

/-! ## Reads of messages -/

/-- Behind a segment with bytes inside a message no empty segment ends a message. -/
theorem Framed.marks_pos (h : Framed { s with rsegs := seg :: l }) (hn : 0 < seg.payload.length)
    (hb : s.stop ≠ seg.payload.length) {pre post : List RxSegment} {x : RxSegment}
    (hl : l = pre ++ x :: post) (hpre : bytesIn pre = 0) (hx : x.flags.marks = true) :
    0 < x.payload.length := by
  by_contra hx0
  refine hb ?_
  have hx' : x.piece = (0, true) := by
    rw [RxSegment.piece, hx, Nat.eq_zero_of_not_pos hx0]
  have hzero : ∀ y ∈ framing pre, y.1 = 0 := size_eq_zero.mp ((size_framing pre).trans hpre)
  have hframe : framing l = framing pre ++ (0, true) :: framing post := by
    rw [hl, framing, List.map_append, List.map_cons, hx', framing, framing]
  have hmsg : s.rmsgsize = (messages 0 ((seg.payload.length, seg.flags.marks) :: framing l)).map
      (↑) := h.rmsgsize
  rw [stop, hmsg]
  cases seg.flags.marks with
  | true =>
    rw [messages, Nat.zero_add, if_pos hn]
    rfl
  | false =>
    obtain ⟨q, hq⟩ := messages_mark hn hzero (framing post)
    rw [messages, Nat.zero_add, hframe, hq]
    rfl

theorem Framed.stop_of_marks (h : Framed { s with rsegs := seg :: l }) (hn : 0 < seg.payload.length)
    (hm : seg.flags.marks = true) : s.stop = seg.payload.length := by
  have hmsg : s.rmsgsize = (messages 0 ((seg.payload.length, seg.flags.marks) :: framing l)).map
      (↑) := h.rmsgsize
  rw [stop, hmsg, hm, messages, Nat.zero_add, if_pos hn]
  rfl

theorem Framed.stop_le (h : Framed s) (hc : Counted s L) : s.stop ≤ bytesIn s.rsegs := by
  have hsum := sum_messages 0 (framing s.rsegs)
  rw [size_framing] at hsum
  rw [stop, h.rmsgsize]
  cases hm : messages 0 (framing s.rsegs) with
  | nil => exact hc.ravail.le
  | cons n q =>
    rw [hm, List.sum_cons] at hsum
    rw [List.map_cons, List.headD_cons]
    omega

theorem Flags.marks_of_close {f : Flags} (h : f.close = true) : f.marks = true := by
  rw [Flags.marks, h, Bool.or_true]

/-- **A read of a message** gets to the end of the buffer or of the message. -/
theorem Framed.readLoop_message : ∀ (l : List RxSegment) (s : RxStream) (maxSize : ℕ)
    (data : List UInt8) (m : ℤ) (q : List ℤ), Framed { s with rsegs := l } →
    Counted { s with rsegs := l } s.rahead → s.rmsgsize = m :: q → 0 < maxSize →
    Uncut { s with rsegs := l } maxSize → Continuing { s with rsegs := l } →
    ∃ t d, RxStream.readLoop l s maxSize data = some (t, data ++ d) ∧
      (d.length : ℤ) = min m maxSize ∧
      ((maxSize : ℤ) < m → t.rmsgsize = (m - maxSize) :: q ∧ t.Continuing) ∧
      (m ≤ maxSize → t.rmsgsize = q) := by
  intro l
  induction l with
  | nil =>
    intro s maxSize data m q h hc hm
    have := h.rmsgsize.symm.trans hm
    cases this
  | cons seg l ih =>
    intro s maxSize data m q h hc hm hpos hu hcont
    have hsize := segmentSize_eq_payload (hc.whole seg List.mem_cons_self)
    have hstop : s.stop = m := by rw [stop, hm, List.headD_cons]
    have hm0 : 0 < m := h.nonneg.2 m (by dsimp only; rw [hm]; exact List.mem_cons_self)
    have hle : s.stop ≤ bytesIn (seg :: l) := h.stop_le hc
    have hav : s.ravail = bytesIn (seg :: l) := hc.ravail
    have hfit : seg.payload.length ≤ maxSize := ((uncut_cons ..).mp hu).1 hpos (by omega)
    have hf := h.account hc h.reading
    have hs := hc.account
    have hst := hc.stop_account
    have hsame := sameAhead_account s seg.segmentSize
    have hcon := account_connected s seg.segmentSize
    obtain ⟨-, hbd, hin⟩ := account_cons hm seg.segmentSize
    unfold RxStream.readLoop
    dsimp only
    generalize s.account seg.segmentSize = a at *
    obtain ⟨u, boundary⟩ := a
    dsimp only at hf hs hst hsame hcon hbd hin ⊢
    rw [← hsame.rahead] at hs
    rw [if_neg (by simp only [Bool.or_eq_true, decide_eq_true_eq]; omega), if_neg (by omega)]
    by_cases hmn : m = seg.segmentSize
    · obtain ⟨hb, hq⟩ := hbd hmn
      rw [hb, if_pos rfl]
      exact ⟨_, seg.payload, rfl, by omega, fun hlt => by omega, fun _ => hq⟩
    · obtain ⟨hb, hq⟩ := hin hmn
      have hlt : 0 < m - seg.payload.length := by
        refine hf.nonneg.2 _ ?_
        dsimp only
        rw [hq, hsize]
        exact List.mem_cons_self
      have hne : s.stop ≠ seg.payload.length := by omega
      have hopen : s.connected = true → seg.flags.close = false := by
        intro hsc
        by_contra hcl
        have hcl : seg.flags.close = true := by simpa using hcl
        have hn := hcont hsc [] seg l rfl rfl hcl
        exact hne (h.stop_of_marks hn (Flags.marks_of_close hcl))
      have hcontu : Continuing { u with rsegs := l } := by
        intro huc pre x post hl hpre hx
        rcases Nat.eq_zero_or_pos seg.payload.length with hn | hn
        · refine hcont (hcon ▸ huc) (seg :: pre) x post (by dsimp only at hl ⊢; rw [hl]; rfl) ?_ hx
          rw [bytesIn_cons, hn, hpre]
        · exact h.marks_pos hn hne hl hpre (Flags.marks_of_close hx)
      have hclose : ¬(seg.flags.close && u.connected && !u.endread) = true := by
        intro hcl
        simp only [Bool.and_eq_true] at hcl
        rw [hopen (hcon ▸ hcl.1.2)] at hcl
        cases hcl.1.1
      rw [hb, if_neg Bool.false_ne_true, if_neg hclose, hsize, Int.toNat_natCast]
      rw [hsize] at hq
      rcases Nat.eq_zero_or_pos (maxSize - seg.payload.length) with h0 | h0
      · -- The segment fills the buffer.
        rw [h0]
        unfold RxStream.readLoop
        rw [if_pos (by simp)]
        refine ⟨_, seg.payload, rfl, by omega, fun _ => ⟨?_, hcontu⟩, fun hle' => by omega⟩
        dsimp only
        rw [hq]
        congr 1
        omega
      · have hut := hu.tail hfit hcon (by rw [hst hb, hsize]) hopen
        obtain ⟨t, d, ht, hd, hlong, hshort⟩ :=
          ih u (maxSize - seg.payload.length) (data ++ seg.payload) _ q hf hs hq h0 hut hcontu
        refine ⟨t, seg.payload ++ d, by rw [ht, List.append_assoc], ?_, fun hlt' => ?_,
          fun hle' => hshort (by omega)⟩
        · rw [List.length_append]
          omega
        · obtain ⟨h1, h2⟩ := hlong (by omega)
          refine ⟨h1.trans ?_, h2⟩
          congr 1
          omega

theorem Framed.readLoop_ended : ∀ (pre : List RxSegment) (s t : RxStream) (maxSize : ℕ)
    (data data' : List UInt8) (seg : RxSegment) (post : List RxSegment),
    Framed { s with rsegs := pre ++ seg :: post } →
    Counted { s with rsegs := pre ++ seg :: post } s.rahead → s.connected = true →
    bytesIn pre = 0 → seg.flags.close = true → seg.payload.length = 0 →
    RxStream.readLoop (pre ++ seg :: post) s maxSize data = some (t, data') → data' = data := by
  -- One turn of the loop, for a segment `x` without bytes.
  have turn : ∀ (x : RxSegment) (l : List RxSegment) (s t : RxStream) (maxSize : ℕ)
      (data data' : List UInt8), Framed { s with rsegs := x :: l } →
      Counted { s with rsegs := x :: l } s.rahead → s.connected = true →
      x.payload.length = 0 → RxStream.readLoop (x :: l) s maxSize data = some (t, data') →
      data' = data ∨ x.flags.close = false ∧ ∃ (u : RxStream) (n : ℕ),
        Framed { u with rsegs := l } ∧ Counted { u with rsegs := l } u.rahead ∧
        u.connected = true ∧ RxStream.readLoop l u n data = some (t, data') := by
    intro x l s t maxSize data data' h hc hcon hx ht
    have hsize := segmentSize_eq_payload (hc.whole x List.mem_cons_self)
    have hpay : x.payload = [] := List.length_eq_zero_iff.mp hx
    have hstop := stop_boundary s x.segmentSize
    have hpos : 0 < s.ravail → 0 < s.stop := h.stop_pos
    have hf := h.account hc h.reading
    have hs := hc.account
    have hsame := sameAhead_account s x.segmentSize
    have hcon' := account_connected s x.segmentSize
    have hreading := h.reading
    unfold RxStream.readLoop at ht
    dsimp only at ht
    generalize s.account x.segmentSize = a at *
    obtain ⟨u, boundary⟩ := a
    dsimp only at hf hs hstop hsame hcon' ht
    rw [← hsame.rahead] at hs
    rw [hpay, List.append_nil] at ht
    split_ifs at ht with h1 h2 h3 h4
    · cases ht
      exact .inl rfl
    · cases ht
      exact .inl rfl
    · cases ht
      exact .inl rfl
    · refine .inr ⟨?_, u, _, hf, hs, hcon'.trans hcon, ht⟩
      rw [hcon', hcon, hsame.endread, hreading] at h4
      simpa using h4
  intro pre
  induction pre with
  | nil =>
    intro s t maxSize data data' seg post h hc hcon _ hclose hseg ht
    rcases turn seg post s t maxSize data data' h hc hcon hseg ht with h' | ⟨hcl, -⟩
    · exact h'
    · rw [hclose] at hcl
      cases hcl
  | cons x pre ih =>
    intro s t maxSize data data' seg post h hc hcon hpre hclose hseg ht
    rw [bytesIn_cons] at hpre
    rcases turn x (pre ++ seg :: post) s t maxSize data data' h hc hcon (by omega) ht with
      h' | ⟨-, u, n, hu, hcu, hconu, htu⟩
    · exact h'
    · exact ih u t n data data' seg post hu hcu hconu (by omega) hclose hseg htu

theorem Counted.uncut_of_stop_le (hc : Counted s L) (hle : s.stop ≤ maxSize) :
    Uncut s maxSize := by
  intro pre seg post hl hm hlt _
  have hb : bytesIn s.rsegs = bytesIn pre + (seg.payload.length + bytesIn post) := by
    rw [hl, bytesIn_append, bytesIn_cons]
  obtain ⟨q, o, hq, -, hg⟩ := hc.grouped
  cases q with
  | nil =>
    have hstop : s.stop = bytesIn s.rsegs := by rw [stop, hq]; exact hc.ravail
    omega
  | cons m q =>
    have hstop : s.stop = m := by rw [stop, hq]; rfl
    have hsizes : sizes s.rsegs = sizes pre ++ seg.payload.length :: sizes post := by
      rw [hl, sizes_append]
      rfl
    rw [hsizes] at hg
    have hin : bytesIn pre + seg.payload.length ≤ m :=
      hg.inside (by rw [bytesIn] at hlt; omega)
    omega

theorem Framed.message_first (h : Framed s) (hc : Counted s s.rahead) {m : ℤ} {q : List ℤ}
    (hm : s.rmsgsize = m :: q) (hpos : 0 < maxSize) (hu : s.Uncut maxSize)
    (hcont : s.Continuing) :
    ∃ t d, s.readAsserted maxSize = some (t, d) ∧ Framed t ∧ Counted t t.rahead ∧
      (d.length : ℤ) = min m maxSize ∧
      ((maxSize : ℤ) < m → t.rmsgsize = (m - maxSize) :: q ∧ t.Continuing) ∧
      (m ≤ maxSize → t.rmsgsize = q) := by
  obtain ⟨t, d, ht, hd, hlong, hshort⟩ :=
    Framed.readLoop_message s.rsegs s maxSize [] m q h hc hm hpos hu hcont
  rw [List.nil_append] at ht
  have hread : s.readAsserted maxSize = some (t, d) := (h.readAsserted_eq hc maxSize).trans ht
  exact ⟨t, d, hread, Framed.readLoop _ _ _ _ _ _ h hc ht,
    (Counted.readLoop _ _ _ _ _ _ hc ht).1, hd, hlong, hshort⟩

/-- **A read of a message** succeeds under the condition, and returns what fits of the message. -/
theorem Framed.messageAsserted_of (h : Framed s) (hc : Counted s s.rahead) {m : ℤ} {q : List ℤ}
    (hm : s.rmsgsize = m :: q) (hu : s.MessageUncut maxSize) :
    ∃ t d, s.messageAsserted maxSize = some (t, d) ∧ (d.length : ℤ) = min m maxSize := by
  obtain ⟨hpos, hcut, hcont, hskip⟩ := hu m (by rw [hm]; rfl)
  have hm0 : 0 < m := h.nonneg.2 m (hm ▸ List.mem_cons_self)
  obtain ⟨t, d, ht, hft, hct, hd, hlong, hshort⟩ := h.message_first hc hm hpos hcut hcont
  have hne : d ≠ [] := by
    rintro rfl
    rw [List.length_nil] at hd
    omega
  rw [messageAsserted, if_neg (by rw [hm]; exact List.cons_ne_nil _ _), ht, Option.bind_some]
  dsimp only
  rw [if_neg hne, hm]
  rcases lt_or_ge (maxSize : ℤ) m with hlt | hle
  · obtain ⟨htm, htc⟩ := hlong hlt
    have hstop : t.stop = m - maxSize := by rw [stop, htm, List.headD_cons]
    have hskipped : t.Uncut (2 ^ 30) := hct.uncut_of_stop_le (by rw [hstop]; push_cast; omega)
    obtain ⟨u, r, hu, -, -, hr, -, hshort'⟩ :=
      hft.message_first hct htm (by decide) hskipped htc
    have hrne : r ≠ [] := by
      rintro rfl
      rw [List.length_nil] at hr
      omega
    rw [htm, List.length_cons, List.length_cons, if_pos rfl, hu, Option.bind_some]
    dsimp only
    rw [hshort' (by push_cast; omega), if_neg (by simp [hrne])]
    exact ⟨u, d, rfl, hd⟩
  · rw [hshort hle, List.length_cons, if_neg (by omega), if_neg (by simp)]
    exact ⟨t, d, rfl, hd⟩

/-- **A read of a message** succeeds only under the condition. -/
theorem Framed.messageUncut_of (h : Framed s) (hc : Counted s s.rahead) {r : RxStream × List UInt8}
    (hr : s.messageAsserted maxSize = some r) : s.MessageUncut maxSize := by
  intro m hm
  obtain ⟨q, hm⟩ : ∃ q, s.rmsgsize = m :: q := by
    cases hs : s.rmsgsize with
    | nil => rw [hs] at hm; cases hm
    | cons n q => rw [hs] at hm; cases hm; exact ⟨q, rfl⟩
  have hm0 : 0 < m := h.nonneg.2 m (hm ▸ List.mem_cons_self)
  rw [messageAsserted, if_neg (by rw [hm]; exact List.cons_ne_nil _ _)] at hr
  obtain ⟨⟨t, d⟩, ht, hr⟩ := Option.bind_eq_some_iff.mp hr
  obtain ⟨hd0, hr⟩ := Option.ite_none_left_eq_some.mp hr
  have htake := (h.readAsserted_eq hc maxSize).symm.trans ht
  have hdle := (hc.takeData_returns htake).1
  have hpos : 0 < maxSize := by
    rcases Nat.eq_zero_or_pos maxSize with h0 | h0
    · exact absurd (List.length_eq_zero_iff.mp (by omega)) hd0
    · exact h0
  have hcut : s.Uncut maxSize :=
    (Framed.readLoop_iff s.rsegs s maxSize [] h hc).mp ⟨_, htake⟩
  have hcont : s.Continuing := by
    intro hcon pre seg post hl hpre hclose
    refine Nat.pos_of_ne_zero fun hseg => hd0 ?_
    rw [RxStream.takeData, hl] at htake
    exact Framed.readLoop_ended pre s t maxSize [] d seg post (by rw [← hl]; exact h)
      (by rw [← hl]; exact hc) hcon hpre hclose hseg htake
  refine ⟨hpos, hcut, hcont, ?_⟩
  by_contra hskip
  obtain ⟨t', d', ht', hft, hct, hd, hlong, -⟩ := h.message_first hc hm hpos hcut hcont
  obtain ⟨rfl, rfl⟩ : t' = t ∧ d' = d := Prod.mk.inj (Option.some.inj (ht'.symm.trans ht))
  obtain ⟨htm, htc⟩ := hlong (by omega)
  rw [hm, htm, List.length_cons, List.length_cons, if_pos rfl] at hr
  obtain ⟨⟨u, rest⟩, hu, hr⟩ := Option.bind_eq_some_iff.mp hr
  obtain ⟨hend, -⟩ := Option.ite_none_left_eq_some.mp hr
  have hcut' : t'.Uncut (2 ^ 30) := (Framed.readLoop_iff t'.rsegs t' (2 ^ 30) [] hft hct).mp
    ⟨_, (hft.readAsserted_eq hct _).symm.trans hu⟩
  obtain ⟨u', rest', hu', -, -, -, hlong', -⟩ := hft.message_first hct htm (by decide) hcut' htc
  obtain ⟨rfl, rfl⟩ : u' = u ∧ rest' = rest := Prod.mk.inj (Option.some.inj (hu'.symm.trans hu))
  obtain ⟨hum, -⟩ := hlong' (by push_cast; omega)
  rw [hum, List.length_cons, not_or] at hend
  omega

/-- A buffer longer than the first message is as good as one of its size. -/
theorem Counted.messageUncut_min (hc : Counted s L) {m : ℤ} {q : List ℤ} (hm : s.rmsgsize = m :: q)
    (hm0 : 0 < m) : s.MessageUncut (min m.toNat maxSize) ↔ s.MessageUncut maxSize := by
  have hstop : s.stop = m := by rw [stop, hm, List.headD_cons]
  rcases le_total m.toNat maxSize with hle | hle
  · have hcut : ∀ n : ℕ, m.toNat ≤ n → s.Uncut n := fun n hn =>
      hc.uncut_of_stop_le (by omega)
    rw [min_eq_left hle, MessageUncut, MessageUncut, hm]
    simp only [List.head?_cons, Option.mem_some_iff, forall_eq', hcut _ le_rfl, hcut _ hle]
    constructor
    · rintro ⟨h1, -, h2, -⟩
      exact ⟨by omega, trivial, h2, by omega⟩
    · rintro ⟨-, -, h2, -⟩
      exact ⟨by omega, trivial, h2, by omega⟩
  · rw [min_eq_right hle]

theorem Framed.message_iff (h : Framed s) (hc : Counted s s.rahead) :
    (∃ r, s.messageAsserted maxSize = some r) ↔ s.MessageUncut maxSize := by
  refine ⟨fun ⟨r, hr⟩ => h.messageUncut_of hc hr, fun hu => ?_⟩
  cases hm : s.rmsgsize with
  | nil => exact ⟨(s, []), by rw [messageAsserted, if_pos hm]⟩
  | cons m q =>
    obtain ⟨t, d, ht, -⟩ := h.messageAsserted_of hc hm hu
    exact ⟨(t, d), ht⟩

theorem Framed.array_iff (h : Framed s) (hc : Counted s s.rahead) :
    (∃ r, s.arrayAsserted maxSize = some r) ↔ s.MessageUncut maxSize := by
  cases hm : s.rmsgsize with
  | nil =>
    refine iff_of_true ⟨(s, []), ?_⟩ fun n hn => ?_
    · have hneg : wrap 32 (s.rmsgsize.headD (-1)) ≤ 0 := by
        rw [hm, List.headD_nil, wrap_eq_self (by decide) (by decide) (by decide)]
        decide
      rw [arrayAsserted]
      exact if_pos hneg
    · rw [hm] at hn
      cases hn
  | cons m q =>
    have hm0 : 0 < m := h.nonneg.2 m (hm ▸ List.mem_cons_self)
    have hstop : s.stop = m := by rw [stop, hm, List.headD_cons]
    have hle := h.stop_le hc
    have hroom := hc.room
    have hwrap : wrap 32 (s.rmsgsize.headD (-1)) = m := by
      rw [hm, List.headD_cons, wrap_eq_self (by decide) (by omega) (by omega)]
    rw [← hc.messageUncut_min hm hm0, arrayAsserted]
    dsimp only
    rw [hwrap, if_neg (by omega)]
    constructor
    · rintro ⟨r, hr⟩
      obtain ⟨r', hr', -⟩ := Option.bind_eq_some_iff.mp hr
      exact h.messageUncut_of hc hr'
    · intro hu
      obtain ⟨t, d, ht, hd⟩ := h.messageAsserted_of hc hm hu
      refine ⟨(t, d), ?_⟩
      rw [ht, Option.bind_some]
      have hlen : d.length = min m.toNat maxSize := by omega
      exact if_pos hlen

/-! ## Sequences of reads -/

theorem Framed.message_length {data : List UInt8} (h : Framed s) (hc : Counted s s.rahead)
    (ht : s.messageAsserted maxSize = some (t, data)) : data.length ≤ maxSize := by
  cases hm : s.rmsgsize with
  | nil =>
    rw [messageAsserted, if_pos hm] at ht
    cases ht
    exact Nat.zero_le _
  | cons m q =>
    obtain ⟨t', d, ht', hd⟩ := h.messageAsserted_of hc hm (h.messageUncut_of hc ht)
    obtain ⟨-, rfl⟩ := Prod.mk.inj (Option.some.inj (ht'.symm.trans ht))
    omega

theorem Framed.array_length {data : List UInt8} (h : Framed s) (hc : Counted s s.rahead)
    (ht : s.arrayAsserted maxSize = some (t, data)) : data.length ≤ maxSize := by
  rw [arrayAsserted] at ht
  dsimp only at ht
  split_ifs at ht
  · cases ht
    exact Nat.zero_le _
  · obtain ⟨⟨t', d⟩, hr, ht⟩ := Option.bind_eq_some_iff.mp ht
    obtain ⟨hlen, ht⟩ := Option.ite_none_right_eq_some.mp ht
    cases ht
    exact (h.message_length hc hr).trans (min_le_right _ _)

/-- Successive calls of `readData`. -/
def readAll (s : RxStream) : List ℕ → Option (RxStream × List (List UInt8))
  | [] => some (s, [])
  | n :: ns => (s.readAsserted n).bind fun (t, data) =>
      (t.readAll ns).map fun (u, rest) => (u, data :: rest)

theorem readAll_empty (hr : s.ravail = 0) (ns : List ℕ) :
    ∃ pieces, s.readAll ns = some (s, pieces) ∧ pieces.flatten = [] := by
  have hread : ∀ n, s.readAsserted n = some (s, []) := by
    intro n
    unfold readAsserted assertLoop
    rw [if_pos (by rw [hr]; simp)]
  induction ns with
  | nil => exact ⟨[], rfl, rfl⟩
  | cons n ns ih =>
    obtain ⟨pieces, h1, h2⟩ := ih
    refine ⟨[] :: pieces, ?_, h2⟩
    rw [readAll, hread, Option.bind_some]
    dsimp only
    rw [h1]
    rfl

/-- **Successive reads** return consecutive pieces of the stream. -/
theorem Framed.readAll_continues {ns : List ℕ} {pieces : List (List UInt8)} (h : Framed s)
    (hc : Counted s s.rahead) (ht : s.readAll ns = some (t, pieces)) :
    List.Forall₂ (fun n data => data.length ≤ n) ns pieces ∧ s.Continues t pieces.flatten := by
  induction ns generalizing s pieces with
  | nil =>
    cases ht
    exact ⟨.nil, [], _, rfl, rfl, .inl rfl⟩
  | cons n ns ih =>
    obtain ⟨⟨u, data⟩, hu, ht⟩ := Option.bind_eq_some_iff.mp ht
    obtain ⟨⟨v, rest⟩, hv, hvt⟩ := Option.map_eq_some_iff.mp ht
    cases hvt
    have htake := (h.readAsserted_eq hc n).symm.trans hu
    have hf := Framed.readLoop _ _ _ _ _ _ h hc htake
    have hcu := (Counted.readLoop _ _ _ _ _ _ hc htake).1
    obtain ⟨hlen, pre, post, hs, hdata, hend⟩ := hc.takeData_returns htake
    obtain ⟨hall, pre', post', hu', hrest, hend'⟩ := ih hf hcu hv
    refine ⟨.cons hlen hall, ?_⟩
    rw [List.flatten_cons]
    rcases hend with hq | ⟨he, hq, hclose⟩
    · refine ⟨pre ++ pre', post', by rw [hs, ← hq, hu', List.append_assoc],
        by rw [hdata, hrest, List.flatMap_append], hend'.imp_right ?_⟩
      rintro ⟨h1, h2, l, x, rfl, hx⟩
      exact ⟨h1, h2, pre ++ l, x, (List.append_assoc ..).symm, hx⟩
    · -- Behind the end of the stream nothing is read.
      have hav : u.ravail = 0 := by rw [hcu.ravail, hq]; rfl
      obtain ⟨pieces, h1, h2⟩ := readAll_empty hav ns
      obtain ⟨rfl, rfl⟩ := Prod.mk.inj (Option.some.inj (h1.symm.trans hv))
      exact ⟨pre, post, hs, by rw [h2, List.append_nil, hdata], .inr ⟨he, hq, hclose⟩⟩

end RxStream

/-- A stream on which one segment with a whole message has arrived. -/
def oneMessage (connected : Bool) (data : List UInt8) : RxStream :=
  (RxStream.new connected).rxData ⟨0, ⟨true, true, false⟩, data, 0⟩

theorem oneMessage_reach (connected : Bool) (data : List UInt8) (hd : data.length < 2 ^ 31) :
    (counterMachine connected).Reach RxStream.Roomy (oneMessage connected data) := by
  have h0 : (counterMachine connected).Reach RxStream.Roomy (.new connected) := .init
  refine h0.step (i := .op (.rxData ⟨0, ⟨true, true, false⟩, data, 0⟩)) ?_ rfl
  intro seg hseg
  cases hseg
  have hdiff : (RxStream.new connected).rsnDiff ⟨0, ⟨true, true, false⟩, data, 0⟩ = 0 :=
    wrap_zero 32
  have hnew : (RxStream.new connected).newBytes ⟨0, ⟨true, true, false⟩, data, 0⟩ =
      data.length := by
    rw [RxStream.newBytes, if_neg (show ¬(RxStream.new connected).endread = true from
      Bool.false_ne_true), hdiff, if_neg (lt_irrefl 0), RxStream.actSize, hdiff,
      RxSegment.segmentSize]
    dsimp only
    omega
  refine ⟨⟨wrap_zero 32, rfl, hd⟩, ?_⟩
  rw [hnew]
  change 0 + 0 + data.length < 2 ^ 31
  omega

end Sst
