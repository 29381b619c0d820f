import Sst.Shell.Proto
import Sst.Lib.Transducer
import Mathlib.Data.List.TakeWhile
import Mathlib.Data.List.ModifyLast

/-!
# Framing on shell streams

The receiver is a transducer of bytes, however they are cut into reads. After an escaped marker
it expects a length again, so that whatever follows is misread.

* `Output`, `Parser`, `parse`: the transducer.
* `ShellStream.view`: the receive state as a state of the transducer.
* **`ShellStream.receives_spec`**: repeated calls of `receive` run the transducer.
* `Item`, `parse_normal`, `parse_control`: what is sent, and how it is parsed.
* **`shell_receive`**: all items are received exactly if no item follows an escaped marker.
-/

namespace Sst.Shell

open Transducer

/-! ## The transducer -/

/-- What is received: bytes of character data and control messages. -/
inductive Output
  | byte (b : UInt8)
  | control (msg : Bytes)
  deriving DecidableEq

/-- The states: in a length, and in a message of so many bytes, with what is read of it. -/
inductive Parser
  | normal
  | length (clen : ℕ)
  | message (clen : ℕ) (got : Bytes)
  | failed
  deriving DecidableEq

/-- One byte. -/
def parse : Parser → UInt8 → Parser × List Output
  | .normal, ch => if ch = controlMarker then (.length 0, []) else (.normal, [.byte ch])
  | .length clen, ch =>
    if maxControlMessage ≤ clen then (.failed, [])
    else
      let clen := clen <<< 7 ||| (ch &&& 0x7f).toNat
      if ch &&& 0x80 ≠ 0 then
        if clen = 0 then (.length 0, [.byte controlMarker]) else (.message clen [], [])
      else (.length clen, [])
  | .message clen got, ch =>
    if got.length + 1 = clen then (.normal, [.control (got ++ [ch])])
    else (.message clen (got ++ [ch]), [])
  | .failed, _ => (.failed, [])

/-- What a packet says. -/
def Packet.outputs : Packet → List Output
  | .null => []
  | .data a => a.map .byte
  | .control msg => [.control msg]

/-- The outputs of a turn. -/
def turnOutputs (p : Option Packet) : List Output := (p.map Packet.outputs).getD []

theorem parse_normal {a : Bytes} (h : ∀ b ∈ a, b ≠ controlMarker) :
    run parse .normal a = (.normal, a.map .byte) := by
  induction a with
  | nil => rfl
  | cons b a ih =>
    obtain ⟨hb, ha⟩ := List.forall_mem_cons.mp h
    have hp : parse .normal b = (.normal, [.byte b]) := if_neg hb
    rw [run_cons, hp, ih ha]
    rfl

theorem parse_message {clen : ℕ} {got a : Bytes} (h : got.length + a.length < clen) :
    run parse (.message clen got) a = (.message clen (got ++ a), []) := by
  induction a generalizing got with
  | nil => rw [List.append_nil]; rfl
  | cons b a ih =>
    rw [List.length_cons] at h
    have hp : parse (.message clen got) b = (.message clen (got ++ [b]), []) :=
      if_neg (by omega)
    rw [run_cons, hp, ih (by rw [List.length_append, List.length_singleton]; omega),
      List.append_assoc]
    rfl

theorem parse_complete {clen : ℕ} {got a : Bytes} (ha : a ≠ [])
    (h : got.length + a.length = clen) :
    run parse (.message clen got) a = (.normal, [.control (got ++ a)]) := by
  obtain ⟨a, b, rfl⟩ : ∃ l x, a = l ++ [x] :=
    ⟨a.dropLast, a.getLast ha, (List.dropLast_append_getLast ha).symm⟩
  rw [List.length_append, List.length_singleton] at h
  have hp : parse (.message clen (got ++ a)) b = (.normal, [.control (got ++ a ++ [b])]) :=
    if_pos (by rw [List.length_append]; omega)
  have hone : run parse (.message clen (got ++ a)) [b] =
      (.normal, [.control (got ++ (a ++ [b]))]) := by
    rw [run_cons, hp, List.append_assoc]
    rfl
  exact run_trans (parse_message (by omega)) hone

/-! ## The receiver runs the transducer -/

namespace ShellStream

/-- The receive state as a state of the transducer. -/
def view (s : ShellStream) : Parser :=
  match s.rstate with
  | .recvNormal => .normal
  | .recvLength => .length s.clen
  | .recvMessage => .message s.clen (s.cbuf.take s.cgot)

/-- What holds between turns. -/
structure Sound (s : ShellStream) : Prop where
  suffix : s.rdat <:+ s.rbuf
  size : s.rstate = .recvMessage → s.cbuf.length = s.clen ∧ s.cgot < s.clen

/-- The next byte of a length would make it too large. -/
def Stuck (s : ShellStream) : Prop :=
  s.rstate = .recvLength ∧ maxControlMessage ≤ s.clen ∧ s.rdat ≠ []

variable {s t : ShellStream}

theorem sound_new (reads : List Bytes) : (new reads).Sound :=
  ⟨List.suffix_rfl, fun h => by cases h⟩

theorem fill_spec (hs : s.Sound) : s.fill.Sound ∧ s.fill.view = s.view ∧
    s.fill.unread = s.unread ∧ s.fill.errors = s.errors ∧
    (s.fill.rdat = [] → s.rdat = [] ∧ (s.reads = [] ∧ s.fill.reads = [] ∨
      s.fill.reads.length < s.reads.length)) ∧ s.fill.reads.length ≤ s.reads.length := by
  unfold fill
  split_ifs with h
  · have hnil := List.isEmpty_iff.mp h
    cases hr : s.reads with
    | nil =>
      refine ⟨⟨List.suffix_rfl, hs.size⟩, rfl, ?_, rfl, fun _ => ⟨hnil, .inl ⟨rfl, rfl⟩⟩, le_rfl⟩
      unfold unread
      rw [hnil, hr]
    | cons chunk reads =>
      refine ⟨⟨List.suffix_rfl, hs.size⟩, rfl, ?_, rfl,
        fun _ => ⟨hnil, .inr (Nat.lt_succ_self _)⟩, Nat.le_succ _⟩
      unfold unread
      rw [hnil, hr]
      rfl
  · refine ⟨hs, rfl, rfl, rfl, fun h' => ?_, le_rfl⟩
    rw [h'] at h
    exact absurd rfl h

/-- A turn after the receive buffer was filled: the transducer reads some bytes of it. -/
structure Turned (s : ShellStream) (p : Option Packet) (t : ShellStream) : Prop where
  sound : t.Sound
  reads : t.reads = s.reads
  errors : t.errors = s.errors
  bytes : ∃ a, a ≠ [] ∧ s.rdat = a ++ t.rdat ∧ run parse s.view a = (t.view, turnOutputs p)

theorem turnNormal_spec (hs : s.Sound) (hn : s.rstate = .recvNormal) {ch : UInt8} {rest : Bytes}
    (hr : s.rdat = ch :: rest) : Turned s (s.turnNormal ch).1 (s.turnNormal ch).2 := by
  have hview : s.view = .normal := by
    unfold view
    rw [hn]
  have hsuf := hs.suffix
  unfold turnNormal
  split_ifs with hm
  · refine ⟨⟨(List.drop_suffix 1 _).trans hsuf, fun h => by cases h⟩, rfl, rfl,
      [ch], List.cons_ne_nil _ _, ?_, ?_⟩
    · rw [hr]
      rfl
    · rw [hview, run_cons, show parse .normal ch = (.length 0, []) from if_pos hm]
      rfl
  · set a := s.rdat.takeWhile (· ≠ controlMarker) with ha
    have hpre : a <+: s.rdat := List.takeWhile_prefix _
    have htake : s.rdat.take a.length = a := (List.prefix_iff_eq_take.mp hpre).symm
    have hret : (if a.length = s.rbuf.length then s.rbuf else s.rdat.take a.length) = a := by
      split_ifs with hlen
      · -- the whole buffer is unprocessed
        have hle := hpre.length_le
        have hdat : s.rdat = s.rbuf := hsuf.eq_of_length_le (hlen ▸ hle)
        rw [← htake, hlen, hdat, List.take_length]
      · exact htake
    have hmem : ∀ b ∈ a, b ≠ controlMarker := by
      intro b hb
      have h := List.mem_takeWhile_imp (p := fun b => decide (b ≠ controlMarker)) hb
      exact of_decide_eq_true h
    have hcons : a = ch :: rest.takeWhile (· ≠ controlMarker) := by
      rw [ha, hr]
      have hm' : decide (ch ≠ controlMarker) = true := decide_eq_true hm
      exact List.takeWhile_cons_of_pos (p := fun b => decide (b ≠ controlMarker)) hm'
    refine ⟨⟨(List.drop_suffix _ _).trans hsuf, fun h => ?_⟩, rfl, rfl, a, ?_, ?_, ?_⟩
    · cases hn.symm.trans h
    · rw [hcons]
      exact List.cons_ne_nil _ _
    · exact (List.prefix_iff_eq_append.mp hpre).symm
    · rw [hview, parse_normal hmem]
      dsimp only
      rw [hret]
      unfold view
      dsimp only
      rw [hn]
      rfl

theorem length_resize (a : Bytes) (n : ℕ) : (resize a n).length = n := by
  rw [resize, List.length_append, List.length_take, List.length_replicate]
  omega

theorem turnLength_stuck (h : maxControlMessage ≤ s.clen) (ch : UInt8) : s.turnLength ch =
    (some .null, { s with errors := "Control message too large" :: s.errors, reset := true }) :=
  if_pos h

theorem turnLength_spec (hs : s.Sound) (hl : s.rstate = .recvLength)
    (hmax : ¬maxControlMessage ≤ s.clen) {ch : UInt8} {rest : Bytes} (hr : s.rdat = ch :: rest) :
    Turned s (s.turnLength ch).1 (s.turnLength ch).2 := by
  have hview : s.view = .length s.clen := by
    unfold view
    rw [hl]
  have hsuf := (List.drop_suffix 1 s.rdat).trans hs.suffix
  have hbytes : s.rdat = [ch] ++ s.rdat.drop 1 := by
    rw [hr]
    rfl
  unfold turnLength
  rw [if_neg hmax]
  dsimp only
  have hone : run parse s.view [ch] = ((parse s.view ch).1, (parse s.view ch).2 ++ []) := rfl
  rw [hview, List.append_nil, parse, if_neg hmax] at hone
  dsimp only at hone
  split_ifs at hone ⊢ with h1 h2
  · refine ⟨⟨hsuf, fun h => ?_⟩, rfl, rfl, [ch], List.cons_ne_nil _ _, hbytes, ?_⟩
    · cases hl.symm.trans h
    · rw [hview, hone]
      unfold view
      dsimp only
      rw [hl, h2]
      rfl
  · refine ⟨⟨hsuf, fun _ => ⟨length_resize _ _, Nat.pos_of_ne_zero h2⟩⟩, rfl, rfl, [ch],
      List.cons_ne_nil _ _, hbytes, ?_⟩
    rw [hview, hone]
    rfl
  · refine ⟨⟨hsuf, fun h => ?_⟩, rfl, rfl, [ch], List.cons_ne_nil _ _, hbytes, ?_⟩
    · cases hl.symm.trans h
    · rw [hview, hone]
      unfold view
      dsimp only
      rw [hl]
      rfl

theorem turnMessage_spec (hs : s.Sound) (hm : s.rstate = .recvMessage) (hr : s.rdat ≠ []) :
    Turned s s.turnMessage.1 s.turnMessage.2 := by
  obtain ⟨hlen, hgot⟩ := hs.size hm
  have hpos : 0 < s.rdat.length := List.length_pos_iff.mpr hr
  have hview : s.view = .message s.clen (s.cbuf.take s.cgot) := by
    unfold view
    rw [hm]
  have hsuf : s.rdat.drop (min s.rdat.length (s.clen - s.cgot)) <:+ s.rbuf :=
    (List.drop_suffix _ _).trans hs.suffix
  set a := s.rdat.take (min s.rdat.length (s.clen - s.cgot)) with ha
  have hal : a.length = min s.rdat.length (s.clen - s.cgot) := by
    rw [ha, List.length_take]
    omega
  have hne : a ≠ [] := by
    rw [← List.length_pos_iff]
    omega
  have hbytes : s.rdat = a ++ s.rdat.drop (min s.rdat.length (s.clen - s.cgot)) :=
    (List.take_append_drop _ _).symm
  have htake : (s.cbuf.take s.cgot).length = s.cgot := by
    rw [List.length_take]
    omega
  unfold turnMessage
  dsimp only
  rw [← ha]
  split_ifs with hc
  · have hdrop : s.cbuf.drop (s.cgot + min s.rdat.length (s.clen - s.cgot)) = [] :=
      List.drop_eq_nil_of_le (by omega)
    refine ⟨⟨hsuf, fun h => by cases h⟩, rfl, rfl, a, hne, hbytes, ?_⟩
    rw [hview, parse_complete hne (by omega), hdrop, List.append_nil]
    rfl
  · refine ⟨⟨hsuf, fun _ => ⟨?_, ?_⟩⟩, rfl, rfl, a, hne, hbytes, ?_⟩
    · change (s.cbuf.take s.cgot ++ a ++ s.cbuf.drop _).length = s.clen
      rw [List.length_append, List.length_append, List.length_drop]
      omega
    · change s.cgot + min s.rdat.length (s.clen - s.cgot) < s.clen
      omega
    · rw [hview, parse_message (by omega)]
      unfold view
      dsimp only
      rw [hm]
      have hcb : (s.cbuf.take s.cgot ++ a ++ s.cbuf.drop
          (s.cgot + min s.rdat.length (s.clen - s.cgot))).take
            (s.cgot + min s.rdat.length (s.clen - s.cgot)) = s.cbuf.take s.cgot ++ a := by
        rw [List.take_append_of_le_length (by rw [List.length_append]; omega)]
        exact List.take_of_length_le (by rw [List.length_append]; omega)
      rw [hcb]
      rfl

/-- **One turn** finds nothing to read, or is stuck, or reads some bytes. -/
theorem turn_cases (hs : s.Sound) :
    (∃ t, s.turn = (some .null, t) ∧ t.Sound ∧ t.view = s.view ∧ t.unread = s.unread ∧
        t.errors = s.errors ∧ (t.unread = [] ∧ t.reads = [] ∨ t.reads.length < s.reads.length)) ∨
      (∃ t, s.turn = (some .null, t) ∧ t.Stuck ∧ t.view = s.view ∧ t.unread = s.unread ∧
        s.errors.length < t.errors.length) ∨
      ∃ p t a, s.turn = (p, t) ∧ t.Sound ∧ a ≠ [] ∧ s.unread = a ++ t.unread ∧
        run parse s.view a = (t.view, turnOutputs p) ∧ t.errors = s.errors ∧
        t.reads.length ≤ s.reads.length := by
  obtain ⟨h1, h2, h3, h4, h5, h6⟩ := fill_spec hs
  have hturned : ∀ p t, Turned s.fill p t → t.Sound ∧ ∃ a, a ≠ [] ∧ s.unread = a ++ t.unread ∧
      run parse s.view a = (t.view, turnOutputs p) ∧ t.errors = s.errors ∧
      t.reads.length ≤ s.reads.length := by
    rintro p t ⟨h7, h8, h9, a, ha, hr, hrun⟩
    refine ⟨h7, a, ha, ?_, h2 ▸ hrun, h9.trans h4, h8 ▸ h6⟩
    rw [← h3, unread, unread, hr, h8, List.append_assoc]
  unfold turn
  cases hr : s.fill.rdat with
  | nil =>
    refine .inl ⟨s.fill, rfl, h1, h2, h3, h4, ?_⟩
    rcases (h5 hr).2 with ⟨-, h⟩ | h
    · refine .inl ⟨?_, h⟩
      rw [unread, hr, h]
      rfl
    · exact .inr h
  | cons ch rest =>
    cases hst : s.fill.rstate with
    | recvNormal =>
      obtain ⟨h7, a, h8⟩ := hturned _ _ (turnNormal_spec h1 hst hr)
      exact .inr (.inr ⟨_, _, a, rfl, h7, h8⟩)
    | recvLength =>
      by_cases hmax : maxControlMessage ≤ s.fill.clen
      · refine .inr (.inl ⟨_, turnLength_stuck hmax ch, ⟨hst, hmax, ?_⟩, h2, h3, ?_⟩)
        · exact hr.trans_ne (List.cons_ne_nil _ _)
        · exact (congrArg List.length h4).symm.trans_lt (Nat.lt_succ_self _)
      · obtain ⟨h7, a, h8⟩ := hturned _ _ (turnLength_spec h1 hst hmax hr)
        exact .inr (.inr ⟨_, _, a, rfl, h7, h8⟩)
    | recvMessage =>
      have hne := hr.trans_ne (List.cons_ne_nil _ _)
      obtain ⟨h7, a, h8⟩ := hturned _ _ (turnMessage_spec h1 hst hne)
      exact .inr (.inr ⟨_, _, a, rfl, h7, h8⟩)

/-- What is left to do. -/
def work (s : ShellStream) : ℕ := s.unread.length + s.reads.length

/-- A call that raises no error: the transducer reads some bytes, and there is less to do. -/
structure Received (s : ShellStream) (p : Packet) (t : ShellStream) : Prop where
  sound : t.Sound
  errors : t.errors = s.errors
  bytes : ∃ a, s.unread = a ++ t.unread ∧ run parse s.view a = (t.view, p.outputs)
  work : t.work < s.work ∨ t.work = 0

/-- A call that raises an error. -/
structure Rejected (s : ShellStream) (p : Packet) (t : ShellStream) : Prop where
  null : p = .null
  stuck : t.Stuck
  errors : s.errors.length < t.errors.length
  bytes : ∃ a, s.unread = a ++ t.unread ∧ run parse s.view a = (t.view, [])

theorem receiveLoop_spec (n : ℕ) (hs : s.Sound) (hn : s.unread.length < n) :
    Received s (receiveLoop n s).1 (receiveLoop n s).2 ∨
      Rejected s (receiveLoop n s).1 (receiveLoop n s).2 := by
  induction n generalizing s with
  | zero => exact absurd hn (Nat.not_lt_zero _)
  | succ n ih =>
    rw [receiveLoop]
    rcases turn_cases hs with ⟨t, ht, h1, h2, h3, h4, h5⟩ | ⟨t, ht, h1, h2, h3, h4⟩ |
      ⟨p, t, a, ht, h1, ha, h2, h3, h4, h5⟩
    · rw [ht]
      refine .inl ⟨h1, h4, ⟨[], h3.symm, ?_⟩, ?_⟩
      · rw [run_nil, h2]
        rfl
      · unfold work
        rcases h5 with ⟨h5, h6⟩ | h5
        · exact .inr (by rw [h5, h6]; rfl)
        · exact .inl (by rw [h3]; exact Nat.add_lt_add_left h5 _)
    · rw [ht]
      exact .inr ⟨rfl, h1, h4, [], h3.symm, by rw [run_nil, h2]⟩
    · rw [ht]
      have hlen : s.unread.length = a.length + t.unread.length := by rw [h2, List.length_append]
      have hpos : 0 < a.length := List.length_pos_iff.mpr ha
      cases p with
      | some p =>
        refine .inl ⟨h1, h4, ⟨a, h2, h3⟩, .inl ?_⟩
        change t.unread.length + t.reads.length < s.unread.length + s.reads.length
        omega
      | none =>
        change Received s (receiveLoop n t).1 (receiveLoop n t).2 ∨
          Rejected s (receiveLoop n t).1 (receiveLoop n t).2
        rcases ih h1 (by omega) with ⟨h6, h7, ⟨b, hb, hrun⟩, h8⟩ | ⟨h6, h7, h8, b, hb, hrun⟩
        · refine .inl ⟨h6, h7.trans h4, ⟨a ++ b, ?_, run_trans h3 hrun⟩, h8.imp_left fun h => ?_⟩
          · rw [h2, hb, List.append_assoc]
          · unfold work at h ⊢
            omega
        · refine .inr ⟨h6, h7, h4 ▸ h8, a ++ b, ?_, run_trans h3 hrun⟩
          rw [h2, hb, List.append_assoc]

/-- A stuck receiver stays stuck. -/
theorem Stuck.receive (h : s.Stuck) : s.receive.1 = .null ∧ s.receive.2.Stuck ∧
    s.errors.length < s.receive.2.errors.length := by
  obtain ⟨h1, h2, h3⟩ := h
  have hfill : s.fill = s := if_neg fun h => h3 (List.isEmpty_iff.mp h)
  obtain ⟨ch, rest, hr⟩ := List.exists_cons_of_ne_nil h3
  have hturn : s.turn = s.turnLength ch := by
    unfold turn
    rw [hfill, hr, h1]
  unfold ShellStream.receive
  rw [receiveLoop, hturn, turnLength_stuck h2]
  exact ⟨rfl, ⟨h1, h2, h3⟩, Nat.lt_succ_self _⟩

theorem Stuck.receives (n : ℕ) (h : s.Stuck) :
    (s.receives n).1.flatMap Packet.outputs = [] ∧
      s.errors.length ≤ (s.receives n).2.errors.length := by
  induction n generalizing s with
  | zero => exact ⟨rfl, le_rfl⟩
  | succ n ih =>
    obtain ⟨h1, h2, h3⟩ := h.receive
    obtain ⟨h4, h5⟩ := ih h2
    refine ⟨?_, h3.le.trans h5⟩
    change (s.receive.1 :: (ShellStream.receives n s.receive.2).1).flatMap Packet.outputs = []
    rw [List.flatMap_cons, h1, h4]
    rfl

theorem Stuck.run (h : s.Stuck) : run parse s.view s.unread = (.failed, []) := by
  obtain ⟨h1, h2, h3⟩ := h
  have hview : s.view = .length s.clen := by
    unfold view
    rw [h1]
  unfold unread
  cases hr : s.rdat with
  | nil => exact absurd hr h3
  | cons ch rest =>
    have hp : parse (.length s.clen) ch = (.failed, []) := if_pos h2
    rw [List.cons_append, run_cons, hview, hp, run_absorb fun _ => rfl]
    rfl

/-- **Repeated calls run the transducer** on all that is to be read, until it fails. -/
theorem receives_spec (n : ℕ) (hs : s.Sound) (hn : s.work ≤ n) :
    (run parse s.view s.unread).2 = (s.receives n).1.flatMap Packet.outputs ∧
      ((run parse s.view s.unread).1 = .failed ↔
        s.errors.length < (s.receives n).2.errors.length) := by
  have hview : ∀ t : ShellStream, t.view ≠ .failed := by
    intro t
    unfold view
    cases t.rstate with
    | recvNormal => exact Parser.noConfusion
    | recvLength => exact Parser.noConfusion
    | recvMessage => exact Parser.noConfusion
  induction n generalizing s with
  | zero =>
    have hnil : s.unread = [] := by
      rw [← List.length_eq_zero_iff]
      unfold work at hn
      omega
    rw [hnil, run_nil]
    exact ⟨rfl, iff_of_false (hview s) (lt_irrefl _)⟩
  | succ n ih =>
    have hout : (s.receives (n + 1)).1.flatMap Packet.outputs =
        s.receive.1.outputs ++ (s.receive.2.receives n).1.flatMap Packet.outputs := rfl
    have herr : (s.receives (n + 1)).2 = (s.receive.2.receives n).2 := rfl
    rw [hout, herr]
    rcases receiveLoop_spec (s.unread.length + 1) hs (Nat.lt_succ_self _) with
      ⟨h1, h2, ⟨a, ha, hrun⟩, h3⟩ | ⟨h1, h2, h3, a, ha, hrun⟩
    · obtain ⟨h4, h5⟩ := ih h1 (by omega)
      rw [ha, run_append, hrun]
      exact ⟨congrArg (_ ++ ·) h4, h2 ▸ h5⟩
    · obtain ⟨h4, h5⟩ := h2.receives n
      have hnull : s.receive.1.outputs = [] := congrArg Packet.outputs h1
      rw [ha, run_trans hrun h2.run, hnull]
      exact ⟨h4.symm, iff_of_true rfl (h3.trans_le h5)⟩

end ShellStream

/-! ## Lengths -/

/-- The length after some digits. -/
def digits (clen : ℕ) (l : Bytes) : ℕ := l.foldl (fun c ch => c <<< 7 ||| (ch &&& 0x7f).toNat) clen

theorem digit_eq (clen : ℕ) (ch : UInt8) :
    clen <<< 7 ||| (ch &&& 0x7f).toNat = clen * 128 + ch.toNat % 128 := by
  have hand : (ch &&& 0x7f).toNat = ch.toNat % 128 := by
    rw [UInt8.toNat_and]
    exact Nat.and_two_pow_sub_one_eq_mod ch.toNat 7
  have hlt : (ch &&& 0x7f).toNat < 2 ^ 7 := by
    rw [hand]
    exact Nat.mod_lt _ (by decide)
  rw [← Nat.shiftLeft_add_eq_or_of_lt hlt, Nat.shiftLeft_eq, hand]

theorem digits_cons (clen : ℕ) (ch : UInt8) (l : Bytes) :
    digits clen (ch :: l) = digits (clen * 128 + ch.toNat % 128) l := by
  rw [← digit_eq]
  rfl

theorem le_digits (clen : ℕ) (l : Bytes) : clen ≤ digits clen l := by
  induction l generalizing clen with
  | nil => exact le_rfl
  | cons ch l ih =>
    rw [digits_cons]
    exact le_trans (by omega) (ih _)

theorem flagged {n : ℕ} (h : n < 128) :
    (UInt8.ofNat n ||| 0x80) &&& 0x80 ≠ 0 ∧ (UInt8.ofNat n ||| 0x80).toNat % 128 = n ∧
      UInt8.ofNat n &&& 0x80 = 0 ∧ (UInt8.ofNat n).toNat % 128 = n := by
  have hall : ∀ n : Fin 128, (UInt8.ofNat n ||| 0x80) &&& 0x80 ≠ 0 ∧
      (UInt8.ofNat n ||| 0x80).toNat % 128 = n ∧ UInt8.ofNat n &&& 0x80 = 0 ∧
      (UInt8.ofNat n).toNat % 128 = n := by decide +kernel
  exact hall ⟨n, h⟩

/-- **The digits of a length.** -/
theorem hdrLoop_spec (i len : ℕ) (hdr : Bytes) (h : len < 128 ^ (i + 1)) :
    ∃ l : Bytes, hdrLoop (i + 1) len hdr = l ++ .ofNat (len % 128) :: hdr ∧
      (∀ ch ∈ l, ch &&& 0x80 = 0) ∧
      ∀ clen, digits clen l * 128 + len % 128 = clen * 128 ^ (l.length + 1) + len := by
  induction i generalizing len hdr with
  | zero =>
    have hlen : len < 128 := by omega
    have hshift : len >>> 7 = 0 := by rw [Nat.shiftRight_eq_div_pow]; omega
    refine ⟨[], ?_, fun _ h => absurd h List.not_mem_nil, fun clen => ?_⟩
    · rw [hdrLoop, hshift, if_neg (lt_irrefl _), show len &&& 0x7f = len % 128 from
        Nat.and_two_pow_sub_one_eq_mod len 7]
      rfl
    · change clen * 128 + len % 128 = clen * 128 ^ (0 + 1) + len
      omega
  | succ i ih =>
    have hand : len &&& 0x7f = len % 128 := Nat.and_two_pow_sub_one_eq_mod len 7
    have hshift : len >>> 7 = len / 128 := Nat.shiftRight_eq_div_pow len 7
    rw [hdrLoop, hand, hshift]
    split_ifs with hpos
    · have hlt : len / 128 < 128 ^ (i + 1) := by
        rw [pow_succ] at h
        exact Nat.div_lt_of_lt_mul (by rwa [Nat.mul_comm])
      obtain ⟨l, h1, h2, h3⟩ := ih (len / 128) (.ofNat (len % 128) :: hdr) hlt
      refine ⟨l ++ [.ofNat (len / 128 % 128)], ?_, fun ch hch => ?_, fun clen => ?_⟩
      · rw [h1, List.append_assoc]
        rfl
      · rcases List.mem_append.mp hch with hch | hch
        · exact h2 ch hch
        · rw [List.mem_singleton.mp hch]
          exact (flagged (Nat.mod_lt _ (by decide))).2.2.1
      · have hlast : digits clen (l ++ [.ofNat (len / 128 % 128)]) =
            digits clen l * 128 + len / 128 % 128 := by
          unfold digits
          rw [List.foldl_append, List.foldl_cons, List.foldl_nil, digit_eq,
            (flagged (Nat.mod_lt _ (by decide))).2.2.2]
        have := Nat.div_add_mod len 128
        rw [hlast, h3 clen, List.length_append, List.length_singleton, Nat.add_mul, Nat.mul_assoc,
          ← pow_succ]
        omega
    · have hlen : len < 128 := by omega
      refine ⟨[], rfl, fun _ h => absurd h List.not_mem_nil, fun clen => ?_⟩
      change clen * 128 + len % 128 = clen * 128 ^ (0 + 1) + len
      omega

/-- The frame of a control message: the digits of its length, the last one flagged. -/
theorem sendControl_eq {msg : Bytes} (h : msg.length < 2 ^ 24) :
    ∃ (l : Bytes) (ch : UInt8), sendControl msg = controlMarker :: (l ++ [ch]) ++ msg ∧
      (∀ b ∈ l, b &&& 0x80 = 0) ∧ ch &&& 0x80 ≠ 0 ∧
      ∀ clen, digits clen l * 128 + ch.toNat % 128 = clen * 128 ^ (l.length + 1) + msg.length := by
  obtain ⟨l, h1, h2, h3⟩ := hdrLoop_spec 8 msg.length [] (h.trans (by decide))
  obtain ⟨h4, h5, -, -⟩ := flagged (Nat.mod_lt msg.length (show 0 < 128 by decide))
  refine ⟨l, UInt8.ofNat (msg.length % 128) ||| 0x80, ?_, h2, h4, fun clen => ?_⟩
  · rw [sendControl, h1, List.modifyLast_concat]
  · rw [h5]
    exact h3 clen

/-- Digits are read, or there are too many of them. -/
theorem parse_digits (clen : ℕ) {l : Bytes} (hl : ∀ b ∈ l, b &&& 0x80 = 0) :
    run parse (.length clen) l = (.length (digits clen l), []) ∨
      maxControlMessage ≤ digits clen l ∧ run parse (.length clen) l = (.failed, []) := by
  induction l generalizing clen with
  | nil => exact .inl rfl
  | cons b l ih =>
    obtain ⟨hb, hl⟩ := List.forall_mem_cons.mp hl
    by_cases hmax : maxControlMessage ≤ clen
    · have hp : parse (.length clen) b = (.failed, []) := if_pos hmax
      refine .inr ⟨hmax.trans (le_digits _ _), ?_⟩
      rw [run_cons, hp, run_absorb fun _ => rfl]
      rfl
    · have hp : parse (.length clen) b = (.length (clen * 128 + b.toNat % 128), []) := by
        rw [← digit_eq, parse, if_neg hmax]
        exact if_neg (not_not.mpr hb)
      rw [run_cons, hp, digits_cons]
      rcases ih (clen * 128 + b.toNat % 128) hl with h | ⟨h1, h2⟩
      · rw [h]
        exact .inl rfl
      · rw [h2]
        exact .inr ⟨h1, rfl⟩

theorem parse_last {clen : ℕ} {ch : UInt8} (hch : ch &&& 0x80 ≠ 0)
    (h0 : clen * 128 + ch.toNat % 128 ≠ 0) (hmax : ¬maxControlMessage ≤ clen) :
    parse (.length clen) ch = (.message (clen * 128 + ch.toNat % 128) [], []) := by
  rw [← digit_eq] at h0 ⊢
  rw [parse, if_neg hmax]
  dsimp only
  rw [if_pos hch, if_neg h0]

/-! ## Items -/

/-- What is sent: a run of data bytes, an escaped marker, or a control message. -/
inductive Item
  | data (a : Bytes)
  | escape
  | control (msg : Bytes)

namespace Item

/-- The bytes on the stream. -/
def bytes : Item → Bytes
  | .data a => a
  | .escape => [controlMarker, 0x80]
  | .control msg => sendControl msg

/-- What should be received. -/
def outputs : Item → List Output
  | .data a => a.map .byte
  | .escape => [.byte controlMarker]
  | .control msg => [.control msg]

/-- Data without a marker, and messages that the protocol allows. -/
def Valid : Item → Prop
  | .data a => a ≠ [] ∧ controlMarker ∉ a
  | .escape => True
  | .control msg => 0 < msg.length ∧ msg.length < maxControlMessage

end Item

/-- No item follows an escaped marker. -/
def EscapesLast (items : List Item) : Prop :=
  ∀ l₁ l₂, items = l₁ ++ .escape :: l₂ → l₂ = []

theorem escapesLast_cons {x : Item} {items : List Item} (hx : x ≠ .escape) :
    EscapesLast (x :: items) ↔ EscapesLast items := by
  constructor
  · intro h l₁ l₂ hl
    exact h (x :: l₁) l₂ (by rw [hl]; rfl)
  · intro h l₁ l₂ hl
    cases l₁ with
    | nil => exact absurd (List.cons.inj hl).1 hx
    | cons y l₁ => exact h l₁ l₂ (List.cons.inj hl).2

theorem parse_control {msg : Bytes} (h0 : 0 < msg.length) (h : msg.length < maxControlMessage) :
    run parse .normal (sendControl msg) = (.normal, [.control msg]) := by
  obtain ⟨l, ch, heq, hl, hch, hval⟩ := sendControl_eq h
  have hlen : digits 0 l * 128 + ch.toNat % 128 = msg.length := by
    rw [hval, Nat.zero_mul, Nat.zero_add]
  have hmark : run parse .normal [controlMarker] = (.length 0, []) := rfl
  have hdigits : run parse (.length 0) l = (.length (digits 0 l), []) := by
    rcases parse_digits 0 hl with h1 | ⟨h1, -⟩
    · exact h1
    · omega
  have hlast : run parse (.length (digits 0 l)) [ch] = (.message msg.length [], []) := by
    rw [run_cons, parse_last hch (by omega) (by omega), hlen]
    rfl
  have hbody : run parse (.message msg.length []) msg = (.normal, [.control msg]) :=
    parse_complete (List.length_pos_iff.mp h0) (Nat.zero_add _)
  rw [heq]
  exact run_trans (run_trans hmark (run_trans hdigits hlast)) hbody

/-! ## What follows an escaped marker -/

theorem message_first {clen : ℕ} {got a : Bytes} {o : Output} {rest : List Output}
    (h : (run parse (.message clen got) a).2 = o :: rest) :
    ∃ msg : Bytes, o = .control msg ∧ msg.length = clen := by
  refine run_first (P := fun s => ∃ got : Bytes, s = .message clen got)
    (Q := fun o => ∃ msg : Bytes, o = .control msg ∧ msg.length = clen) ?_ ⟨got, rfl⟩ a h
  rintro _ ch ⟨got, rfl⟩
  by_cases hc : got.length + 1 = clen
  · have hp : parse (.message clen got) ch = (.normal, [.control (got ++ [ch])]) := if_pos hc
    rw [hp]
    exact .inr ⟨_, rfl, _, rfl, by rw [List.length_append]; exact hc⟩
  · have hp : parse (.message clen got) ch = (.message clen (got ++ [ch]), []) := if_neg hc
    rw [hp]
    exact .inl ⟨rfl, _, rfl⟩

/-- From a length, the first output is a marker or a message. -/
theorem length_first {clen : ℕ} {a : Bytes} {o : Output} {rest : List Output}
    (h : (run parse (.length clen) a).2 = o :: rest) :
    o = .byte controlMarker ∨ ∃ msg : Bytes, o = .control msg := by
  refine run_first (P := fun s => s ≠ .normal)
    (Q := fun o => o = .byte controlMarker ∨ ∃ msg : Bytes, o = .control msg) ?_
    Parser.noConfusion a h
  intro s ch hs
  cases s with
  | normal => exact absurd rfl hs
  | length clen =>
    unfold parse
    dsimp only
    split_ifs
    · exact .inl ⟨rfl, Parser.noConfusion⟩
    · exact .inr ⟨_, rfl, .inl rfl⟩
    · exact .inl ⟨rfl, Parser.noConfusion⟩
    · exact .inl ⟨rfl, Parser.noConfusion⟩
  | message clen got =>
    unfold parse
    dsimp only
    split_ifs
    · exact .inr ⟨_, rfl, .inr ⟨_, rfl⟩⟩
    · exact .inl ⟨rfl, Parser.noConfusion⟩
  | failed => exact .inl ⟨rfl, Parser.noConfusion⟩

/-- After an escaped marker, the header of a control message is read as the length of a longer
message, or as a length that is too large. -/
theorem parse_header {msg l : Bytes} {ch : UInt8} (hl : ∀ b ∈ l, b &&& 0x80 = 0)
    (hch : ch &&& 0x80 ≠ 0) (hval : ∀ clen, digits clen l * 128 + ch.toNat % 128 =
      clen * 128 ^ (l.length + 1) + msg.length) :
    run parse (.length 0) (controlMarker :: (l ++ [ch])) = (.failed, []) ∨
      ∃ clen, msg.length < clen ∧
        run parse (.length 0) (controlMarker :: (l ++ [ch])) = (.message clen [], []) := by
  have hmark : run parse (.length 0) [controlMarker] = (.length 1, []) := by decide +kernel
  have hpos : 0 < 128 ^ (l.length + 1) := Nat.pow_pos (by decide)
  have hlen := hval 1
  rw [Nat.one_mul] at hlen
  have hfail : run parse .failed [ch] = (.failed, []) := rfl
  rcases parse_digits 1 hl with h | ⟨-, h⟩
  · by_cases hmax : maxControlMessage ≤ digits 1 l
    · have hp : run parse (.length (digits 1 l)) [ch] = (.failed, []) := by
        rw [run_cons, parse, if_pos hmax]
        rfl
      exact .inl (run_trans hmark (run_trans h hp))
    · have hp : run parse (.length (digits 1 l)) [ch] =
          (.message (digits 1 l * 128 + ch.toNat % 128) [], []) := by
        rw [run_cons, parse_last hch (by omega) hmax]
        rfl
      exact .inr ⟨_, by omega, run_trans hmark (run_trans h hp)⟩
  · exact .inl (run_trans hmark (run_trans h hfail))

/-- **What follows an escaped marker is misread.** -/
theorem parse_misread {x : Item} (hx : x.Valid) (a : Bytes) (rest : List Output)
    (hok : (run parse (.length 0) (x.bytes ++ a)).1 ≠ .failed) :
    (run parse (.length 0) (x.bytes ++ a)).2 ≠ x.outputs ++ rest := by
  intro h
  cases x with
  | data d =>
    obtain ⟨hd, hmark⟩ := hx
    obtain ⟨b, d, rfl⟩ := List.exists_cons_of_ne_nil hd
    rcases length_first h with h1 | ⟨msg, h1⟩
    · cases h1
      exact hmark List.mem_cons_self
    · cases h1
  | escape =>
    -- the marker and its escape are the two digits of the length 128
    have hrun : run parse (.length 0) Item.escape.bytes = (.message 128 [], []) := by
      decide +kernel
    rw [run_append, hrun] at h
    obtain ⟨msg, h1, -⟩ := message_first h
    cases h1
  | control msg =>
    obtain ⟨l, ch, heq, hl, hch, hval⟩ := sendControl_eq hx.2
    have hbytes : (Item.control msg).bytes ++ a = controlMarker :: (l ++ [ch]) ++ (msg ++ a) := by
      rw [Item.bytes, heq, List.append_assoc]
    rw [hbytes, run_append] at hok h
    rcases parse_header hl hch hval with hrun | ⟨clen, hlt, hrun⟩
    · rw [hrun] at hok
      exact hok (congrArg Prod.fst (run_absorb (fun _ => rfl) _))
    · rw [hrun] at h
      obtain ⟨msg', h1, h2⟩ := message_first h
      cases h1
      omega

/-- **All items are parsed** exactly if no item follows an escaped marker. -/
theorem parse_items {items : List Item} (hv : ∀ x ∈ items, x.Valid) :
    (run parse .normal (items.flatMap Item.bytes)).2 = items.flatMap Item.outputs ∧
      (run parse .normal (items.flatMap Item.bytes)).1 ≠ .failed ↔ EscapesLast items := by
  induction items with
  | nil =>
    refine iff_of_true ⟨rfl, Parser.noConfusion⟩ fun l₁ l₂ h => ?_
    cases l₁ <;> cases h
  | cons x items ih =>
    obtain ⟨hx, hvs⟩ := List.forall_mem_cons.mp hv
    have hplain : x ≠ .escape → run parse .normal x.bytes = (.normal, x.outputs) →
        ((run parse .normal ((x :: items).flatMap Item.bytes)).2 =
            (x :: items).flatMap Item.outputs ∧
          (run parse .normal ((x :: items).flatMap Item.bytes)).1 ≠ .failed ↔
            EscapesLast (x :: items)) := by
      intro hne hrun
      rw [List.flatMap_cons, List.flatMap_cons, run_append, hrun, escapesLast_cons hne, ← ih hvs,
        List.append_right_inj]
    cases x with
    | data a => exact hplain Item.noConfusion (parse_normal fun b hb h => hx.2 (h ▸ hb))
    | control msg => exact hplain Item.noConfusion (parse_control hx.1 hx.2)
    | escape =>
      have hrun : run parse .normal Item.escape.bytes = (.length 0, Item.escape.outputs) := by
        decide +kernel
      rw [List.flatMap_cons, List.flatMap_cons, run_append, hrun, List.append_right_inj]
      cases items with
      | nil =>
        refine iff_of_true ⟨rfl, Parser.noConfusion⟩ fun l₁ l₂ h => ?_
        cases l₁ with
        | nil => exact (List.cons.inj h).2.symm
        | cons y l₁ => cases l₁ <;> cases h
      | cons y items =>
        refine iff_of_false ?_ fun h => List.cons_ne_nil _ _ (h [] (y :: items) rfl)
        rintro ⟨h1, h2⟩
        rw [List.flatMap_cons] at h1 h2
        exact parse_misread (hvs y List.mem_cons_self) _ _ h2 h1

/-- **Shell stream framing.** Items of data without a marker, escaped markers and control messages
of 1 to `2 ^ 24 - 1` bytes arrive, cut into reads in any way. Once `receive` was called often
enough, the packets it returned say exactly what was sent, in order, and no error was raised, if
and only if no item follows an escaped marker. -/
theorem shell_receive {items : List Item} (hv : ∀ x ∈ items, x.Valid) {reads : List Bytes}
    (hr : reads.flatten = items.flatMap Item.bytes) {n : ℕ}
    (hn : reads.flatten.length + reads.length ≤ n) :
    ((ShellStream.new reads).receives n).1.flatMap Packet.outputs = items.flatMap Item.outputs ∧
        ((ShellStream.new reads).receives n).2.errors = [] ↔ EscapesLast items := by
  have hunread : (ShellStream.new reads).unread = items.flatMap Item.bytes := hr
  have hwork : (ShellStream.new reads).work ≤ n := hn
  obtain ⟨h1, h2⟩ := ShellStream.receives_spec n (ShellStream.sound_new reads) hwork
  rw [hunread] at h1 h2
  have herr : ((ShellStream.new reads).receives n).2.errors = [] ↔
      (run parse .normal (items.flatMap Item.bytes)).1 ≠ .failed := by
    rw [← List.length_eq_zero_iff, ← not_iff_not, not_not]
    exact Nat.pos_iff_ne_zero.symm.trans h2.symm
  rw [herr, ← parse_items hv, ← h1]
  rfl

/-- Data, a control message and an escaped marker, in three reads. -/
theorem shell_receive_three :
    ((ShellStream.new [[104, 105, 1], [130, 7], [8, 1, 128]]).receives 11).1.flatMap
      Packet.outputs = [.byte 104, .byte 105, .control [7, 8], .byte 1] := by
  have hv : ∀ x ∈ [Item.data [104, 105], .control [7, 8], .escape], x.Valid := by
    intro x hx
    rcases hx with _ | ⟨_, _ | ⟨_, _ | ⟨_, hx⟩⟩⟩
    · exact ⟨by decide, by decide⟩
    · exact ⟨by decide, by decide⟩
    · trivial
    · exact absurd hx List.not_mem_nil
  have hlast : EscapesLast [Item.data [104, 105], .control [7, 8], .escape] := by
    rw [escapesLast_cons Item.noConfusion, escapesLast_cons Item.noConfusion]
    intro l₁ l₂ h
    cases l₁ with
    | nil => exact (List.cons.inj h).2.symm
    | cons y l₁ => cases l₁ <;> cases h
  exact ((shell_receive hv (by decide +kernel) (by decide)).mpr hlast).1

/-- After an escaped marker, one byte of data is read as a digit of a length. -/
theorem shell_receive_escaped : ¬∀ (items : List Item) (reads : List Bytes) (n : ℕ),
    (∀ x ∈ items, x.Valid) → (∀ a ∈ reads, a ≠ []) →
    reads.flatten = items.flatMap Item.bytes → reads.flatten.length + reads.length ≤ n →
    ((ShellStream.new reads).receives n).1.flatMap Packet.outputs = items.flatMap Item.outputs ∧
      ((ShellStream.new reads).receives n).2.errors = [] := by
  intro hall
  have hv : ∀ x ∈ [Item.escape, .data [97]], x.Valid := by
    intro x hx
    rcases hx with _ | ⟨_, _ | ⟨_, hx⟩⟩
    · trivial
    · exact ⟨by decide, by decide⟩
    · exact absurd hx List.not_mem_nil
  have := (hall _ [[1, 128, 97]] 4 hv (by decide) (by decide) (by decide)).1
  revert this
  decide +kernel

end Sst.Shell
