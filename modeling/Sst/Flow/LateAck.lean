import Sst.Flow.Accounting

/-!
# Late acknowledgments

A packet that was presumed lost keeps its transmit record until the record leaves the
acknowledgment window, so that a late acknowledgment could still be told to the upper layer. But
`Flow::receive` reports only packets in the pipe, and a packet presumed lost has left it.

* `Once`: a packet is reported at most once, and not while it is in the pipe.
* `LateAck`: an acknowledgment word that covers a packet presumed lost arrives.
* **`late_ack_untold`**: in no run does the upper layer hear of it.
-/

namespace Sst

open Transition

namespace Flow

/-- The records are the last numbers, and no packet is both reported and in the pipe, or reported
twice. -/
structure Once (k : Kept) : Prop where
  len : k.txevtseq + k.txevts.length = k.txseq
  below : ∀ n, k.txseq ≤ n → reports n k.log = 0
  once : ∀ n, reports n k.log + (k.inPipe n).toNat ≤ 1

namespace Once

variable {k : Kept}

theorem note (h : Once k) {e : Event} (he : ∀ n, e.reports n = false) :
    Once { k with log := e :: k.log } := by
  refine ⟨h.len, fun n hn => ?_, fun n => ?_⟩
  · change reports n (e :: k.log) = 0
    rw [reports_cons, he, h.below n hn]
    rfl
  · change reports n (e :: k.log) + (k.inPipe n).toNat ≤ 1
    rw [reports_cons, he]
    exact h.once n

/-- **A transmission** adds a record under a number without reports. -/
theorem tx (h : Once k) (pkt : Packet) (isdata : Bool) (cnt size : BitVec 32) :
    Once { k with
      txseq := k.txseq + 1
      txfltcnt := cnt
      txfltsize := size
      txevts := k.txevts ++ [⟨pkt.size, isdata, isdata⟩]
      log := .sent pkt isdata :: k.log } := by
  have hlen := h.len
  have hrep : ∀ n, reports n (.sent pkt isdata :: k.log) = reports n k.log := fun n =>
    reports_cons n _ _
  refine ⟨?_, fun n hn => ?_, fun n => ?_⟩
  · change k.txevtseq + (k.txevts ++ [_]).length = k.txseq + 1
    rw [List.length_append, List.length_singleton]
    omega
  · change k.txseq + 1 ≤ n at hn
    exact (hrep n).trans (h.below n (by omega))
  · have hpipe := Acct.inPipe_append hlen ⟨pkt.size, isdata, isdata⟩ n
    change reports n (.sent pkt isdata :: k.log) +
      (({ k with txevts := k.txevts ++ [⟨pkt.size, isdata, isdata⟩] } : Kept).inPipe n).toNat ≤ 1
    rw [hrep, hpipe]
    split_ifs with hn
    · rw [h.below n hn.ge, zero_add]
      exact Bool.toNat_le _
    · exact h.once n

/-- **A packet leaves the pipe** with its only report. -/
theorem exit (h : Once k) {seq : ℕ} {e : TxEvent} {r : Event} (hs : k.txevtseq ≤ seq)
    (he : k.txevts[seq - k.txevtseq]? = some e) (hp : e.pipe = true)
    (hr : ∀ n, r.reports n = decide (n = seq)) (cnt size : BitVec 32) :
    Once { k with
      txevts := k.txevts.set (seq - k.txevtseq) { e with pipe := false }
      txfltcnt := cnt
      txfltsize := size
      log := r :: k.log } := by
  have hlen := h.len
  have hin : k.inPipe seq = true := inPipe_iff.mpr ⟨hs, e, he, hp⟩
  refine ⟨?_, fun n hn => ?_, fun n => ?_⟩
  · change k.txevtseq + (k.txevts.set _ _).length = k.txseq
    rw [List.length_set]
    exact hlen
  · have hne : n ≠ seq := by
      rintro rfl
      rw [Acct.inPipe_txseq hlen hn] at hin
      cases hin
    change reports n (r :: k.log) = 0
    rw [reports_cons, hr, h.below n hn, decide_eq_false hne]
    rfl
  · change reports n (r :: k.log) +
      (({ k with txevts := k.txevts.set (seq - k.txevtseq) _ } : Kept).inPipe n).toNat ≤ 1
    have := h.once n
    rw [reports_cons, hr, Acct.inPipe_set hs he]
    by_cases hn : n = seq
    · rw [hn, hin] at this
      simpa [hn] using this
    · simpa [hn] using this

/-- **The oldest record expires**, also from the pipe. -/
theorem expire (h : Once k) {e : TxEvent} {evts : List TxEvent} (he : k.txevts = e :: evts) :
    Once { k with
      txevts := evts, txevtseq := k.txevtseq + 1, log := .expire k.txevtseq :: k.log } := by
  have hlen := h.len
  have hrep : ∀ n, reports n (.expire k.txevtseq :: k.log) = reports n k.log := fun n =>
    reports_cons n _ _
  refine ⟨?_, fun n hn => (hrep n).trans (h.below n hn), fun n => ?_⟩
  · rw [he, List.length_cons] at hlen
    change k.txevtseq + 1 + evts.length = k.txseq
    omega
  · change reports n (.expire k.txevtseq :: k.log) +
      (({ k with txevts := evts, txevtseq := k.txevtseq + 1 } : Kept).inPipe n).toNat ≤ 1
    rw [hrep, Acct.inPipe_drop he]
    have := h.once n
    by_cases hn : n = k.txevtseq
    · simp only [hn, ne_eq, not_true_eq_false, decide_false, Bool.and_false, Bool.toNat_false]
      rw [hn] at this
      omega
    · rwa [decide_eq_true hn, Bool.and_true]

end Once

/-- **Every elementary step**, strays included, keeps the reports single. -/
theorem Micro.once {S : Scope} {f g : Flow} (hm : Micro S f g) (h : Once f.kept) :
    Once g.kept := by
  cases hm with
  | tune hk => rw [hk]; exact h
  | note e he => exact h.note he.reports
  | tx now ackct ackseq size isdata _ =>
    exact h.tx ⟨seqWord f.remoteChannel f.txseq, ackWord ackct ackseq, some f.txseq, size⟩ isdata
      _ _
  | acknowledged n _ => exact h.note fun _ => rfl
  | exit seq e r hs he hp hr =>
    have hrep : ∀ n, r.reports n = decide (n = seq) := by
      rcases hr with ⟨-, rxseq, rfl⟩ | rfl <;> intro n <;> simp [Event.reports, eq_comm]
    exact h.exit hs he hp hrep _ _
  | expire e evts _ he _ _ => exact h.expire he
  | _ => exact ⟨h.len, h.below, h.once⟩

theorem Path.once {S : Scope} {f g : Flow} (hp : Path S f g) (h : Once f.kept) : Once g.kept :=
  hp.invariant (P := fun f => Once f.kept) (fun _ _ hm hf => hm.once hf) h

/-- **One operation** of any environment, with any acknowledgment word. -/
theorem step_once {f g : Flow} {env : Env} {op : Op} (hs : f.step env op = some g)
    (h : Once f.kept) : Once g.kept := by
  by_cases hop : ∃ pkt, op = .receive pkt
  · obtain ⟨pkt, rfl⟩ := hop
    cases hs
    unfold receive
    split_ifs
    · exact h
    · cases f.toRxState.accept pkt with
      | none => exact h
      | some a =>
        obtain ⟨h1, h2, h3⟩ := h.note (e := .accepted a.1) fun _ => rfl
        exact (process_any env (f.arrive a.1 a.2) pkt.packseq a.1).path.once ⟨h1, h2, h3⟩
  · rcases step_cases (S := still) (fun _ => sound_still env) not_false
      (fun _ _ n _ _ => Set.mem_univ n) (.inr h.len) hs with hp | ⟨pkt, n, r, rfl, -, -⟩
    · exact hp.once h
    · exact absurd ⟨pkt, rfl⟩ hop

theorem once_of_reach {chan : BitVec 8} {f : Flow}
    (h : (flowMachine chan).Reach Machine.always f) : Once f.kept := by
  refine h.invariant (P := fun f => Once f.kept) ?_ fun f g i _ hf _ hs => step_once hs hf
  refine ⟨rfl, fun _ _ => rfl, fun n => ?_⟩
  change 0 + ((Flow.new chan).kept.inPipe n).toNat ≤ 1
  rw [zero_add]
  exact Bool.toNat_le _

/-! ## Late acknowledgments -/

/-- How often the upper layer was told that packet `n` is acknowledged. -/
def told (n : ℕ) (log : List Event) : ℕ :=
  log.countP fun e => match e with
    | .acked m _ => m = n
    | _ => false

/-- A packet arrives at `f` whose acknowledgment word covers packet `n`, which was presumed lost
and whose transmit record has not expired. -/
structure LateAck (f : Flow) (pkt : Packet) (n : ℕ) : Prop where
  active : f.active = true
  size : hdrlen ≤ pkt.size
  accepted : (f.toRxState.accept pkt).isSome
  sent : f.ackSeq pkt.packseq < f.txseq
  covers : n ∈ covered (f.ackSeq pkt.packseq) (ackctOf pkt.packseq)
  missed : .missed n ∈ f.log
  kept : f.txevtseq ≤ n

/-- A packet presumed lost is never reported again. -/
theorem Once.told_eq_zero {f : Flow} (h : Once f.kept) {n : ℕ} (hn : .missed n ∈ f.log) :
    told n f.log = 0 := by
  have hsplit : ∀ log : List Event, told n log + log.countP (· = .missed n) ≤ reports n log := by
    intro log
    induction log with
    | nil => exact le_rfl
    | cons e log ih =>
      have h1 : told n (e :: log) + (e :: log).countP (· = .missed n) =
          told n log + log.countP (· = .missed n) + (e.reports n).toNat := by
        unfold told
        rw [List.countP_cons, List.countP_cons]
        cases e <;> simp [Event.reports] <;> split_ifs <;> simp_all <;> omega
      rw [h1, reports_cons]
      omega
  have h1 := hsplit f.log
  have h2 : 0 < f.log.countP (· = .missed n) :=
    List.countP_pos_iff.mpr ⟨_, hn, decide_eq_true rfl⟩
  have h3 : reports n f.log + _ ≤ 1 := h.once n
  omega

end Flow

/-- **A late acknowledgment is never told.** In every run, when an acknowledgment word arrives that
covers a packet presumed lost whose transmit record has not expired, the upper layer has not been
told that this packet is acknowledged, and is not told now. -/
theorem late_ack_untold {chan : BitVec 8} {f : Flow} {env : Env} {pkt : Packet} {n : ℕ}
    (h : (flowMachine chan).Reach Machine.always f) (hl : f.LateAck pkt n) :
    Flow.told n (f.receive env pkt).log = 0 := by
  have hg : (flowMachine chan).Reach Machine.always (f.receive env pkt) :=
    h.step (i := (env, .receive pkt)) trivial rfl
  have hstep : f.step env (.receive pkt) = some (f.receive env pkt) := rfl
  exact (Flow.once_of_reach hg).told_eq_zero (Flow.step_log_subset hstep hl.missed)

/-- One data packet is sent, presumed lost by a timeout, and acknowledged late. -/
def lateFlow : Flow :=
  (((Flow.new 1#8).start silent).flowTransmit 0 20).rtxTimeout silent false

theorem lateFlow_reach : (flowMachine 1#8).Reach Machine.always lateFlow :=
  Machine.reach_of_run (l := [(silent, .start), (silent, .call (.flowTransmit 20)),
    (silent, .rtxTimeout false)]) rfl

theorem lateFlow_late : lateFlow.LateAck ⟨seqWord 1#8 1, ackWord 0 1, some 1, 20⟩ 1 where
  active := rfl
  size := by decide
  accepted := by decide +kernel
  sent := by decide +kernel
  covers := by
    have h1 : lateFlow.ackSeq (ackWord 0 1) = 1 := by decide +kernel
    have h2 : ackctOf (ackWord 0 1) = 0 := by decide +kernel
    change 1 ∈ Flow.covered (lateFlow.ackSeq (ackWord 0 1)) (ackctOf (ackWord 0 1))
    rw [h1, h2]
    exact ⟨le_rfl, le_rfl⟩
  missed := by decide +kernel
  kept := by decide +kernel

theorem late_ack_untold_timeout :
    Flow.told 1 (lateFlow.receive silent ⟨seqWord 1#8 1, ackWord 0 1, some 1, 20⟩).log = 0 :=
  late_ack_untold lateFlow_reach lateFlow_late

theorem late_ack_not_told : ¬∀ (f : Flow) (env : Env) (pkt : Packet) (n : ℕ),
    (flowMachine 1#8).Reach Machine.always f → f.LateAck pkt n →
      Flow.told n (f.receive env pkt).log = 1 := by
  intro hall
  have h := hall _ silent _ 1 lateFlow_reach lateFlow_late
  revert h
  decide +kernel

end Sst
