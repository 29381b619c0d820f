import Sst.Flow.Action

/-!
# Sender accounting

Transmit records are appended by transmission, leave the pipe when they are acknowledged or
presumed lost, and are dropped once they fall out of the acknowledgment window.

* `Kept.inPipe`, `dataSent`, `reports`: the records in the pipe and the history of one packet.
* `Acct`: record numbering, counters modulo `2 ^ 32`, and the balance of transmissions, reports and
  packets in the pipe.
* `Low`: no packet `missthresh` or more behind the highest acknowledged one is in the pipe.
* `Flow.Micro.acct`, `Flow.Path.low`, `Flow.process_balanced`: every step keeps both.
* **`accounting`**: they hold in every run, and no access strays outside the records.
-/

namespace Sst

/-! ## The history of a packet -/

/-- The transmission of data packet `n`. -/
def Event.sendsData (n : ℕ) : Event → Bool
  | .sent pkt true => pkt.sealedAs = some n
  | _ => false

/-- A report that packet `n` left the pipe. -/
def Event.reports (n : ℕ) : Event → Bool
  | .acked m _ => m = n
  | .missed m => m = n
  | _ => false

/-- How often data packet `n` was transmitted. -/
def dataSent (n : ℕ) (log : List Event) : ℕ := log.countP (Event.sendsData n)

/-- How often packet `n` was reported to leave the pipe. -/
def reports (n : ℕ) (log : List Event) : ℕ := log.countP (Event.reports n)

/-- The total size of the records in the pipe. -/
def pipeSize (evts : List TxEvent) : ℕ := ((evts.filter TxEvent.pipe).map TxEvent.size).sum

/-- Packet `n` has a record in the pipe. -/
def Kept.inPipe (k : Kept) (n : ℕ) : Bool :=
  decide (k.txevtseq ≤ n) && (k.txevts[n - k.txevtseq]?).any TxEvent.pipe

/-- The accounting invariant. -/
structure Acct (k : Kept) : Prop where
  len : k.txevtseq + k.txevts.length = k.txseq
  ack : k.txackseq < k.txseq
  window : k.txevtseq = 0 ∨ k.txevtseq + 31 ≤ k.txackseq
  cnt : k.txfltcnt = BitVec.ofNat 32 (k.txevts.countP TxEvent.pipe)
  size : k.txfltsize = BitVec.ofNat 32 (pipeSize k.txevts)
  thresh : k.missthresh = 3
  inside : k.overrun = false
  sentBelow : ∀ n, k.txseq ≤ n → dataSent n k.log = 0
  sentOnce : ∀ n, dataSent n k.log ≤ 1
  balance : ∀ n, dataSent n k.log = reports n k.log + (k.inPipe n).toNat
  expired : ∀ l₁ l₂ n, k.log = l₁ ++ .expire n :: l₂ →
    n < k.txevtseq ∧ reports n l₂ = dataSent n k.log

/-- Nothing far behind the highest acknowledged packet is in the pipe. -/
def Low (k : Kept) : Prop := ∀ n, k.inPipe n = true → k.txackseq < n + k.missthresh

theorem inPipe_iff {k : Kept} {n : ℕ} : k.inPipe n = true ↔
    k.txevtseq ≤ n ∧ ∃ e, k.txevts[n - k.txevtseq]? = some e ∧ e.pipe = true := by
  rw [Kept.inPipe, Bool.and_eq_true, decide_eq_true_eq, Option.any_eq_true]

/-! ## Lists of records -/

theorem countP_set_pipe {evts : List TxEvent} {i : ℕ} {e : TxEvent} (he : evts[i]? = some e)
    (hp : e.pipe = true) :
    (evts.set i { e with pipe := false }).countP TxEvent.pipe + 1 = evts.countP TxEvent.pipe := by
  induction evts generalizing i with
  | nil => cases he
  | cons a evts ih =>
    cases i with
    | zero =>
      cases he
      simp [hp]
    | succ i =>
      have := ih he
      simp only [List.set_cons_succ, List.countP_cons]
      omega

theorem pipeSize_cons (e : TxEvent) (evts : List TxEvent) :
    pipeSize (e :: evts) = (if e.pipe then e.size else 0) + pipeSize evts := by
  unfold pipeSize
  rw [List.filter_cons]
  split_ifs
  · rw [List.map_cons, List.sum_cons]
  · rw [zero_add]

theorem pipeSize_append (l₁ l₂ : List TxEvent) :
    pipeSize (l₁ ++ l₂) = pipeSize l₁ + pipeSize l₂ := by
  unfold pipeSize
  rw [List.filter_append, List.map_append, List.sum_append]

theorem pipeSize_set {evts : List TxEvent} {i : ℕ} {e : TxEvent} (he : evts[i]? = some e)
    (hp : e.pipe = true) :
    pipeSize (evts.set i { e with pipe := false }) + e.size = pipeSize evts := by
  induction evts generalizing i with
  | nil => cases he
  | cons a evts ih =>
    cases i with
    | zero =>
      cases he
      simp [pipeSize_cons, hp, Nat.add_comm]
    | succ i =>
      have := ih he
      rw [List.set_cons_succ, pipeSize_cons, pipeSize_cons]
      omega

theorem ofNat_sub_ofNat {a b c : ℕ} (h : a + b = c) :
    BitVec.ofNat 32 c - BitVec.ofNat 32 b = BitVec.ofNat 32 a := by
  rw [← h, BitVec.ofNat_add, BitVec.add_sub_cancel]

/-! ## Reports and transmissions in the log -/

theorem dataSent_cons (n : ℕ) (e : Event) (log : List Event) :
    dataSent n (e :: log) = dataSent n log + (e.sendsData n).toNat := by
  rw [dataSent, List.countP_cons]
  cases e.sendsData n <;> rfl

theorem reports_cons (n : ℕ) (e : Event) (log : List Event) :
    reports n (e :: log) = reports n log + (e.reports n).toNat := by
  rw [reports, List.countP_cons]
  cases e.reports n <;> rfl

theorem Event.Quiet.sendsData {e : Event} (h : e.Quiet) (n : ℕ) : e.sendsData n = false := by
  cases e <;> first | rfl | exact False.elim h

theorem Event.Quiet.reports {e : Event} (h : e.Quiet) (n : ℕ) : e.reports n = false := by
  cases e <;> first | rfl | exact False.elim h

theorem split_cons {e x : Event} {l l₁ l₂ : List Event} (h : e :: l = l₁ ++ x :: l₂)
    (hne : e ≠ x) : ∃ l₁', l = l₁' ++ x :: l₂ := by
  cases l₁ with
  | nil => exact absurd (List.cons.inj h).1 hne
  | cons a l₁ => exact ⟨l₁, (List.cons.inj h).2⟩

/-! ## Elementary steps -/

namespace Acct

variable {k : Kept}

theorem note (h : Acct k) {e : Event} (h1 : ∀ n, e.sendsData n = false)
    (h2 : ∀ n, e.reports n = false) (h3 : ∀ n, e ≠ .expire n) :
    Acct { k with log := e :: k.log } where
  len := h.len
  ack := h.ack
  window := h.window
  cnt := h.cnt
  size := h.size
  thresh := h.thresh
  inside := h.inside
  sentBelow n hn := by
    change dataSent n (e :: k.log) = 0
    rw [dataSent_cons, h1, h.sentBelow n hn]
    rfl
  sentOnce n := by
    change dataSent n (e :: k.log) ≤ 1
    rw [dataSent_cons, h1]
    exact h.sentOnce n
  balance n := by
    change dataSent n (e :: k.log) = reports n (e :: k.log) + (k.inPipe n).toNat
    rw [dataSent_cons, reports_cons, h1, h2]
    exact h.balance n
  expired l₁ l₂ n he := by
    obtain ⟨l₁', hl⟩ := split_cons he (h3 n)
    change n < k.txevtseq ∧ reports n l₂ = dataSent n (e :: k.log)
    rw [dataSent_cons, h1]
    exact h.expired l₁' l₂ n hl

theorem inPipe_append (hlen : k.txevtseq + k.txevts.length = k.txseq) (e : TxEvent) (n : ℕ) :
    ({ k with txevts := k.txevts ++ [e] } : Kept).inPipe n =
      if n = k.txseq then e.pipe else k.inPipe n := by
  unfold Kept.inPipe
  dsimp only
  split_ifs with hn
  · subst hn
    rw [show k.txseq - k.txevtseq = k.txevts.length by omega, List.getElem?_concat_length]
    simp [show k.txevtseq ≤ k.txseq by omega]
  · by_cases hle : k.txevtseq ≤ n
    swap
    · simp [hle]
    by_cases hlt : n - k.txevtseq < k.txevts.length
    · rw [List.getElem?_append_left hlt]
    · rw [List.getElem?_eq_none (by rw [List.length_append, List.length_singleton]; omega),
        List.getElem?_eq_none (by omega)]

theorem inPipe_txseq (hlen : k.txevtseq + k.txevts.length = k.txseq) {n : ℕ} (hn : k.txseq ≤ n) :
    k.inPipe n = false := by
  rw [Kept.inPipe, List.getElem?_eq_none (by omega)]
  simp

/-- **A transmission** adds a record under the next number. -/
theorem tx (h : Acct k) (pkt : Packet) (hp : pkt.sealedAs = some k.txseq) (isdata : Bool) :
    Acct { k with
      txseq := k.txseq + 1
      txfltcnt := if isdata then k.txfltcnt + 1#32 else k.txfltcnt
      txfltsize := if isdata then k.txfltsize + BitVec.ofNat 32 pkt.size else k.txfltsize
      txevts := k.txevts ++ [⟨pkt.size, isdata, isdata⟩]
      log := .sent pkt isdata :: k.log } := by
  have hlen := h.len
  have hsent : ∀ n, dataSent n (.sent pkt isdata :: k.log) =
      dataSent n k.log + (isdata && decide (k.txseq = n)).toNat := by
    intro n
    rw [dataSent_cons]
    cases isdata <;> simp [Event.sendsData, hp]
  have hrep : ∀ n, reports n (.sent pkt isdata :: k.log) = reports n k.log := by
    intro n
    rw [reports_cons]
    rfl
  refine ⟨?_, Nat.lt_succ_of_lt h.ack, h.window, ?_, ?_, h.thresh, h.inside, ?_, ?_, ?_, ?_⟩
  · change k.txevtseq + (k.txevts ++ [_]).length = k.txseq + 1
    rw [List.length_append, List.length_singleton]
    omega
  · change (if isdata then _ else _) = BitVec.ofNat 32 ((k.txevts ++ [_]).countP TxEvent.pipe)
    rw [List.countP_append, h.cnt]
    cases isdata
    · simp
    · simp [BitVec.ofNat_add]
  · change (if isdata then _ else _) = BitVec.ofNat 32 (pipeSize (k.txevts ++ [_]))
    rw [pipeSize_append, h.size]
    cases isdata
    · simp [pipeSize]
    · simp [pipeSize, BitVec.ofNat_add]
  · intro n hn
    change k.txseq + 1 ≤ n at hn
    change dataSent n (.sent pkt isdata :: k.log) = 0
    rw [hsent, h.sentBelow n (by omega)]
    simp [show k.txseq ≠ n by omega]
  · intro n
    change dataSent n (.sent pkt isdata :: k.log) ≤ 1
    rw [hsent]
    by_cases hn : k.txseq = n
    · rw [h.sentBelow n hn.le, zero_add]
      exact Bool.toNat_le _
    · simpa [hn] using h.sentOnce n
  · intro n
    have hpipe := inPipe_append hlen ⟨pkt.size, isdata, isdata⟩ n
    change dataSent n (.sent pkt isdata :: k.log) = reports n (.sent pkt isdata :: k.log) +
      (({ k with txevts := k.txevts ++ [⟨pkt.size, isdata, isdata⟩] } : Kept).inPipe n).toNat
    rw [hsent, hrep, hpipe, h.balance n]
    by_cases hn : n = k.txseq
    · rw [inPipe_txseq hlen hn.ge, if_pos hn]
      simp [hn]
    · simp [hn, Ne.symm hn]
  · intro l₁ l₂ n he
    obtain ⟨l₁', hl⟩ := split_cons he nofun
    obtain ⟨h1, h2⟩ := h.expired l₁' l₂ n hl
    refine ⟨h1, ?_⟩
    change reports n l₂ = dataSent n (.sent pkt isdata :: k.log)
    rw [hsent, h2]
    simp [show k.txseq ≠ n by omega]

theorem inPipe_set {seq : ℕ} {e : TxEvent} (hs : k.txevtseq ≤ seq)
    (he : k.txevts[seq - k.txevtseq]? = some e) (n : ℕ) :
    ({ k with
      txevts := k.txevts.set (seq - k.txevtseq) { e with pipe := false } } : Kept).inPipe n =
      (k.inPipe n && decide (n ≠ seq)) := by
  unfold Kept.inPipe
  dsimp only
  by_cases hle : k.txevtseq ≤ n
  · by_cases hn : n = seq
    · subst hn
      obtain ⟨hi, -⟩ := List.getElem?_eq_some_iff.mp he
      rw [List.getElem?_set_self hi]
      simp
    · rw [List.getElem?_set_ne (by omega)]
      simp [hn]
  · simp [hle]

/-- **A packet leaves the pipe** with one report. -/
theorem exit (h : Acct k) {seq : ℕ} {e : TxEvent} {r : Event} (hs : k.txevtseq ≤ seq)
    (he : k.txevts[seq - k.txevtseq]? = some e) (hp : e.pipe = true)
    (hr : ∀ n, r.reports n = decide (n = seq)) (hd : ∀ n, r.sendsData n = false)
    (hx : ∀ n, r ≠ .expire n) :
    Acct { k with
      txevts := k.txevts.set (seq - k.txevtseq) { e with pipe := false }
      txfltcnt := k.txfltcnt - 1#32
      txfltsize := k.txfltsize - BitVec.ofNat 32 e.size
      log := r :: k.log } where
  len := by
    change k.txevtseq + (k.txevts.set _ _).length = k.txseq
    rw [List.length_set]
    exact h.len
  ack := h.ack
  window := h.window
  cnt := by
    change k.txfltcnt - 1#32 = _
    rw [h.cnt]
    exact ofNat_sub_ofNat (countP_set_pipe he hp)
  size := by
    change k.txfltsize - _ = _
    rw [h.size]
    exact ofNat_sub_ofNat (pipeSize_set he hp)
  thresh := h.thresh
  inside := h.inside
  sentBelow n hn := by
    change dataSent n (r :: k.log) = 0
    rw [dataSent_cons, hd, h.sentBelow n hn]
    rfl
  sentOnce n := by
    change dataSent n (r :: k.log) ≤ 1
    rw [dataSent_cons, hd]
    exact h.sentOnce n
  balance n := by
    change dataSent n (r :: k.log) = reports n (r :: k.log) +
      (({ k with txevts := k.txevts.set (seq - k.txevtseq) _ } : Kept).inPipe n).toNat
    rw [dataSent_cons, reports_cons, hd, hr, inPipe_set hs he, h.balance n]
    by_cases hn : n = seq
    · have hin : k.inPipe seq = true := inPipe_iff.mpr ⟨hs, e, he, hp⟩
      simp [hin, hn]
    · simp [hn]
  expired l₁ l₂ n hl := by
    obtain ⟨l₁', hl'⟩ := split_cons hl (hx n)
    change n < k.txevtseq ∧ reports n l₂ = dataSent n (r :: k.log)
    rw [dataSent_cons, hd]
    exact h.expired l₁' l₂ n hl'

theorem inPipe_drop {e : TxEvent} {evts : List TxEvent} (he : k.txevts = e :: evts) (n : ℕ) :
    ({ k with txevts := evts, txevtseq := k.txevtseq + 1 } : Kept).inPipe n =
      (k.inPipe n && decide (n ≠ k.txevtseq)) := by
  unfold Kept.inPipe
  dsimp only
  rw [he]
  rcases lt_trichotomy n k.txevtseq with hn | hn | hn
  · simp [not_le.mpr hn, show ¬k.txevtseq + 1 ≤ n by omega]
  · simp [hn]
  · rw [show n - k.txevtseq = n - (k.txevtseq + 1) + 1 by omega, List.getElem?_cons_succ]
    simp [hn.le, Nat.succ_le_of_lt hn, hn.ne']

/-- The pipe after the oldest record, which is not in the pipe, was dropped. -/
theorem inPipe_tail {e : TxEvent} {evts : List TxEvent} (he : k.txevts = e :: evts)
    (hp : e.pipe = false) (n : ℕ) :
    ({ k with txevts := evts, txevtseq := k.txevtseq + 1 } : Kept).inPipe n = k.inPipe n := by
  rw [inPipe_drop he]
  by_cases hn : n = k.txevtseq
  · have hk : k.inPipe n = false := by simp [Kept.inPipe, he, hn, hp]
    rw [hk, Bool.false_and]
  · rw [decide_eq_true hn, Bool.and_true]

/-- **The oldest record expires**, after the report if its packet carried data. -/
theorem expire (h : Acct k) {e : TxEvent} {evts : List TxEvent} (he : k.txevts = e :: evts)
    (hp : e.pipe = false) (hlow : k.txevtseq + maskBits ≤ k.txackseq) :
    Acct { k with
      txevts := evts, txevtseq := k.txevtseq + 1, log := .expire k.txevtseq :: k.log } where
  len := by
    have hlen := h.len
    rw [he, List.length_cons] at hlen
    change k.txevtseq + 1 + evts.length = k.txseq
    omega
  ack := h.ack
  window := by
    unfold maskBits at hlow
    right
    change k.txevtseq + 1 + 31 ≤ k.txackseq
    omega
  cnt := by
    have hcnt := h.cnt
    rw [he, List.countP_cons_of_neg (by simp [hp])] at hcnt
    exact hcnt
  size := by
    have hsize := h.size
    rw [he, pipeSize_cons, hp, if_neg Bool.false_ne_true, zero_add] at hsize
    exact hsize
  thresh := h.thresh
  inside := h.inside
  sentBelow n hn := by
    change dataSent n (.expire k.txevtseq :: k.log) = 0
    rw [dataSent_cons]
    exact h.sentBelow n hn
  sentOnce n := by
    change dataSent n (.expire k.txevtseq :: k.log) ≤ 1
    rw [dataSent_cons]
    exact h.sentOnce n
  balance n := by
    change dataSent n (.expire k.txevtseq :: k.log) = reports n (.expire k.txevtseq :: k.log) +
      (({ k with txevts := evts, txevtseq := k.txevtseq + 1 } : Kept).inPipe n).toNat
    rw [dataSent_cons, reports_cons, inPipe_tail he hp]
    exact h.balance n
  expired l₁ l₂ n hl := by
    change .expire k.txevtseq :: k.log = l₁ ++ .expire n :: l₂ at hl
    change n < k.txevtseq + 1 ∧ reports n l₂ = dataSent n (.expire k.txevtseq :: k.log)
    rw [dataSent_cons]
    cases l₁ with
    | nil =>
      obtain ⟨hn, rfl⟩ := List.cons.inj hl
      cases hn
      have hin : k.inPipe k.txevtseq = false := by simp [Kept.inPipe, he, hp]
      have hb := h.balance k.txevtseq
      rw [hin] at hb
      exact ⟨Nat.lt_succ_self _, hb.symm⟩
    | cons a l₁ =>
      obtain ⟨h1, h2⟩ := h.expired l₁ l₂ n (List.cons.inj hl).2
      exact ⟨Nat.lt_succ_of_lt h1, h2⟩

end Acct

namespace Flow

/-- **Elementary steps keep the accounting**, as long as no access strays. -/
theorem Micro.acct {S : Scope} {f g : Flow} (hm : Micro S f g) (hR : S.Fixed) (hS : ¬S.strays)
    (h : Acct f.kept) : Acct g.kept := by
  cases hm with
  | tune hk => rw [hk]; exact h
  | note e he => exact h.note he.sendsData he.reports (by rintro n rfl; exact he)
  | tx now ackct ackseq size isdata _ =>
    exact h.tx
      ⟨seqWord f.remoteChannel f.txseq, ackWord ackct ackseq, some f.txseq, size⟩ rfl isdata
  | acknowledged n _ => exact h.note (fun _ => rfl) (fun _ => rfl) nofun
  | extend n _ _ =>
    exact ⟨h.len, h.ack, h.window, h.cnt, h.size, h.thresh, h.inside, h.sentBelow, h.sentOnce,
      h.balance, h.expired⟩
  | restart n _ =>
    exact ⟨h.len, h.ack, h.window, h.cnt, h.size, h.thresh, h.inside, h.sentBelow, h.sentOnce,
      h.balance, h.expired⟩
  | exit seq e r hs he hp hr =>
    rcases hr with ⟨-, rxseq, rfl⟩ | rfl
    · exact h.exit hs he hp (fun n => by simp [Event.reports, eq_comm]) (fun _ => rfl) nofun
    · exact h.exit hs he hp (fun n => by simp [Event.reports, eq_comm]) (fun _ => rfl) nofun
  | expire e evts _ he hp hlow =>
    exact h.expire he (Bool.eq_false_iff.mpr fun hpt => hS (hp hpt)) hlow
  | roll _ h' => exact absurd h' (hR _)
  | stray h' => exact absurd h' hS

theorem Path.acct {S : Scope} {f g : Flow} (hp : Path S f g) (hR : S.Fixed) (hS : ¬S.strays)
    (h : Acct f.kept) : Acct g.kept :=
  hp.invariant (P := fun f => Acct f.kept) (fun _ _ hm hf => hm.acct hR hS hf) h

/-- Elementary steps put no old packet back into the pipe. -/
theorem Micro.inPipe {S : Scope} {f g : Flow} (hm : Micro S f g) (hS : ¬S.strays)
    (h : Acct f.kept) {n : ℕ} (hn : n < f.txseq) (hp : g.kept.inPipe n = true) :
    f.kept.inPipe n = true := by
  cases hm with
  | tune hk => rw [← hk]; exact hp
  | tx now ackct ackseq size isdata _ =>
    have := Acct.inPipe_append h.len ⟨size, isdata, isdata⟩ n
    rw [if_neg (show n ≠ f.kept.txseq from hn.ne)] at this
    exact this.symm.trans hp
  | exit seq e r hs he hp' hr =>
    have := Acct.inPipe_set (k := f.kept) hs he n
    exact (Bool.and_eq_true _ _ ▸ this.symm.trans hp).1
  | expire e evts _ he hp' hlow =>
    have := Acct.inPipe_tail (k := f.kept) he (Bool.eq_false_iff.mpr fun hpt => hS (hp' hpt)) n
    exact this.symm.trans hp
  | stray h' => exact absurd h' hS
  | _ => exact hp

theorem Micro.txseq_le {S : Scope} {f g : Flow} (hm : Micro S f g) : f.txseq ≤ g.txseq := by
  cases hm with
  | tune hk => exact (congrArg Kept.txseq hk).ge
  | tx now ackct ackseq size isdata _ => exact Nat.le_succ _
  | _ => exact le_rfl

/-- A path puts no old packet back into the pipe. -/
theorem Path.inPipe {S : Scope} {f g : Flow} (hp : Path S f g) (hR : S.Fixed) (hS : ¬S.strays)
    (h : Acct f.kept) {n : ℕ} (hn : n < f.txseq) (hg : g.kept.inPipe n = true) :
    f.kept.inPipe n = true := by
  have key : Acct g.kept ∧ f.txseq ≤ g.txseq ∧
      (g.kept.inPipe n = true → f.kept.inPipe n = true) := by
    refine hp.invariant (P := fun g => Acct g.kept ∧ f.txseq ≤ g.txseq ∧
      (g.kept.inPipe n = true → f.kept.inPipe n = true)) ?_ ⟨h, le_rfl, id⟩
    rintro g k hm ⟨h1, h2, h3⟩
    exact ⟨hm.acct hR hS h1, h2.trans hm.txseq_le,
      fun hk => h3 (hm.inPipe hS h1 (hn.trans_le h2) hk)⟩
  exact key.2.2 hg

theorem Micro.missthresh {S : Scope} {f g : Flow} (hm : Micro S f g) :
    g.missthresh = f.missthresh := by
  cases hm with
  | tune hk => exact congrArg Kept.missthresh hk
  | _ => rfl

theorem Path.txseq_le {S : Scope} {f g : Flow} (hp : Path S f g) : f.txseq ≤ g.txseq :=
  hp.invariant (P := fun g => f.txseq ≤ g.txseq) (fun _ _ hm h => h.trans hm.txseq_le) le_rfl

/-- A path that leaves the window where it is keeps old packets out of the pipe. -/
theorem Path.low {S : Scope} {f g : Flow} (hp : Path S f g) (hR : S.Fixed) (hS : ¬S.strays)
    (h : Acct f.kept) (hl : Low f.kept) : Low g.kept := by
  intro n hn
  have hg := hp.acct hR hS h
  have ht : g.kept.txackseq = f.kept.txackseq := hp.txackseq hR
  have hf := h.ack
  rw [ht, hg.thresh]
  by_cases hlt : n < f.txseq
  · have := hl n (hp.inPipe hR hS h hlt hn)
    rwa [h.thresh] at this
  · change f.kept.txackseq < f.txseq at hf
    omega

/-! ## The loops take packets out of the pipe -/

theorem exitPipe_inPipe {f : Flow} {seq : ℕ} (h : f.kept.inPipe seq = true)
    (report : Flow → Flow) : ∃ e, f.txevtseq ≤ seq ∧ f.txevts[seq - f.txevtseq]? = some e ∧
      e.pipe = true ∧ f.exitPipe seq report = report (f.leavePipe seq e) := by
  obtain ⟨hs, e, he, hp⟩ := inPipe_iff.mp h
  replace hs : f.txevtseq ≤ seq := hs
  replace he : f.txevts[seq - f.txevtseq]? = some e := he
  refine ⟨e, hs, he, hp, ?_⟩
  unfold exitPipe
  rw [if_neg (not_lt.mpr hs), he]
  exact if_pos hp

theorem exitPipe_not_inPipe {f : Flow} {seq : ℕ} (h : f.kept.inPipe seq = false)
    (report : Flow → Flow) : f.exitPipe seq report = f ∨ f.exitPipe seq report = f.stray := by
  unfold exitPipe
  split_ifs with hs
  · exact .inr rfl
  · cases he : f.txevts[seq - f.txevtseq]? with
    | none => exact .inr rfl
    | some e =>
      have hp : ¬e.pipe = true := fun hp =>
        Bool.eq_false_iff.mp h (inPipe_iff.mpr ⟨not_lt.mp hs, e, he, hp⟩)
      exact .inl (if_neg hp)

section Loops

variable {S : Scope} {env : Env}

theorem exitPipe_clear (hR : S.Fixed) (hS : ¬S.strays) {f : Flow} {seq : ℕ}
    {report : Flow → Flow} {r : Event} (hA : Acct f.kept) (hB : f.InBounds seq)
    (hr : (seq ∈ S.acks ∧ ∃ rxseq, r = .acked seq rxseq) ∨ r = .missed seq)
    (hreport : ∀ g, Path S (g.logged r) (report g)) :
    (f.exitPipe seq report).kept.inPipe seq = false := by
  obtain ⟨hl, h1, h2⟩ := hB
  unfold exitPipe
  rw [if_neg (by omega)]
  cases he : f.txevts[seq - f.txevtseq]? with
  | none =>
    rw [List.getElem?_eq_none_iff] at he
    omega
  | some e =>
    change (if e.pipe then report (f.leavePipe seq e) else f).kept.inPipe seq = false
    by_cases hp : e.pipe = true
    · rw [if_pos hp]
      have hm : Micro S f ((f.leavePipe seq e).logged r) := .exit seq e r h1 he hp hr
      have hout : ((f.leavePipe seq e).logged r).kept.inPipe seq = false := by
        have := Acct.inPipe_set (k := f.kept) h1 he seq
        rw [Bool.and_eq_false_iff.mpr (.inr (decide_eq_false (not_not.mpr rfl)))] at this
        exact this
      refine Bool.eq_false_iff.mpr fun hin => ?_
      have := (hreport (f.leavePipe seq e)).inPipe hR hS (hm.acct hR hS hA) h2 hin
      rw [hout] at this
      cases this
    · rw [if_neg hp]
      refine Bool.eq_false_iff.mpr fun hin => ?_
      obtain ⟨-, e', he', hp'⟩ := inPipe_iff.mp hin
      change f.txevts[seq - f.txevtseq]? = some e' at he'
      rw [he] at he'
      cases he'
      exact hp hp'

theorem foldl_clear (turn : Flow → ℕ → Flow) (hR : S.Fixed) (hX : ¬S.expires) (hS : ¬S.strays)
    (hturn : ∀ f m, f.InBounds m → Path S f (turn f m))
    (hclear : ∀ f m, Acct f.kept → f.InBounds m → (turn f m).kept.inPipe m = false) (l : List ℕ)
    {f : Flow} (hA : Acct f.kept) (hB : ∀ m ∈ l, f.InBounds m) :
    Path S f (l.foldl turn f) ∧ ∀ m ∈ l, (l.foldl turn f).kept.inPipe m = false := by
  induction l generalizing f with
  | nil => exact ⟨.refl, nofun⟩
  | cons a l ih =>
    have hBa := hB a List.mem_cons_self
    have hp := hturn f a hBa
    have hA' := hp.acct hR hS hA
    obtain ⟨h1, h2⟩ := ih hA' fun m hm => hp.inBounds hX (hB m (List.mem_cons_of_mem a hm))
    refine ⟨hp.trans h1, ?_⟩
    rintro m (_ | ⟨_, hm⟩)
    · refine Bool.eq_false_iff.mpr fun hin => ?_
      have := h1.inPipe hR hS hA' (hp.inBounds hX hBa).2.2 hin
      rw [hclear f a hA hBa] at this
      cases this
    · exact h2 m hm

theorem ackRange_clear (hE : Sound S env) (hR : S.Fixed) (hX : ¬S.expires) (hS : ¬S.strays)
    (hall : ∀ n, n ∈ S.acks) {f : Flow} (hA : Acct f.kept) (rxseq seq n : ℕ)
    (hB : ∀ m, seq ≤ m → m < seq + n → f.InBounds m) :
    Path S f (f.ackRange env rxseq seq n) ∧
      ∀ m, seq ≤ m → m < seq + n → (f.ackRange env rxseq seq n).kept.inPipe m = false := by
  obtain ⟨h1, h2⟩ := foldl_clear (ackOne env rxseq) hR hX hS
    (fun f m hm => (ackOne_acts (S := S.full) hE rxseq m (.inr hm) (hall m)).path)
    (fun f m hA hm => exitPipe_clear hR hS hA hm (.inl ⟨hall m, rxseq, rfl⟩)
      fun g => (raise_acts (S := S.full) hE g _).path) (List.range' seq n) hA
    fun m hm => by obtain ⟨h1, h2⟩ := List.mem_range'_1.mp hm; exact hB m h1 h2
  exact ⟨h1, fun m hm1 hm2 => h2 m (List.mem_range'_1.mpr ⟨hm1, hm2⟩)⟩

theorem missRange_clear (hE : Sound S env) (hR : S.Fixed) (hX : ¬S.expires) (hS : ¬S.strays)
    {f : Flow} (hA : Acct f.kept) (seq n : ℕ) (hB : ∀ m, seq ≤ m → m < seq + n → f.InBounds m) :
    Path S f (f.missRange env seq n) ∧
      ∀ m, seq ≤ m → m < seq + n → (f.missRange env seq n).kept.inPipe m = false := by
  obtain ⟨h1, h2⟩ := foldl_clear (missOne env) hR hX hS
    (fun f m hm => (missOne_acts (S := S.full) hE trivial m (.inr hm) (Set.mem_univ m)).path)
    (fun f m hA hm => exitPipe_clear hR hS hA hm (.inr rfl) fun g =>
      (Path.tune (kept_logged (kept_ccMissed g m) _)).trans
        (raise_acts (S := S.full) hE _ _).path)
    (List.range' seq n) hA
    fun m hm => by obtain ⟨h1, h2⟩ := List.mem_range'_1.mp hm; exact hB m h1 h2
  exact ⟨h1, fun m hm1 hm2 => h2 m (List.mem_range'_1.mpr ⟨hm1, hm2⟩)⟩

end Loops

/-! ## Reception -/

section Reception

variable {env : Env}

/-- Any report and any call may happen, but the window stays, and nothing expires or strays. -/
def still : Scope := ⟨Set.univ, Set.univ, fun _ => False, False, False⟩

theorem sound_still (env : Env) : Sound still env := .of_univ Set.mem_univ env

theorem sound_still_collecting (env : Env) : Sound still.collecting env := sound_still env

/-- The accounting invariant with the packets in the pipe bounded from below. -/
def Balanced (f : Flow) : Prop := Acct f.kept ∧ Low f.kept

theorem Path.balanced {S : Scope} {f g : Flow} (hp : Path S f g) (hR : S.Fixed) (hS : ¬S.strays)
    (h : f.Balanced) : g.Balanced :=
  ⟨hp.acct hR hS h.1, hp.low hR hS h.1 h.2⟩

/-- The oldest record is not in the pipe once it falls out of the window. -/
theorem Balanced.head {f : Flow} (h : f.Balanced) (hlow : f.txevtseq + maskBits ≤ f.txackseq) :
    ∃ e evts, f.txevts = e :: evts ∧ e.pipe = false := by
  obtain ⟨hA, hL⟩ := h
  have hlen : f.txevtseq + f.txevts.length = f.txseq := hA.len
  have hack : f.txackseq < f.txseq := hA.ack
  unfold maskBits at hlow
  cases he : f.txevts with
  | nil =>
    rw [he, List.length_nil] at hlen
    omega
  | cons e evts =>
    refine ⟨e, evts, rfl, Bool.eq_false_iff.mpr fun hp => ?_⟩
    have hhead : f.txevts[f.txevtseq - f.txevtseq]? = some e := by
      rw [Nat.sub_self, he]
      rfl
    have hin : f.kept.inPipe f.txevtseq = true := inPipe_iff.mpr ⟨le_rfl, e, hhead, hp⟩
    have := hL _ hin
    rw [hA.thresh] at this
    change f.txackseq < f.txevtseq + 3 at this
    omega

theorem collect_balanced (env : Env) {f : Flow} (h : f.Balanced) :
    (f.collect env).Balanced ∧ (f.collect env).txackseq = f.txackseq := by
  have hp := (collect_acts (S := still.collecting.full) (sound_still_collecting env) f trivial
    (.inr fun g hg hlow => (hg.path.balanced (fun _ => id) not_false h).head hlow)).path
  exact ⟨hp.balanced (fun _ => id) not_false h, hp.txackseq fun _ => id⟩

/-- **New acknowledgments** keep the accounting: the acknowledged range and the inferred losses
leave nothing in the pipe that falls behind. -/
theorem losses_balanced (env : Env) {f : Flow} (h : f.Balanced) (pktseq ackseq ackdiff ackct : ℕ)
    (hd0 : 0 < ackdiff) (hd : ackseq = f.txackseq + ackdiff) (hlt : ackseq < f.txseq) :
    ((f.rollAcks env pktseq ackseq ackdiff (min ackdiff (ackct + 1))).inferLosses env ackseq ackdiff
        (min ackdiff (ackct + 1))).Balanced ∧
      ((f.rollAcks env pktseq ackseq ackdiff (min ackdiff (ackct + 1))).inferLosses env ackseq
        ackdiff (min ackdiff (ackct + 1))).txackseq = ackseq := by
  obtain ⟨hA, hL⟩ := h
  dsimp only [rollAcks, inferLosses, missseq, misslim]
  generalize ((if ackdiff < maskBits then f.txackmask <<< ackdiff else 0#32) |||
    (1#32 <<< min ackdiff (ackct + 1) - 1#32)) = mask
  obtain ⟨np, hnp⟩ : ∃ np, min ackdiff (ackct + 1) = np := ⟨_, rfl⟩
  rw [hnp]
  have hA₁ : Acct ({ f with txackseq := ackseq, txackmask := mask } : Flow).kept :=
    ⟨hA.len, hlt, hA.window.imp_right fun hw => hw.trans (by rw [hd]; exact Nat.le_add_right _ _),
      hA.cnt, hA.size, hA.thresh, hA.inside, hA.sentBelow, hA.sentOnce, hA.balance, hA.expired⟩
  have hL₁ : ∀ n, ({ f with txackseq := ackseq, txackmask := mask } : Flow).kept.inPipe n = true →
      f.txackseq < n + 3 := by
    intro n hn
    have := hL n hn
    rw [hA.thresh] at this
    exact this
  have hs₁ : ({ f with txackseq := ackseq, txackmask := mask } : Flow).txackseq = ackseq := rfl
  have hw := hA₁.window
  have hb₁ : ∀ m, f.txackseq ≤ m + 2 → m ≤ ackseq →
      ({ f with txackseq := ackseq, txackmask := mask } : Flow).InBounds m := by
    intro m hm1 hm2
    have hw := hA.window
    change f.txevtseq = 0 ∨ f.txevtseq + 31 ≤ f.txackseq at hw
    refine ⟨hA.len, ?_, ?_⟩
    · change f.txevtseq ≤ m
      omega
    · change m < f.txseq
      omega
  have hq₁ : ackseq < ({ f with txackseq := ackseq, txackmask := mask } : Flow).txseq := hlt
  generalize ({ f with txackseq := ackseq, txackmask := mask } : Flow) = f₁ at hA₁ hL₁ hs₁ hb₁ hq₁ ⊢
  obtain ⟨hp₂, hc₂⟩ := ackRange_clear (sound_still env) (fun _ => id) not_false not_false
    (fun n => Set.mem_univ n) hA₁ pktseq (ackseq - np + 1) np
    fun m hm1 hm2 => hb₁ m (by omega) (by omega)
  generalize f₁.ackRange env pktseq (ackseq - np + 1) np = f₂ at hp₂ hc₂ ⊢
  have hA₂ := hp₂.acct (fun _ => id) not_false hA₁
  have ht : f₂.missthresh = 3 := hA₂.thresh
  rw [ht]
  obtain ⟨lo, hlo⟩ : ∃ lo, ackseq - min ackseq (3 + ackdiff - 1) = lo := ⟨_, rfl⟩
  obtain ⟨hi, hhi⟩ : ∃ hi, ackseq - min ackseq (max 3 np) = hi := ⟨_, rfl⟩
  rw [hlo, hhi]
  obtain ⟨hp₃, hc₃⟩ := missRange_clear (sound_still env) (fun _ => id) not_false not_false hA₂ lo
    (hi + 1 - lo) fun m hm1 hm2 => hp₂.inBounds not_false (hb₁ m (by omega) (by omega))
  generalize f₂.missRange env lo (hi + 1 - lo) = f₃ at hp₃ hc₃ ⊢
  have hA₃ := hp₃.acct (fun _ => id) not_false hA₂
  have hs₃ : f₃.txackseq = ackseq :=
    (hp₃.txackseq fun _ => id).trans ((hp₂.txackseq fun _ => id).trans hs₁)
  have hL₃ : Low f₃.kept := by
    intro n hn
    rw [hA₃.thresh]
    change f₃.txackseq < n + 3
    rw [hs₃]
    by_contra hge
    have hn₂ := hp₃.inPipe (fun _ => id) not_false hA₂
      ((by omega : n < f₁.txseq).trans_le hp₂.txseq_le) hn
    have hn₁ := hL₁ n (hp₂.inPipe (fun _ => id) not_false hA₁ (by omega) hn₂)
    by_cases hr : ackseq < n + np
    · rw [hc₂ n (by omega) (by omega)] at hn₂
      cases hn₂
    · rw [hc₃ n (by omega) (by omega)] at hn
      cases hn
  exact ⟨⟨hA₃, hL₃⟩, hs₃⟩

theorem ackNew_balanced (env : Env) {f : Flow} (h : f.Balanced) (pktseq ackseq ackdiff ackct : ℕ)
    (hd0 : 0 < ackdiff) (hd : ackseq = f.txackseq + ackdiff) (hlt : ackseq < f.txseq) :
    (f.ackNew env pktseq ackseq ackdiff ackct).1.Balanced ∧
      (f.ackNew env pktseq ackseq ackdiff ackct).1.txackseq = ackseq := by
  obtain ⟨hB₁, hs₁⟩ := losses_balanced env h pktseq ackseq ackdiff ackct hd0 hd hlt
  dsimp only [ackNew]
  generalize (f.rollAcks env pktseq ackseq ackdiff (min ackdiff (ackct + 1))).inferLosses env ackseq
    ackdiff (min ackdiff (ackct + 1)) = g at hB₁ hs₁ ⊢
  obtain ⟨hB₂, hs₂⟩ := collect_balanced env hB₁
  have hp := (setLinkStatus_acts (S := still.full) (sound_still env) trivial
    (g.collect env) .up).path
  exact ⟨hp.balanced (fun _ => id) not_false hB₂, (hp.txackseq fun _ => id).trans (hs₂.trans hs₁)⟩

/-- The acknowledgment word covers only transmitted packets, packet 0 included. -/
def CoversSent (f : Flow) (packseq : BitVec 32) : Prop :=
  0 ≤ (f.txackseq : ℤ) + f.ackDiff packseq - ackctOf packseq ∧
    (f.txackseq : ℤ) + f.ackDiff packseq < f.txseq

theorem straggle_balanced {f : Flow} (h : f.Balanced) (pktseq back ackct newpackets : ℕ)
    (hb : back + ackct ≤ f.txackseq) :
    (f.straggle env pktseq back ackct newpackets).1.Balanced := by
  obtain ⟨hA, -⟩ := id h
  have hw : f.txevtseq = 0 ∨ f.txevtseq + 31 ≤ f.txackseq := hA.window
  have hack : f.txackseq < f.txseq := hA.ack
  refine (straggle_acts (S := still.full) (sound_still env) (fun _ => id) not_false trivial pktseq f
    back ackct newpackets (.inr fun bit h1 h2 h3 => ?_)
    fun bit _ _ _ => Set.mem_univ _).path.balanced (fun _ => id) not_false h
  unfold maskBits at h3
  exact ⟨by omega, hA.len, by omega, by omega⟩

theorem ccReceived_balanced (env : Env) {f : Flow} (h : f.Balanced) (ackseq newpackets : ℕ) :
    (f.ccReceived env ackseq newpackets).Balanced := by
  unfold Balanced
  rw [kept_ccReceived]
  exact h

theorem CoversSent.ackSeq {f : Flow} {packseq : BitVec 32} (hc : f.CoversSent packseq)
    (hmax : f.txseq ≤ maxPacketSeq) : (f.ackSeq packseq : ℤ) = f.txackseq + f.ackDiff packseq := by
  obtain ⟨hc0, hc1⟩ := hc
  unfold maxPacketSeq at hmax
  exact seqAdd_of_nonneg (by omega) (by omega)

theorem ackReceived_balanced {f : Flow} (h : f.Balanced) (packseq : BitVec 32) (pktseq : ℕ)
    (hmax : f.txseq ≤ maxPacketSeq) (hc : f.CoversSent packseq) :
    (f.ackReceived env pktseq (f.ackSeq packseq) (f.ackDiff packseq)
      (ackctOf packseq)).1.Balanced := by
  have hseq := hc.ackSeq hmax
  obtain ⟨hc0, hc1⟩ := hc
  unfold ackReceived
  split_ifs with hd
  · obtain ⟨hB, hs⟩ := ackNew_balanced env h pktseq (f.ackSeq packseq)
      (f.ackDiff packseq).toNat (ackctOf packseq) (by omega) (by omega) (by omega)
    exact straggle_balanced hB pktseq 0 (ackctOf packseq) _ (by omega)
  · exact straggle_balanced h pktseq _ (ackctOf packseq) 0 (by omega)

/-- **An authenticated packet** keeps the accounting. -/
theorem process_balanced {f : Flow} (h : f.Balanced) (packseq : BitVec 32) (pktseq : ℕ)
    (hmax : f.txseq ≤ maxPacketSeq) (hc : f.CoversSent packseq) :
    (f.process env packseq pktseq).Balanced := by
  have hack : (f.ackReceived env pktseq (f.ackSeq packseq) (f.ackDiff packseq)
      (ackctOf packseq)).1.Balanced := ackReceived_balanced h packseq pktseq hmax hc
  dsimp only [process]
  split_ifs
  · exact h
  · have hcc := ccReceived_balanced env hack
    exact (deliver_acts (S := still.full) (sound_still env) _ pktseq _
      fun _ => Set.mem_univ _).path.balanced (fun _ => id) not_false (hcc _ _)

end Reception

/-! ## Runs -/

/-- The packets that reach a flow: the word of an authenticated packet covers only transmitted
packets, and the flow has not run out of numbers. -/
def WordsCoverSent (f : Flow) (i : Env × Op) : Prop :=
  ∀ pkt n r, i.2 = .receive pkt → f.toRxState.accept pkt = some (n, r) →
    f.txseq ≤ maxPacketSeq ∧ f.CoversSent pkt.packseq

theorem balanced_new (chan : BitVec 8) : (Flow.new chan).Balanced := by
  refine ⟨⟨rfl, Nat.zero_lt_one, .inl rfl, rfl, rfl, rfl, rfl, fun _ _ => rfl,
    fun _ => Nat.zero_le _, fun n => ?_, fun l₁ l₂ n h => ?_⟩, fun n hn => ?_⟩
  · change 0 = 0 + ((Flow.new chan).kept.inPipe n).toNat
    cases n <;> rfl
  · cases l₁ <;> cases h
  · cases n <;> cases hn

theorem arrive_balanced {f : Flow} (h : f.Balanced) (n : ℕ) (r : RxState) :
    (f.arrive n r).Balanced := by
  obtain ⟨hA, hL⟩ := h
  have hA' := hA.note (e := .accepted n) (fun _ => rfl) (fun _ => rfl) nofun
  exact ⟨⟨hA'.len, hA'.ack, hA'.window, hA'.cnt, hA'.size, hA'.thresh, hA'.inside,
    hA'.sentBelow, hA'.sentOnce, hA'.balance, hA'.expired⟩, hL⟩

/-- **One operation**: the word of a packet that is not dropped covers only transmitted packets. -/
theorem step_balanced {env : Env} {op : Op} {f g : Flow} (hf : f.Balanced)
    (hc : ∀ pkt, op = .receive pkt → f.active = true → hdrlen ≤ pkt.size →
      ∀ a, f.toRxState.accept pkt = some a → f.ackSeq pkt.packseq < f.txseq →
        f.txseq ≤ maxPacketSeq ∧ f.CoversSent pkt.packseq)
    (h : f.step env op = some g) : g.Balanced := by
  by_cases hop : ∃ pkt, op = .receive pkt
  · obtain ⟨pkt, rfl⟩ := hop
    cases h
    unfold receive
    split_ifs with hdrop
    · exact hf
    rw [Bool.or_eq_true, not_or, Bool.not_eq_true', decide_eq_true_eq, not_lt,
      Bool.not_eq_false] at hdrop
    cases ha : f.toRxState.accept pkt with
    | none => exact hf
    | some a =>
      have hf' := arrive_balanced hf a.1 a.2
      by_cases hlt : f.ackSeq pkt.packseq < f.txseq
      · obtain ⟨hmax, hcov⟩ := hc pkt rfl hdrop.1 hdrop.2 a ha hlt
        exact process_balanced hf' pkt.packseq a.1 hmax hcov
      · have hstray : (f.arrive a.1 a.2).process env pkt.packseq a.1 = f.arrive a.1 a.2 :=
          if_pos (not_lt.mp hlt)
        dsimp only
        rw [hstray]
        exact hf'
  · rcases step_cases (fun _ => sound_still env) not_false (fun _ _ n _ _ => Set.mem_univ n)
      (.inr hf.1.len) h with hp | ⟨pkt, n, r, rfl, -⟩
    · exact hp.balanced (fun _ => id) not_false hf
    · exact absurd ⟨pkt, rfl⟩ hop

theorem balanced_of_reach {chan : BitVec 8} {f : Flow}
    (h : (flowMachine chan).Reach WordsCoverSent f) : f.Balanced := by
  refine h.invariant (balanced_new chan) ?_
  rintro f g ⟨env, op⟩ - hf hc hstep
  exact step_balanced hf (fun pkt hop _ _ a ha _ => hc pkt a.1 a.2 hop ha) hstep

end Flow

/-- **Sender accounting.** In every run whose acknowledgment words cover only transmitted packets:
the records are the last `txseq - txevtseq` numbers; the counters are the number and total size of
the records in the pipe, modulo `2 ^ 32`; no packet at or below `txackseq - missthresh` is in the
pipe, and no access strays outside the records; a data packet that was transmitted is either in
the pipe and unreported, or has left it with exactly one report; and a record expires only after
that report. -/
theorem accounting {chan : BitVec 8} {f : Flow}
    (h : (flowMachine chan).Reach Flow.WordsCoverSent f) :
    f.txevtseq + f.txevts.length = f.txseq ∧
    f.txfltcnt.toNat = f.txevts.countP TxEvent.pipe % 2 ^ 32 ∧
    f.txfltsize.toNat = pipeSize f.txevts % 2 ^ 32 ∧
    (∀ n, n + f.missthresh ≤ f.txackseq → f.kept.inPipe n = false) ∧ f.overrun = false ∧
    (∀ n, dataSent n f.log ≤ 1 ∧ dataSent n f.log = reports n f.log + (f.kept.inPipe n).toNat) ∧
    ∀ l₁ l₂ n, f.log = l₁ ++ .expire n :: l₂ → reports n l₂ = dataSent n f.log := by
  obtain ⟨hA, hL⟩ := Flow.balanced_of_reach h
  have hcnt : f.txfltcnt = _ := hA.cnt
  have hsize : f.txfltsize = _ := hA.size
  refine ⟨hA.len, ?_, ?_, fun n hn => ?_, hA.inside, fun n => ⟨hA.sentOnce n, hA.balance n⟩,
    fun l₁ l₂ n hl => (hA.expired l₁ l₂ n hl).2⟩
  · rw [hcnt]
    exact BitVec.toNat_ofNat ..
  · rw [hsize]
    exact BitVec.toNat_ofNat ..
  · refine Bool.eq_false_iff.mpr fun hin => ?_
    have : f.txackseq < n + f.missthresh := hL n hin
    omega

/-- Packet 1 is transmitted and acknowledged: one report, and nothing left in the pipe. -/
theorem accounting_acknowledged : ∃ f, (flowMachine 1#8).Reach Flow.WordsCoverSent f ∧
    f.txseq = 2 ∧ dataSent 1 f.log = 1 ∧ reports 1 f.log = 1 ∧ f.kept.inPipe 1 = false := by
  have h0 : (flowMachine 1#8).Reach Flow.WordsCoverSent (.new 1#8) := .init
  have h1 := h0.step (i := (silent, .start)) (t := (Flow.new 1#8).start silent) nofun rfl
  have h2 := h1.step (i := (silent, .call (.flowTransmit 20)))
    (t := ((Flow.new 1#8).start silent).flowTransmit 0 20) nofun rfl
  have h3 := h2.step (i := (silent, .receive ⟨seqWord 1#8 1, ackWord 0 1, some 1, 20⟩))
    (t := (((Flow.new 1#8).start silent).flowTransmit 0 20).receive silent
      ⟨seqWord 1#8 1, ackWord 0 1, some 1, 20⟩)
    (fun _ _ _ h _ => by cases h; exact ⟨by decide +kernel, by decide +kernel, by decide +kernel⟩)
      rfl
  obtain ⟨-, -, -, -, -, hb, -⟩ := accounting h3
  have hr : reports 1 ((((Flow.new 1#8).start silent).flowTransmit 0 20).receive silent
      ⟨seqWord 1#8 1, ackWord 0 1, some 1, 20⟩).log = 1 := by decide +kernel
  obtain ⟨hb1, hb2⟩ := hb 1
  rw [hr] at hb2
  refine ⟨_, h3, by decide +kernel, by omega, hr, ?_⟩
  exact Bool.toNat_eq_zero.mp (by omega)

/-- Data packets pile up in the pipe as long as nothing is received. -/
theorem reach_transmit (size k : ℕ) : ∃ f, (flowMachine 1#8).Reach Flow.WordsCoverSent f ∧
    f.rxunacked = 0 ∧ pipeSize f.txevts = k * size ∧ f.txfltsize = BitVec.ofNat 32 (k * size) := by
  induction k with
  | zero =>
    have h0 : (flowMachine 1#8).Reach Flow.WordsCoverSent (.new 1#8) := .init
    have h1 := h0.step (i := (silent, .start)) (t := (Flow.new 1#8).start silent) nofun rfl
    exact ⟨_, h1, rfl, by rw [Nat.zero_mul]; rfl, by rw [Nat.zero_mul]; rfl⟩
  | succ k ih =>
    obtain ⟨f, hf, h0, hsize, hflt⟩ := ih
    have hstep := hf.step (i := (silent, .call (.flowTransmit size)))
      (t := f.flowTransmit silent.now size) nofun rfl
    have hu : (f.check (decide (hdrlen < size))).rxunacked = 0 := h0
    have he : f.flowTransmit silent.now size =
        { (f.check (decide (hdrlen < size))).tx silent.now (ackWord f.rxackct f.rxackseq) size true
          with rtxtimer := true } := by
      dsimp only [Flow.flowTransmit]
      rw [if_pos hu]
    refine ⟨_, hstep, ?_, ?_, ?_⟩
    · rw [he]
      exact h0
    · rw [he]
      change pipeSize (f.txevts ++ [⟨size, true, true⟩]) = _
      rw [pipeSize_append, hsize, pipeSize_cons, if_pos rfl, Nat.succ_mul]
      rfl
    · rw [he]
      change f.txfltsize + BitVec.ofNat 32 size = _
      rw [hflt, ← BitVec.ofNat_add, Nat.succ_mul]

/-- The byte counter is a `quint32`: four gigabytes in flight make it zero. -/
theorem txfltsize_not_exact : ¬∀ f, (flowMachine 1#8).Reach Flow.WordsCoverSent f →
    f.txfltsize.toNat = pipeSize f.txevts := by
  intro hall
  obtain ⟨f, hf, -, hsize, hflt⟩ := reach_transmit (2 ^ 15) (2 ^ 17)
  have := hall f hf
  rw [hsize, hflt] at this
  revert this
  decide

end Sst
