import Sst.Flow.Replay
import Sst.Flow.Words

/-!
# Two endpoints of a flow

The endpoints are joined by a network that loses, duplicates and reorders packets and adds packets
that no armor sealed. Each reports only what the words of the other stand for.

* `AckInv`: the words sent are right, only accepted packets were acknowledged, and packet 0 is not
  in the pipe.
* **`Flow.Micro.ackInv`**: elementary steps keep `AckInv`.
* `duplex`: the runs of two endpoints.
* **`acked_acknowledged`**: what one side reports acknowledged, the other side acknowledged.
* `acked_not_accepted`: packet 65537 is acknowledged as packet 1.
-/

namespace Sst

/-- Packet 0 is not in the pipe. -/
structure ZeroFree (f : Flow) : Prop where
  first : 0 < f.txevtseq + f.txevts.length
  zero : ∀ i e, f.txevts[i]? = some e → e.pipe = true → 0 < f.txevtseq + i

/-- The words that a flow has sent, the packets acknowledged, and the window of 16 bits. -/
structure AckInv (f : Flow) : Prop extends f.Words, ZeroFree f where
  accepted : ∀ n, .acknowledged n ∈ f.log → .accepted n ∈ f.log
  window : f.txackseq < 2 ^ 16

namespace Flow

/-- Every report of an acknowledgment is for a number in `A`. -/
def Reported (A : Set ℕ) (log : List Event) : Prop := ∀ n rxseq, .acked n rxseq ∈ log → n ∈ A

/-- What a step may do: acknowledge accepted numbers of 16 bits, move the window within 16 bits,
and report the numbers in `A`. -/
structure Within (S : Scope) (A : Set ℕ) (log : List Event) : Prop where
  calls : ∀ n ∈ S.calls, n < 2 ^ 16 ∧ .accepted n ∈ log
  rolls : ∀ n, S.rolls n → n < 2 ^ 16
  acks : ∀ n ∈ S.acks, n = 0 ∨ n ∈ A

theorem Within.mono {S : Scope} {A : Set ℕ} {l l' : List Event} (h : Within S A l)
    (hsub : l ⊆ l') : Within S A l' :=
  ⟨fun n hn => (h.calls n hn).imp_right (@hsub _), h.rolls, h.acks⟩

variable {S : Scope} {A : Set ℕ} {f g : Flow}

theorem Micro.zeroFree (hm : Micro S f g) (h : ZeroFree f) : ZeroFree g := by
  have hfirst := h.first
  cases hm with
  | tune hk =>
    have hs : g.txevtseq = f.txevtseq := congrArg Kept.txevtseq hk
    have he : g.txevts = f.txevts := congrArg Kept.txevts hk
    exact ⟨by rw [hs, he]; exact h.first, by rw [hs, he]; exact h.zero⟩
  | tx now ackct ackseq size isdata hw =>
    obtain ⟨e, he⟩ : ∃ e, (f.tx now (ackWord ackct ackseq) size isdata).txevts =
      f.txevts ++ [e] := ⟨_, rfl⟩
    refine ⟨?_, fun i e' he' hp => ?_⟩
    · change 0 < f.txevtseq + _
      rw [he, List.length_append, List.length_singleton]
      omega
    · change 0 < f.txevtseq + i
      rw [he] at he'
      by_cases hi : i < f.txevts.length
      · rw [List.getElem?_append_left hi] at he'
        exact h.zero i e' he' hp
      · omega
  | exit seq e r hs he hp hr =>
    refine ⟨?_, fun i e' he' hp' => ?_⟩
    · change 0 < f.txevtseq + (f.txevts.set _ _).length
      rw [List.length_set]
      exact h.first
    · change (f.txevts.set _ _)[i]? = some e' at he'
      rw [List.getElem?_set] at he'
      split_ifs at he' with h1 h2
      · cases he'
        cases hp'
      · exact h.zero i e' he' hp'
  | expire e evts _ he hp hlow =>
    refine ⟨?_, fun i e' he' hp' => ?_⟩
    · change 0 < f.txevtseq + 1 + evts.length
      omega
    · change 0 < f.txevtseq + 1 + i
      omega
  | _ => exact ⟨h.first, h.zero⟩

/-- **Elementary steps** report only numbers in `A`. -/
theorem Micro.reported (hm : Micro S f g) (hS : Within S A f.log) (h : ZeroFree f)
    (hA : Reported A f.log) : Reported A g.log := by
  have keep : ∀ e, (∀ n rxseq, e ≠ .acked n rxseq) → Reported A (e :: f.log) := by
    intro e he n rxseq hn
    rcases List.mem_cons.mp hn with hn | hn
    · exact absurd hn.symm (he n rxseq)
    · exact hA n rxseq hn
  cases hm with
  | tune hk =>
    rw [show g.log = f.log from congrArg Kept.log hk]
    exact hA
  | note e he => exact keep e (by rintro n rxseq rfl; exact he)
  | tx now ackct ackseq size isdata hw => exact keep _ nofun
  | acknowledged n hn => exact keep _ nofun
  | exit seq e r hs he hp hr =>
    rcases hr with ⟨hseq, rxseq, rfl⟩ | rfl
    · -- the packet is in the pipe, so it is not packet 0
      have hpos := h.zero _ e he hp
      intro n rxseq' hn
      rcases List.mem_cons.mp hn with hn | hn
      · cases hn
        exact (hS.acks seq hseq).resolve_left (by omega)
      · exact hA n rxseq' hn
    · exact keep _ nofun
  | expire e evts _ he hp hlow => exact keep _ nofun
  | _ => exact hA

/-- **Elementary steps** keep the acknowledgment invariant. -/
theorem Micro.ackInv (hm : Micro S f g) (hS : Within S A f.log) (h : AckInv f) : AckInv g := by
  refine ⟨hm.words (fun n hn => (hS.calls n hn).1) h.toWords, hm.zeroFree h.toZeroFree,
    fun n hn => ?_, ?_⟩
  · refine hm.log_subset ?_
    exact (hm.acknowledged_mem hn).elim (fun hc => (hS.calls n hc).2) (h.accepted n)
  · have hwin := h.window
    cases hm with
    | tune hk =>
      rw [show g.txackseq = f.txackseq from congrArg Kept.txackseq hk]
      exact hwin
    | roll ackseq hR => exact hS.rolls ackseq hR
    | _ => exact hwin

theorem Path.ackInv (hp : Path S f g) (hS : Within S A f.log) (h : AckInv f)
    (hA : Reported A f.log) : AckInv g ∧ Reported A g.log := by
  have key : Within S A g.log ∧ AckInv g ∧ Reported A g.log := by
    refine hp.invariant (P := fun g => Within S A g.log ∧ AckInv g ∧ Reported A g.log) ?_
      ⟨hS, h, hA⟩
    rintro g k hm ⟨h1, h2, h3⟩
    exact ⟨h1.mono hm.log_subset, hm.ackInv h1 h2, hm.reported h1 h2.toZeroFree h3⟩
  exact key.2

/-! ## The network -/

/-- The flow sent the packet. -/
def hasSent (f : Flow) (pkt : Packet) : Bool :=
  f.log.contains (.sent pkt true) || f.log.contains (.sent pkt false)

/-- The network delivers what the peer sent, any number of times in any order, and packets that
no armor sealed. -/
def deliverable (peer : Flow) : Op → Bool
  | .receive pkt => pkt.sealedAs.isNone || peer.hasSent pkt
  | _ => true

/-- Packet `n` arrives and is authenticated in this operation. -/
def Arrives (f : Flow) (op : Op) (n : ℕ) : Prop :=
  ∃ pkt r, op = .receive pkt ∧ f.toRxState.accept pkt = some (n, r)

/-- The number `n` may be passed to `acknowledge` in this operation: by the upper layer, or
by `receive` itself. -/
def Acknowledges (f : Flow) (env : Env) (op : Op) (n : ℕ) : Prop :=
  (∃ e sendack, .acknowledge n sendack ∈ env.calls e) ∨
    (∃ sendack, op = .call (.acknowledge n sendack)) ∨ env.accept n = true ∧ f.Arrives op n

end Flow

/-- The runs of two endpoints. -/
def duplex (chan : Bool → BitVec 8) :
    Transition.Machine (Bool → Flow) (Bool × Env × Flow.Op) where
  init side := .new (chan side)
  step s i :=
    if Flow.deliverable (s !i.1) i.2.2 then
      ((s i.1).step i.2.1 i.2.2).map (Function.update s i.1)
    else none

/-- The upper layer acknowledges only packets that the flow accepted. -/
def AcksAccepted (s : Bool → Flow) (i : Bool × Env × Flow.Op) : Prop :=
  ∀ n, (s i.1).Acknowledges i.2.1 i.2.2 n → .accepted n ∈ (s i.1).log ∨ (s i.1).Arrives i.2.2 n

/-- The numbers passed to `acknowledge` fit its `quint16` parameter. -/
def AcksNarrow (s : Bool → Flow) (i : Bool × Env × Flow.Op) : Prop :=
  ∀ n, (s i.1).Acknowledges i.2.1 i.2.2 n → n < 2 ^ 16

/-- Both endpoints keep the acknowledgment invariant, and each reports only what the other
acknowledged. -/
def DuplexInv (s : Bool → Flow) : Prop :=
  ∀ b, AckInv (s b) ∧ Flow.Reported {n | .acknowledged n ∈ (s !b).log} (s b).log

namespace Flow

/-- The scope of an operation, with the peer's acknowledgments `A`. -/
def peerScope (A : Set ℕ) (f : Flow) : Scope where
  acks := insert 0 A
  calls := {n | n < 2 ^ 16 ∧ .accepted n ∈ f.log}
  rolls n := n < 2 ^ 16
  expires := True
  strays := True

theorem within_peerScope (A : Set ℕ) (f : Flow) : Within (peerScope A f) A f.log :=
  ⟨fun _ hn => hn, fun _ hn => hn, fun _ hn => hn⟩

/-- **One operation** of an endpoint keeps its invariant, if an arriving word of the peer is a run
of acknowledged packets. -/
theorem step_ackInv {A : Set ℕ} {f g : Flow} {env : Env} {op : Op} (h : AckInv f)
    (hA : Reported A f.log)
    (hacc : ∀ n, f.Acknowledges env op n → .accepted n ∈ f.log ∨ f.Arrives op n)
    (hnar : ∀ n, f.Acknowledges env op n → n < 2 ^ 16)
    (hword : ∀ pkt n r, op = .receive pkt → f.toRxState.accept pkt = some (n, r) →
      ∃ ackct ackseq, ackct ≤ ackctMax ∧ ackseq < 2 ^ 16 ∧ covered ackseq ackct ⊆ insert 0 A ∧
        pkt.packseq = ackWord ackct ackseq)
    (hstep : f.step env op = some g) : AckInv g ∧ Reported A g.log := by
  have hW : Within (peerScope A f).loop A f.log := by
    obtain ⟨h1, h2, h3⟩ := within_peerScope A f
    exact ⟨h1, fun _ => False.elim, h3⟩
  have hcalls : (∀ pkt, op ≠ .receive pkt) → ∀ n, f.Acknowledges env op n →
      n ∈ (peerScope A f).calls := by
    intro hop n hn
    refine ⟨hnar n hn, (hacc n hn).resolve_right ?_⟩
    rintro ⟨pkt, r, hr, -⟩
    exact hop pkt hr
  rcases step_cases (S := (peerScope A f).loop)
    (fun hop e c hc n sendack hcn => hcalls hop n (.inl ⟨e, sendack, hcn ▸ hc⟩)) not_false
    (fun c hc n sendack hcn => hcalls (by rintro pkt rfl; cases hc) n
      (.inr (.inl ⟨sendack, hcn ▸ hc⟩))) (.inl trivial) hstep with hp | ⟨pkt, n, r, rfl, ha, rfl⟩
  · exact hp.ackInv hW h hA
  · obtain ⟨ct, sq, hct, hsq, hcov, hw⟩ := hword pkt n r rfl ha
    have harr : ∀ m, f.Arrives (.receive pkt) m → m = n := by
      rintro m ⟨pkt', r', hop, ha'⟩
      cases hop
      rw [ha] at ha'
      cases ha'
      rfl
    have hin : ∀ m, f.Acknowledges env (.receive pkt) m →
        m ∈ (peerScope A (f.arrive n r)).calls := by
      intro m hm
      refine ⟨hnar m hm, ?_⟩
      rcases hacc m hm with hl | hl
      · exact List.mem_cons_of_mem _ hl
      · rw [harr m hl]
        exact List.mem_cons_self
    have hI : AckInv (f.arrive n r) := by
      refine ⟨(h.toWords.logged (.accepted n) nofun nofun).of_eq rfl rfl rfl, ⟨h.first, h.zero⟩,
        fun m hm => List.mem_cons_of_mem _ (h.accepted m ?_), h.window⟩
      exact (List.mem_cons.mp hm).resolve_left nofun
    have hR : Reported A (f.arrive n r).log := by
      intro m rxseq hm
      rcases List.mem_cons.mp hm with hm | hm
      · cases hm
      · exact hA m rxseq hm
    have hwin : f.txackseq < 2 ^ 16 := h.window
    have hdiff : (f.arrive n r).ackDiff pkt.packseq = sq - f.txackseq := by
      rw [hw]
      change seqDiff _ (BitVec.ofNat 32 f.txackseq) = _
      exact seqDiff_ofNat (ackWord_toNat_mod ct sq) (by omega) (by omega)
    have hseq : (f.arrive n r).ackSeq pkt.packseq = sq := by
      have h1 := seqAdd_of_nonneg (show 0 ≤ (f.txackseq : ℤ) + (sq - f.txackseq) by omega)
        (by omega)
      change seqAdd f.txackseq ((f.arrive n r).ackDiff pkt.packseq) = sq
      rw [hdiff]
      omega
    have hack : ackctOf pkt.packseq = ct := by rw [hw, ackctOf_ackWord hct]
    have hp := process_acts (S := (peerScope A (f.arrive n r)).full)
      (fun e c hc m sendack hcm => hin m (.inl ⟨e, sendack, hcm ▸ hc⟩)) trivial trivial
      (ActScope.open_full _) trivial (f.arrive n r) pkt.packseq n
      (fun hen => hin n (.inr (.inr ⟨hen, pkt, r, rfl, ha⟩)))
      (fun _ => by rw [hseq]; exact hsq)
      (fun _ => by
        rw [hseq, hdiff, hack]
        refine .inr ⟨?_, hcov⟩
        change (sq : ℤ) = f.txackseq + (sq - f.txackseq)
        omega)
    exact hp.path.ackInv (within_peerScope A _) hI hR

theorem deliverable_of_sent {peer : Flow} {pkt : Packet} {isdata : Bool}
    (h : .sent pkt isdata ∈ peer.log) : deliverable peer (.receive pkt) = true := by
  rw [deliverable, hasSent, Bool.or_eq_true, Bool.or_eq_true, List.contains_iff_mem,
    List.contains_iff_mem]
  cases isdata with
  | false => exact .inr (.inr h)
  | true => exact .inr (.inl h)

/-- A packet that reaches an endpoint and authenticates was sent by the peer. -/
theorem hasSent_of_accept {f peer : Flow} {pkt : Packet} {n : ℕ} {r : RxState}
    (hd : deliverable peer (.receive pkt) = true) (ha : f.toRxState.accept pkt = some (n, r)) :
    ∃ isdata, .sent pkt isdata ∈ peer.log := by
  have hs := (accept_cases ha).1
  rw [deliverable, hs, Option.isNone_some, Bool.false_or, hasSent, Bool.or_eq_true,
    List.contains_iff_mem, List.contains_iff_mem] at hd
  rcases hd with hd | hd
  · exact ⟨true, hd⟩
  · exact ⟨false, hd⟩

end Flow

theorem ackInv_new (chan : BitVec 8) : AckInv (Flow.new chan) where
  toWords := .new chan
  accepted _ h := absurd h List.not_mem_nil
  window := Nat.two_pow_pos 16
  first := Nat.zero_lt_one
  zero i e he hp := by
    cases i with
    | zero => cases he; cases hp
    | succ i => cases he

theorem duplexInv_of_reach {chan : Bool → BitVec 8} {s : Bool → Flow}
    (h : (duplex chan).Reach (fun s i => AcksAccepted s i ∧ AcksNarrow s i) s) : DuplexInv s := by
  refine h.invariant (fun b => ⟨ackInv_new _, fun _ _ h => absurd h List.not_mem_nil⟩) ?_
  rintro s t ⟨side, env, op⟩ - hs ⟨hacc, hnar⟩ hstep
  change (if Flow.deliverable (s !side) op then
    ((s side).step env op).map (Function.update s side) else none) = some t at hstep
  split_ifs at hstep with hd
  obtain ⟨g, hg, rfl⟩ := Option.map_eq_some_iff.mp hstep
  obtain ⟨hI, hA⟩ := hs side
  obtain ⟨hI', -⟩ := hs !side
  have hword : ∀ pkt n r, op = .receive pkt → (s side).toRxState.accept pkt = some (n, r) →
      ∃ ackct ackseq, ackct ≤ ackctMax ∧ ackseq < 2 ^ 16 ∧
        Flow.covered ackseq ackct ⊆ insert 0 {n | .acknowledged n ∈ (s !side).log} ∧
        pkt.packseq = ackWord ackct ackseq := by
    rintro pkt n r rfl ha
    obtain ⟨isdata, hsent⟩ := Flow.hasSent_of_accept hd ha
    obtain ⟨ct, sq, hr, hw⟩ := hI'.words pkt isdata hsent
    exact ⟨ct, sq, hr.ct, hr.lt, hr.acked, hw⟩
  obtain ⟨hgI, hgA⟩ := Flow.step_ackInv hI hA hacc hnar hword hg
  intro b
  by_cases hb : b = side
  · subst hb
    rw [Function.update_self, Function.update_of_ne (by cases b <;> decide)]
    exact ⟨hgI, hgA⟩
  · have hb' : (!b) = side := by cases b <;> cases side <;> simp_all
    rw [Function.update_of_ne hb, hb', Function.update_self]
    refine ⟨(hs b).1, fun n rxseq hn => ?_⟩
    have := (hs b).2 n rxseq hn
    rw [hb'] at this
    exact Flow.step_log_subset hg this

/-- **No packet is reported acknowledged that the peer did not acknowledge**, in every run whose
upper layers acknowledge only accepted packets whose numbers fit the parameter of
`acknowledge`. -/
theorem acked_acknowledged {chan : Bool → BitVec 8} {s : Bool → Flow}
    (h : (duplex chan).Reach (fun s i => AcksAccepted s i ∧ AcksNarrow s i) s) (b : Bool)
    (n rxseq : ℕ) (hn : .acked n rxseq ∈ (s b).log) :
    .accepted n ∈ (s !b).log ∧ .acknowledged n ∈ (s !b).log := by
  have hinv := duplexInv_of_reach h
  have hack : .acknowledged n ∈ (s !b).log := (hinv b).2 n rxseq hn
  exact ⟨(hinv !b).1.accepted n hack, hack⟩

/-! ## Numbers that do not fit -/

namespace Flow

theorem mem_log_raise (env : Env) (f : Flow) (e : Event) : e ∈ (f.raise env e).log :=
  (raise_acts (sound_any env) f e).path.log_subset List.mem_cons_self

/-- An acknowledgment of the next packet is reported, if that packet is in the pipe. -/
theorem acked_of_process (env : Env) {f : Flow} {packseq : BitVec 32} {e : TxEvent} (pktseq : ℕ)
    (hd : f.ackDiff packseq = 1) (hs : f.ackSeq packseq = f.txackseq + 1)
    (hlt : f.txackseq + 1 < f.txseq) (hle : f.txevtseq ≤ f.txackseq + 1)
    (he : f.txevts[f.txackseq + 1 - f.txevtseq]? = some e) (hp : e.pipe = true) :
    .acked (f.txackseq + 1) pktseq ∈ (f.process env packseq pktseq).log := by
  set n := f.txackseq + 1
  have hroll : .acked n pktseq ∈ (f.rollAcks env pktseq n 1 1).log := by
    change .acked n pktseq ∈ (ackOne env pktseq { f with txackseq := n, txackmask := _ } n).log
    unfold ackOne exitPipe
    dsimp only
    rw [if_neg (not_lt.mpr hle), he]
    dsimp only
    rw [if_pos hp]
    exact mem_log_raise env _ _
  have hE := sound_any env
  have hinfer : .acked n pktseq ∈ ((f.rollAcks env pktseq n 1 1).inferLosses env n 1 1).log :=
    (inferLosses_acts hE trivial ActScope.open_any _ n 1 1).path.log_subset hroll
  have hnew : .acked n pktseq ∈ (f.ackNew env pktseq n 1 (ackctOf packseq)).1.log := by
    dsimp only [ackNew]
    rw [Nat.min_eq_left (Nat.le_add_left 1 _)]
    exact (progress_acts hE trivial trivial _).path.log_subset hinfer
  have hrec : .acked n pktseq ∈ (f.ackReceived env pktseq n 1 (ackctOf packseq)).1.log := by
    unfold ackReceived
    rw [if_pos (by decide)]
    refine (straggle_acts (S := ActScope.any.loop) hE (fun _ => id) not_false trivial pktseq _ 0 _ _
      (.inl trivial) fun _ _ _ _ => Set.mem_univ _).path.log_subset ?_
    exact hnew
  dsimp only [process]
  rw [hs, hd, if_neg (not_le.mpr hlt)]
  refine (deliver_acts hE _ pktseq _ fun _ => Set.mem_univ _).path.log_subset ?_
  rw [show (ccReceived env (f.ackReceived env pktseq n 1 (ackctOf packseq)).1 n
    (f.ackReceived env pktseq n 1 (ackctOf packseq)).2).log = _ from
    congrArg Kept.log (kept_ccReceived _ env _ _)]
  exact hrec

end Flow

/-- The sender after `k` data packets of 20 bytes. -/
structure Sender (k : ℕ) (f : Flow) : Prop where
  active : f.active = true
  rx : f.toRxState = ⟨0, 1#32⟩
  unacked : f.rxunacked = 0
  ackrun : f.rxackct = 0 ∧ f.rxackseq = 0
  chan : f.remoteChannel = 1#8
  txseq : f.txseq = k + 1
  window : f.txackseq = 0 ∧ f.txevtseq = 0
  evts : f.txevts = ⟨0, false, false⟩ :: List.replicate k ⟨20, true, true⟩
  sent : 0 < k → .sent ⟨seqWord 1#8 k, ackWord 0 0, some k, 20⟩ true ∈ f.log

theorem Sender.next {k : ℕ} {f : Flow} (h : Sender k f) :
    Sender (k + 1) (f.flowTransmit silent.now 20) := by
  have hu : (f.check (decide (hdrlen < 20))).rxunacked = 0 := h.unacked
  have he : f.flowTransmit silent.now 20 =
      { (f.check (decide (hdrlen < 20))).tx silent.now (ackWord f.rxackct f.rxackseq) 20 true
        with rtxtimer := true } := by
    dsimp only [Flow.flowTransmit]
    rw [if_pos hu]
  rw [he]
  refine ⟨h.active, h.rx, h.unacked, h.ackrun, h.chan, ?_, h.window, ?_, fun _ => ?_⟩
  · change f.txseq + 1 = k + 1 + 1
    rw [h.txseq]
  · change f.txevts ++ [⟨20, true, true⟩] = _
    rw [h.evts, List.cons_append, List.replicate_succ']
  · change _ ∈ .sent ⟨seqWord f.remoteChannel f.txseq, ackWord f.rxackct f.rxackseq,
      some f.txseq, 20⟩ true :: f.log
    rw [h.chan, h.txseq, h.ackrun.1, h.ackrun.2]
    exact List.mem_cons_self

/-- Data packet `k` of the sender. -/
def dataPkt (k : ℕ) : Packet := ⟨seqWord 1#8 k, ackWord 0 0, some k, 20⟩

/-- The acknowledgment packet of the receiver. -/
def ackPkt : Packet := ⟨seqWord 1#8 1, ackWord 1 1, some 1, 8⟩

/-- A started flow. -/
def started : Flow := (Flow.new 1#8).start silent

/-- The receiver after one packet and its acknowledgment timeout. -/
def receiver (pkt : Packet) : Flow := (started.receive silent pkt).ackTimeout silent

theorem receiver_step {pkt : Packet} (h : (started.receive silent pkt).acktimer.isSome = true) :
    (started.receive silent pkt).step silent .ackTimeout = some (receiver pkt) :=
  if_pos h

/-- Two endpoints. -/
def sides (f g : Flow) (side : Bool) : Flow := bif side then g else f

theorem duplex_init (chan : BitVec 8) :
    (duplex fun _ => chan).init = sides (.new chan) (.new chan) := by
  funext b
  cases b <;> rfl

theorem duplex_step_false {chan : Bool → BitVec 8} {f f' g : Flow} {env : Env} {op : Flow.Op}
    (hd : Flow.deliverable g op = true) (h : f.step env op = some f') :
    (duplex chan).step (sides f g) (false, env, op) = some (sides f' g) := by
  change (if Flow.deliverable g op then (f.step env op).map (Function.update (sides f g) false)
    else none) = _
  rw [if_pos hd, h, Option.map_some]
  congr 1
  funext b
  cases b <;> rfl

theorem duplex_step_true {chan : Bool → BitVec 8} {f g g' : Flow} {env : Env} {op : Flow.Op}
    (hd : Flow.deliverable f op = true) (h : g.step env op = some g') :
    (duplex chan).step (sides f g) (true, env, op) = some (sides f g') := by
  change (if Flow.deliverable f op then (g.step env op).map (Function.update (sides f g) true)
    else none) = _
  rw [if_pos hd, h, Option.map_some]
  congr 1
  funext b
  cases b <;> rfl

theorem Sender.acked {k : ℕ} {f : Flow} (h : Sender k f) (hk : 0 < k) :
    .acked 1 1 ∈ (f.receive silent ackPkt).log := by
  obtain ⟨r, hr⟩ : ∃ r, f.toRxState.accept ackPkt = some (1, r) := by
    rw [h.rx]
    exact ⟨_, rfl⟩
  have hrec : f.receive silent ackPkt = (f.arrive 1 r).process silent ackPkt.packseq 1 := by
    unfold Flow.receive
    rw [hr, h.active]
    rfl
  have ht : f.txackseq = 0 := h.window.1
  have hd : (f.arrive 1 r).ackDiff ackPkt.packseq = 1 := by
    change seqDiff _ (BitVec.ofNat 32 f.txackseq) = 1
    rw [ht]
    decide
  have hs : (f.arrive 1 r).ackSeq ackPkt.packseq = (f.arrive 1 r).txackseq + 1 := by
    change seqAdd f.txackseq ((f.arrive 1 r).ackDiff ackPkt.packseq) = f.txackseq + 1
    rw [hd, ht]
    decide
  have he : (f.arrive 1 r).txevts[(f.arrive 1 r).txackseq + 1 - (f.arrive 1 r).txevtseq]? =
      some ⟨20, true, true⟩ := by
    change f.txevts[f.txackseq + 1 - f.txevtseq]? = _
    rw [h.evts, ht, h.window.2]
    simp [hk]
  have := Flow.acked_of_process silent 1 hd hs
    (by change f.txackseq + 1 < f.txseq; rw [ht, h.txseq]; omega)
    (by change f.txevtseq ≤ f.txackseq + 1; rw [h.window.2]; omega) he rfl
  rw [hrec]
  change Event.acked (f.txackseq + 1) 1 ∈ _ at this
  rwa [ht] at this

/-- Both endpoints start, and one sends `k` data packets. -/
theorem reach_sender {C : (Bool → Flow) → Bool × Env × Flow.Op → Prop}
    (hC : ∀ s side op, (∀ n sendack, op ≠ .call (.acknowledge n sendack)) →
      (∀ pkt, op ≠ .receive pkt) → C s (side, silent, op)) (k : ℕ) :
    ∃ f, (duplex fun _ => 1#8).Reach C (sides f started) ∧ Sender k f := by
  induction k with
  | zero =>
    have h0 : (duplex fun _ => 1#8).Reach C (sides (.new 1#8) (.new 1#8)) := by
      rw [← duplex_init]
      exact .init
    have h1 := h0.step (i := (true, silent, .start)) (hC _ _ _ nofun nofun)
      (duplex_step_true rfl rfl)
    have h2 := h1.step (i := (false, silent, .start)) (hC _ _ _ nofun nofun)
      (duplex_step_false rfl rfl)
    exact ⟨_, h2, rfl, rfl, rfl, ⟨rfl, rfl⟩, rfl, rfl, ⟨rfl, rfl⟩, rfl, nofun⟩
  | succ k ih =>
    obtain ⟨f, hf, hs⟩ := ih
    have h := hf.step (i := (false, silent, .call (.flowTransmit 20))) (hC _ _ _ nofun nofun)
      (duplex_step_false rfl rfl)
    exact ⟨_, h, hs.next⟩

/-- Packet `k` arrives, is acknowledged after a delay, and the acknowledgment arrives. -/
theorem reach_acked {C : (Bool → Flow) → Bool × Env × Flow.Op → Prop}
    (hC : ∀ s side op, (∀ n sendack, op ≠ .call (.acknowledge n sendack)) →
      (∀ pkt, op ≠ .receive pkt) → C s (side, silent, op)) {k : ℕ} (hk : 0 < k) {g g' : Flow}
    (hrecv : ∀ f, C (sides f started) (true, silent, .receive (dataPkt k)))
    (hack : ∀ f, C (sides f g') (false, silent, .receive ackPkt))
    (hg : started.step silent (.receive (dataPkt k)) = some g)
    (hg' : g.step silent .ackTimeout = some g') (hsent : .sent ackPkt false ∈ g'.log) :
    ∃ s, (duplex fun _ => 1#8).Reach C s ∧ .acked 1 1 ∈ (s false).log ∧ s true = g' := by
  obtain ⟨f, hf, hs⟩ := reach_sender hC k
  have h1 := hf.step (hrecv f) (duplex_step_true (Flow.deliverable_of_sent (hs.sent hk)) hg)
  have h2 := h1.step (i := (true, silent, .ackTimeout)) (hC _ _ _ nofun nofun)
    (duplex_step_true rfl hg')
  have h3 := h2.step (hack f) (duplex_step_false (Flow.deliverable_of_sent hsent) rfl)
  exact ⟨_, h3, hs.acked hk, rfl⟩

theorem acknowledges_silent {f : Flow} {op : Flow.Op} {n : ℕ}
    (hop : ∀ n sendack, op ≠ .call (.acknowledge n sendack)) (h : f.Acknowledges silent op n) :
    f.Arrives op n := by
  rcases h with ⟨e, sendack, h⟩ | ⟨sendack, h⟩ | ⟨-, h⟩
  · cases h
  · exact absurd h (hop n sendack)
  · exact h

theorem arrives_sealedAs {f : Flow} {pkt : Packet} {n : ℕ} (h : f.Arrives (.receive pkt) n) :
    pkt.sealedAs = some n := by
  obtain ⟨pkt', r, hop, ha⟩ := h
  cases hop
  exact (Flow.accept_cases ha).1

/-- Packet 1 is acknowledged, and so it was accepted. -/
theorem acked_acknowledged_one : ∃ s, (duplex fun _ => 1#8).Reach
    (fun s i => AcksAccepted s i ∧ AcksNarrow s i) s ∧ .acked 1 1 ∈ (s false).log ∧
    .accepted 1 ∈ (s true).log ∧ .acknowledged 1 ∈ (s true).log := by
  have hC : ∀ (s : Bool → Flow) side pkt, pkt.sealedAs = some 1 →
      AcksAccepted s (side, silent, .receive pkt) ∧ AcksNarrow s (side, silent, .receive pkt) := by
    intro s side pkt hpkt
    refine ⟨fun n hn => .inr (acknowledges_silent nofun hn), fun n hn => ?_⟩
    have := arrives_sealedAs (acknowledges_silent nofun hn)
    rw [hpkt] at this
    cases this
    decide
  obtain ⟨s, hs, hacked, -⟩ := reach_acked (C := fun s i => AcksAccepted s i ∧ AcksNarrow s i)
    (k := 1) (fun s side op h1 h2 => by
      have hno : ∀ n, ¬(s side).Acknowledges silent op n := by
        intro n hn
        obtain ⟨pkt, r, hop, -⟩ := acknowledges_silent h1 hn
        exact h2 pkt hop
      exact ⟨fun n hn => absurd hn (hno n), fun n hn => absurd hn (hno n)⟩)
    Nat.one_pos (fun f => hC _ _ _ rfl) (fun f => hC _ _ _ rfl) rfl
    (receiver_step (by decide +kernel)) (by decide +kernel)
  obtain ⟨h1, h2⟩ := acked_acknowledged hs false 1 1 hacked
  exact ⟨s, hs, hacked, h1, h2⟩

/-- Packet 65537 is acknowledged as packet 1, which the receiver never saw. -/
theorem acked_not_accepted : ¬∀ s, (duplex fun _ => 1#8).Reach AcksAccepted s →
    ∀ n rxseq, .acked n rxseq ∈ (s false).log →
      .accepted n ∈ (s true).log ∧ .acknowledged n ∈ (s true).log := by
  intro hall
  obtain ⟨s, hs, hacked, hrecv⟩ := reach_acked (C := AcksAccepted) (k := 65537)
    (fun s side op h1 _ n hn => .inr (acknowledges_silent h1 hn)) (by decide)
    (fun f n hn => .inr (acknowledges_silent nofun hn))
    (fun f n hn => .inr (acknowledges_silent nofun hn)) rfl
    (receiver_step (by decide +kernel)) (by decide +kernel)
  have := (hall s hs 1 1 hacked).1
  rw [hrecv] at this
  revert this
  decide +kernel

end Sst
