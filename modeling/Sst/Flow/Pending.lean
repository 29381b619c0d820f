import Sst.Flow.Duplex

/-!
# Pending acknowledgments

What `acknowledge` owes the peer: an acknowledgment is delayed behind a timer, sent alone, merged
with others into one word, or carried by a data packet.

* `Packet.covers`: the numbers that an acknowledgment word covers.
* `Flow.Words.covered`: a number that a word covers is 0 or was acknowledged.
* `Owed`: a packet was covered by a word that was sent, or it is among the packets not reported
  yet and the timer runs.
* `AckState.Run`: the shape of the current run.
* `Flow.acknowledge_settles`, `Flow.flushack_settles`, `Flow.flowTransmit_settles`: one step.
* **`ack_pending`**: no acknowledgment is forgotten.
* `ack_pending_zero`: packet number 0 is never acknowledged.
-/

namespace Sst

open Transition

/-- The acknowledgment word of the packet covers `n`. -/
def Packet.covers (pkt : Packet) (n : ℕ) : Prop :=
  n ∈ Flow.covered (pkt.packseq.toNat % 2 ^ 24) (ackctOf pkt.packseq)

/-- A packet that was sent covers `n`. -/
def CoveredIn (log : List Event) (n : ℕ) : Prop :=
  ∃ pkt isdata, .sent pkt isdata ∈ log ∧ pkt.covers n

theorem CoveredIn.mono {l l' : List Event} {n : ℕ} (h : CoveredIn l n) (hl : l ⊆ l') :
    CoveredIn l' n := by
  obtain ⟨pkt, b, hm, hc⟩ := h
  exact ⟨pkt, b, hl hm, hc⟩

/-- **What a word covers** was acknowledged. -/
theorem Flow.Words.covered {f : Flow} (h : f.Words) {n : ℕ} (hn : CoveredIn f.log n) :
    n = 0 ∨ .acknowledged n ∈ f.log := by
  obtain ⟨pkt, d, hs, hc⟩ := hn
  obtain ⟨ct, sq, hr, hw⟩ := h.words pkt d hs
  have hlt := hr.lt
  unfold Packet.covers at hc
  rw [hw, ackctOf_ackWord hr.ct, ackWord_toNat_mod, Nat.mod_eq_of_lt (by omega)] at hc
  exact hr.acked n hc

theorem covers_ackWord {ackct ackseq n : ℕ} (hct : ackct ≤ ackctMax) (hseq : ackseq < 2 ^ 16)
    (h1 : n ≤ ackseq) (h2 : ackseq ≤ n + ackct) (w : BitVec 32) (s : Option ℕ) (size : ℕ) :
    (⟨w, ackWord ackct ackseq, s, size⟩ : Packet).covers n := by
  unfold Packet.covers
  rw [ackctOf_ackWord hct, ackWord_toNat_mod, Nat.mod_eq_of_lt (by omega)]
  exact ⟨h1, h2⟩

/-- The shape of the current run. -/
structure AckState.Run (a : AckState) : Prop where
  unacked : a.rxunacked ≤ 3
  within : a.rxunacked ≤ a.rxackct
  max : a.rxackct ≤ ackctMax
  le : a.rxackct ≤ a.rxackseq
  lt : a.rxackseq < 2 ^ 16

namespace Flow

variable {f : Flow} {n : ℕ}

/-- Packet `n` is among the last packets of the run, which are not reported yet, and the timer
runs. -/
def Waiting (f : Flow) (n : ℕ) : Prop :=
  n ≤ f.rxackseq ∧ f.rxackseq < n + f.rxunacked ∧ f.acktimer.isSome

/-- The peer was told of packet `n`, or it will be. -/
def Owed (f : Flow) (n : ℕ) : Prop := CoveredIn f.log n ∨ f.Waiting n

theorem log_subset_tx (f : Flow) (now : ℕ) (w : BitVec 32) (size : ℕ) (isdata : Bool) :
    f.log ⊆ (f.tx now w size isdata).log := List.subset_cons_self _ _

/-! ## Sending an acknowledgment -/

theorem tx_covers (hf : f.Run) (hn : n ≤ f.rxackseq) (hlt : f.rxackseq ≤ n + f.rxackct)
    (now size : ℕ) (isdata : Bool) :
    CoveredIn (f.tx now (ackWord f.rxackct f.rxackseq) size isdata).log n :=
  ⟨_, isdata, List.mem_cons_self, covers_ackWord hf.max hf.lt hn hlt _ _ _⟩

theorem flushack_run (hf : f.Run) (now : ℕ) : (f.flushack now).Run := by
  unfold flushack
  split_ifs
  · exact ⟨hf.unacked, hf.within, hf.max, hf.le, hf.lt⟩
  · exact ⟨Nat.zero_le _, Nat.zero_le _, hf.max, hf.le, hf.lt⟩

theorem flushack_state (f : Flow) (now : ℕ) : (f.flushack now).rxackseq = f.rxackseq ∧
    (f.flushack now).rxackct = f.rxackct ∧ (f.flushack now).rxunacked = 0 := by
  unfold flushack
  split_ifs with h
  · exact ⟨rfl, rfl, h⟩
  · exact ⟨rfl, rfl, rfl⟩

/-- **A flush** reports every packet that waits. -/
theorem flushack_settles (hf : f.Run) (now : ℕ) (h : f.Owed n) :
    CoveredIn (f.flushack now).log n := by
  rcases h with h | ⟨h1, h2, -⟩
  · exact h.mono fun _ => flushack_log now
  · have hw := hf.within
    unfold flushack
    rw [if_neg (by omega)]
    refine tx_covers (f := { f with rxunacked := 0 })
      ⟨Nat.zero_le _, Nat.zero_le _, hf.max, hf.le, hf.lt⟩ h1 ?_ now hdrlen false
    change f.rxackseq ≤ n + f.rxackct
    omega

/-- **A data packet** reports every packet that waits. -/
theorem flowTransmit_settles (hf : f.Run) (now size : ℕ) (h : f.Owed n) :
    CoveredIn (f.flowTransmit now size).log n := by
  have key : ∀ g : Flow, g.log = f.log → g.Run → g.rxackseq = f.rxackseq →
      g.rxackct = f.rxackct →
      CoveredIn (g.tx now (ackWord f.rxackct f.rxackseq) size true).log n := by
    intro g hl hg hs hc
    rcases h with h | ⟨h1, h2, -⟩
    · exact (hl ▸ h).mono (log_subset_tx _ _ _ _ _)
    · have hw := hf.within
      rw [← hs, ← hc]
      exact tx_covers hg (hs ▸ h1) (by omega) now size true
  unfold flowTransmit
  dsimp only
  split_ifs with h0
  · exact key _ rfl hf rfl rfl
  · exact key _ rfl ⟨Nat.zero_le _, Nat.zero_le _, hf.max, hf.le, hf.lt⟩ rfl rfl

theorem flowTransmit_run (hf : f.Run) (now size : ℕ) : (f.flowTransmit now size).Run := by
  unfold flowTransmit
  dsimp only
  split_ifs
  · exact ⟨hf.unacked, hf.within, hf.max, hf.le, hf.lt⟩
  · exact ⟨Nat.zero_le _, Nat.zero_le _, hf.max, hf.le, hf.lt⟩

theorem flowTransmit_rxackseq (f : Flow) (now size : ℕ) :
    (f.flowTransmit now size).rxackseq = f.rxackseq := by
  unfold flowTransmit
  dsimp only
  split_ifs <;> rfl

/-! ## One packet is acknowledged -/

/-- What one call of `acknowledge` leaves behind: the run ends at the packet or where it was, what
was owed is owed, and a packet to be acknowledged is owed from now on. -/
structure Settled (f g : Flow) (n : ℕ) (sendack : Bool) : Prop where
  run : g.Run
  top : g.rxackseq = f.rxackseq ∨ g.rxackseq = n
  keeps : ∀ m, f.Owed m → g.Owed m
  owes : sendack = true → g.Owed n

/-- **A packet that continues the run.** -/
theorem ackContiguous_settles (hf : f.Run) (now : ℕ) (sendack : Bool) {p : BitVec 16}
    (hp : p.toNat = f.rxackseq + 1) :
    f.Settled (f.ackContiguous now p sendack) p.toNat sendack := by
  obtain ⟨hu, hw, hmax, hle, hlt⟩ := hf
  have h16 : f.rxackseq + 1 < 2 ^ 16 := hp ▸ p.isLt
  unfold ackctMax at hmax
  obtain ⟨g, hg⟩ : ∃ g : Flow, { f with
      rxackseq := p.toNat
      rxackct := min (f.rxackct + 1) ackctMax
      rxunacked := f.rxunacked + 1 } = g := ⟨_, rfl⟩
  have e1 : g.rxackseq = f.rxackseq + 1 := by rw [← hg]; exact hp
  have e2 : g.rxackct = min (f.rxackct + 1) 15 := by rw [← hg]; rfl
  have e3 : g.rxunacked = f.rxunacked + 1 := by rw [← hg]
  have e4 : g.acktimer = f.acktimer := by rw [← hg]
  have e5 : g.log = f.log := by rw [← hg]
  -- a packet that waited still waits as soon as the timer runs
  have hkeep : ∀ (k : Flow), k.log = g.log → k.rxackseq = g.rxackseq → k.rxunacked = g.rxunacked →
      (f.acktimer.isSome → k.acktimer.isSome) → ∀ m, f.Owed m → k.Owed m := by
    intro k h1 h2 h3 h4 m hm
    rcases hm with hm | ⟨h5, h6, h7⟩
    · exact .inl (h1 ▸ e5 ▸ hm)
    · exact .inr ⟨by omega, by omega, h4 h7⟩
  have hnew : ∀ (k : Flow), k.rxackseq = g.rxackseq → k.rxunacked = g.rxunacked →
      k.acktimer.isSome → k.Owed p.toNat := by
    intro k h2 h3 h4
    exact .inr ⟨by omega, by omega, h4⟩
  have hrun : ∀ (k : Flow), k.rxackseq = g.rxackseq → k.rxackct = g.rxackct →
      k.rxunacked = g.rxunacked → g.rxunacked < ackAckPackets → k.Run := by
    intro k h1 h2 h3 h4
    unfold ackAckPackets at h4
    exact ⟨by omega, by omega, by unfold ackctMax; omega, by omega, by omega⟩
  have htop : ∀ (k : Flow), k.rxackseq = g.rxackseq →
      k.rxackseq = f.rxackseq ∨ k.rxackseq = p.toNat := fun k h => .inr (by omega)
  unfold ackContiguous
  rw [hg]
  dsimp only
  split_ifs with h1 h2 h3 h4
  · rw [Bool.and_eq_true, Bool.not_eq_true', decide_eq_true_eq] at h1
    exact ⟨hrun g rfl rfl rfl h1.2, htop g rfl, hkeep g rfl rfl rfl (e4 ▸ id),
      fun h => by rw [h1.1] at h; cases h⟩
  · exact ⟨hrun _ rfl rfl rfl h2, htop _ rfl, hkeep _ rfl rfl rfl fun _ => rfl,
      fun _ => hnew _ rfl rfl rfl⟩
  · refine ⟨hrun g rfl rfl rfl h2, htop g rfl, hkeep g rfl rfl rfl (e4 ▸ id), fun _ => ?_⟩
    refine hnew g rfl rfl ?_
    rwa [Option.isNone_iff_eq_none, ← Option.not_isSome_iff_eq_none, not_not] at h4
  · exact ⟨hrun _ rfl rfl rfl h2, htop _ rfl, hkeep _ rfl rfl rfl fun _ => rfl,
      fun _ => hnew _ rfl rfl rfl⟩
  · -- the fourth packet: the whole run is sent
    have hpos : g.rxunacked ≠ 0 := by omega
    have hcov : ∀ m, m ≤ g.rxackseq → g.rxackseq ≤ m + g.rxackct →
        CoveredIn (g.flushack now).log m := by
      intro m h5 h6
      unfold flushack
      rw [if_neg hpos]
      exact ⟨_, false, List.mem_cons_self,
        covers_ackWord (by unfold ackctMax; omega) (by omega) h5 h6 _ _ _⟩
    obtain ⟨s1, s2, s3⟩ := flushack_state g now
    refine ⟨⟨by omega, by omega, by unfold ackctMax; omega, by omega, by omega⟩, htop _ s1,
      fun m hm => .inl ?_, fun _ => .inl (hcov _ (by omega) (by omega))⟩
    rcases hm with hm | ⟨h5, h6, -⟩
    · exact (e5 ▸ hm : CoveredIn g.log m).mono fun _ => flushack_log now
    · exact hcov m (by omega) (by omega)

/-- **A packet beyond a gap.** -/
theorem ackGap_settles (hf : f.Run) (now : ℕ) (sendack : Bool) (p : BitVec 16) :
    f.Settled (f.ackGap now p sendack) p.toNat sendack := by
  have hrun := flushack_run hf now
  obtain ⟨-, -, s3⟩ := flushack_state f now
  have hcov : ∀ m, f.Owed m → CoveredIn (f.flushack now).log m :=
    fun m => flushack_settles hf now
  unfold ackGap
  dsimp only
  split_ifs with h
  · refine ⟨⟨s3.trans_le (by decide), s3.trans_le (Nat.zero_le _), Nat.zero_le _, Nat.zero_le _,
      p.isLt⟩, .inr rfl, fun m hm => .inl ((hcov m hm).mono (List.subset_cons_self _ _)),
      fun _ => ?_⟩
    exact .inl ⟨_, false, List.mem_cons_self,
      covers_ackWord (Nat.zero_le _) p.isLt le_rfl (Nat.le_add_right _ _) _ _ _⟩
  · exact ⟨⟨s3.trans_le (by decide), s3.trans_le (Nat.zero_le _), Nat.zero_le _, Nat.zero_le _,
      p.isLt⟩, .inr rfl, fun m hm => .inl (hcov m hm), fun hs => absurd hs h⟩

/-- **A packet older than the run.** -/
theorem ackOld_settles (hf : f.Run) (now : ℕ) (sendack : Bool) (p : BitVec 16) :
    f.Settled (f.ackOld now p sendack) p.toNat sendack := by
  have hrun := flushack_run hf now
  obtain ⟨s1, -, -⟩ := flushack_state f now
  have hcov : ∀ m, f.Owed m → CoveredIn (f.flushack now).log m :=
    fun m => flushack_settles hf now
  unfold ackOld
  dsimp only
  split_ifs with h
  · refine ⟨⟨hrun.unacked, hrun.within, hrun.max, hrun.le, hrun.lt⟩, .inl s1,
      fun m hm => .inl ((hcov m hm).mono (List.subset_cons_self _ _)), fun _ => ?_⟩
    exact .inl ⟨_, false, List.mem_cons_self,
      covers_ackWord (Nat.zero_le _) p.isLt le_rfl (Nat.le_add_right _ _) _ _ _⟩
  · exact ⟨hrun, .inl s1, fun m hm => .inl (hcov m hm), fun hs => absurd hs h⟩

theorem Owed.logged {m : ℕ} (h : f.Owed m) (e : Event) : (f.logged e).Owed m :=
  h.imp (fun h => h.mono (List.subset_cons_self _ _)) id

/-- **One call of `acknowledge`** with a number that the run does not end at. -/
theorem acknowledge_settles (hf : f.Run) (now : ℕ) (sendack : Bool) (hn : n < 2 ^ 16)
    (hne : n ≠ f.rxackseq) : f.Settled (f.acknowledge now n sendack) n sendack := by
  have hlt := hf.lt
  have hp : (BitVec.ofNat 16 n).toNat = n := by
    rw [BitVec.toNat_ofNat, Nat.mod_eq_of_lt hn]
  have hf' : (f.logged (.acknowledged n)).Run := hf
  have hlift : ∀ g, (f.logged (.acknowledged n)).Settled g (BitVec.ofNat 16 n).toNat sendack →
      f.Settled g n sendack := by
    intro g hg
    rw [hp] at hg
    exact ⟨hg.run, hg.top, fun m hm => hg.keeps m (hm.logged _), hg.owes⟩
  have hd : Word.wrap 32 ((n : ℤ) - f.rxackseq) = n - f.rxackseq :=
    Word.wrap_eq_self (by decide) (by omega) (by omega)
  unfold acknowledge
  dsimp only
  rw [hp, hd]
  split_ifs with h1 h2 h3
  · exact hlift _ (ackContiguous_settles hf' now sendack
      (hp.trans (show n = f.rxackseq + 1 by omega)))
  · exact hlift _ (ackGap_settles hf' now sendack _)
  · exact hlift _ (ackOld_settles hf' now sendack _)
  · omega

/-! ## Runs -/

/-- A number passed to `acknowledge`, with the flag. -/
def Op.acknowledges : Op → Option (ℕ × Bool)
  | .call (.acknowledge n sendack) => some (n, sendack)
  | _ => none

/-- Calls of `acknowledge`, expirations of its timer, data transmissions, and the start of the flow,
in answer to which the upper layer acknowledges nothing. -/
def Op.Acking (env : Env) : Op → Prop
  | .call _ | .ackTimeout | .setDelayedAcks _ => True
  | .start => ∀ e n sendack, .acknowledge n sendack ∉ env.calls e
  | _ => False

/-- The calls of `acknowledge` in a run. -/
def ackCalls (l : List (Env × Op)) : List (ℕ × Bool) := l.filterMap fun i => i.2.acknowledges

/-- After the calls `l`: the shape of the run, and what is owed. -/
structure Pending (l : List (ℕ × Bool)) (f : Flow) : Prop where
  run : f.Run
  top : f.rxackseq = 0 ∨ f.rxackseq ∈ l.map Prod.fst
  owed : ∀ n, (n, true) ∈ l → f.Owed n

theorem Pending.quiet {l : List (ℕ × Bool)} {g : Flow} (h : Pending l f) (hr : g.Run)
    (hs : g.rxackseq = f.rxackseq) (ho : ∀ n, f.Owed n → g.Owed n) : Pending l g :=
  ⟨hr, hs ▸ h.top, fun n hn => ho n (h.owed n hn)⟩

theorem Pending.call {l : List (ℕ × Bool)} {c : Call} (h : Pending l f) (env : Env)
    (hc : ∀ n sendack, c ≠ .acknowledge n sendack) : Pending l (f.call env c) := by
  cases c with
  | acknowledge n sendack => exact absurd rfl (hc n sendack)
  | flowTransmit size =>
    exact h.quiet (flowTransmit_run h.run _ _) (flowTransmit_rxackseq _ _ _) fun n hn =>
      .inl (flowTransmit_settles h.run _ _ hn)
  | mayTransmit =>
    have hm : ∀ g, (f.mayTransmit env).1 = g → Pending l g := by
      intro g hg
      unfold mayTransmit at hg
      split_ifs at hg <;> subst hg <;> exact ⟨h.run, h.top, h.owed⟩
    exact hm _ rfl

/-- A report that the upper layer does not answer with an acknowledgment. -/
theorem Pending.raise {l : List (ℕ × Bool)} {env : Env} (h : Pending l f)
    (henv : ∀ e n sendack, .acknowledge n sendack ∉ env.calls e) (e : Event) :
    Pending l (f.raise env e) := by
  have hfold : ∀ (cs : List Call) (g : Flow), (∀ n sendack, .acknowledge n sendack ∉ cs) →
      Pending l g → Pending l (cs.foldl (Flow.call env) g) := by
    intro cs
    induction cs with
    | nil => exact fun g _ hg => hg
    | cons c cs ih =>
      intro g hcs hg
      refine ih _ (fun n sendack hm => hcs n sendack (List.mem_cons_of_mem _ hm)) ?_
      refine hg.call env fun n sendack hc => hcs n sendack ?_
      rw [hc]
      exact List.mem_cons_self
  exact hfold _ _ (henv e) ⟨h.run, h.top, fun n hn => (h.owed n hn).logged e⟩

theorem Pending.setLinkStatus {l : List (ℕ × Bool)} {env : Env} (h : Pending l f)
    (henv : ∀ e n sendack, .acknowledge n sendack ∉ env.calls e) (status : LinkStatus) :
    Pending l (f.setLinkStatus env status) := by
  have hset : Pending l { f with linkstat := status } := ⟨h.run, h.top, h.owed⟩
  unfold Flow.setLinkStatus
  split
  · exact hset.raise henv (.linkStatus status)
  · exact h

theorem Pending.start {l : List (ℕ × Bool)} {env : Env} (h : Pending l f)
    (henv : ∀ e n sendack, .acknowledge n sendack ∉ env.calls e) : Pending l (f.start env) := by
  have hstarted : Pending l
      { f with active := true, nocc := f.nocc || env.sockCC, rtxtimer := true } :=
    ⟨h.run, h.top, h.owed⟩
  exact (hstarted.raise henv .readyTransmit).setLinkStatus henv .up

/-- **One step.** -/
theorem Pending.step {l : List (ℕ × Bool)} {g : Flow} {env : Env} {op : Op} (h : Pending l f)
    (hop : op.Acking env) (hnew : ∀ m b, op.acknowledges = some (m, b) →
      0 < m ∧ m < 2 ^ 16 ∧ m ∉ l.map Prod.fst) (hs : f.step env op = some g) :
    Pending (l ++ op.acknowledges.toList) g := by
  cases op with
  | call c =>
    cases hs
    cases c with
    | acknowledge m sendack =>
      obtain ⟨h0, h16, hfresh⟩ := hnew m sendack rfl
      have hne : m ≠ f.rxackseq := by
        rintro rfl
        rcases h.top with ht | ht
        · omega
        · exact hfresh ht
      have hset := acknowledge_settles h.run env.now sendack h16 hne
      have hl : l ++ (Op.call (.acknowledge m sendack)).acknowledges.toList = l ++ [(m, sendack)] :=
        rfl
      rw [hl]
      refine ⟨hset.run, ?_, fun n hn => ?_⟩
      · rw [List.map_append, List.mem_append]
        change (f.acknowledge env.now m sendack).rxackseq = 0 ∨
          (f.acknowledge env.now m sendack).rxackseq ∈ _ ∨
          (f.acknowledge env.now m sendack).rxackseq ∈ _
        rcases hset.top with ht | ht
        · rw [ht]
          exact h.top.imp_right .inl
        · refine .inr (.inr ?_)
          rw [ht]
          exact List.mem_singleton_self _
      · rcases List.mem_append.1 hn with hn | hn
        · exact hset.keeps n (h.owed n hn)
        · cases List.mem_singleton.1 hn
          exact hset.owes rfl
    | flowTransmit size =>
      rw [show (Op.call (.flowTransmit size)).acknowledges.toList = [] from rfl, List.append_nil]
      exact h.call env nofun
    | mayTransmit =>
      rw [show (Op.call .mayTransmit).acknowledges.toList = [] from rfl, List.append_nil]
      exact h.call env nofun
  | start =>
    cases hs
    rw [show Op.start.acknowledges.toList = [] from rfl, List.append_nil]
    exact h.start hop
  | ackTimeout =>
    rw [show Op.ackTimeout.acknowledges.toList = [] from rfl, List.append_nil]
    change (if f.acktimer.isSome then some (f.ackTimeout env) else none) = some g at hs
    split_ifs at hs
    cases hs
    exact h.quiet (flushack_run h.run _) (flushack_state f _).1 fun n hn =>
      .inl (flushack_settles h.run _ hn)
  | setDelayedAcks enabled =>
    cases hs
    rw [show (Op.setDelayedAcks enabled).acknowledges.toList = [] from rfl, List.append_nil]
    exact ⟨⟨h.run.unacked, h.run.within, h.run.max, h.run.le, h.run.lt⟩, h.top, h.owed⟩
  | _ => exact hop.elim

theorem Pending.of_run {chan : BitVec 8} (l : List (Env × Op)) :
    ∀ {f : Flow}, (flowMachine chan).run (.new chan) l = some f → (∀ i ∈ l, i.2.Acking i.1) →
      ((ackCalls l).map Prod.fst).Nodup → (∀ m ∈ ackCalls l, 0 < m.1 ∧ m.1 < 2 ^ 16) →
      Pending (ackCalls l) f := by
  induction l using List.reverseRecOn with
  | nil =>
    rintro f h - - -
    cases h
    exact ⟨⟨Nat.zero_le _, le_rfl, Nat.zero_le _, le_rfl, Nat.two_pow_pos 16⟩, .inl rfl, nofun⟩
  | append_singleton l i ih =>
    intro g h hop hnd hrange
    obtain ⟨f, hf, hs⟩ := Machine.run_concat h
    have hl : ackCalls (l ++ [i]) = ackCalls l ++ i.2.acknowledges.toList := by
      unfold ackCalls
      rw [List.filterMap_append]
      congr 1
    rw [hl] at hnd hrange ⊢
    rw [List.map_append, List.nodup_append] at hnd
    have hp := ih hf (fun j hj => hop j (List.mem_append_left _ hj)) hnd.1
      (fun m hm => hrange m (List.mem_append_left _ hm))
    refine hp.step (hop i (List.mem_append_right _ (List.mem_singleton_self i))) ?_ hs
    intro m b hmb
    rw [hmb] at hnd hrange
    have hr := hrange (m, b) (List.mem_append_right _ (List.mem_singleton_self _))
    exact ⟨hr.1, hr.2, fun hm => hnd.2.2 m hm m (List.mem_singleton_self _) rfl⟩

end Flow

/-- **No acknowledgment is forgotten.** In every run of calls of `acknowledge` with distinct
numbers from 1 to 65535, expirations of the acknowledgment timer and data transmissions, with the
flow started at any time, every packet acknowledged with `sendack` is covered by the word of a
transmitted packet, or it lies in the current run, something is unreported, and the timer runs; at
most three packets are unreported. -/
theorem ack_pending {chan : BitVec 8} {l : List (Env × Flow.Op)} {f : Flow}
    (h : (flowMachine chan).run (.new chan) l = some f) (hop : ∀ i ∈ l, i.2.Acking i.1)
    (hnd : ((Flow.ackCalls l).map Prod.fst).Nodup)
    (hrange : ∀ m ∈ Flow.ackCalls l, 0 < m.1 ∧ m.1 < 2 ^ 16) :
    (∀ n, (n, true) ∈ Flow.ackCalls l → CoveredIn f.log n ∨
      f.rxackseq ≤ n + f.rxackct ∧ n ≤ f.rxackseq ∧ 0 < f.rxunacked ∧ f.acktimer.isSome) ∧
    f.rxunacked ≤ 3 := by
  have hp := Flow.Pending.of_run l h hop hnd hrange
  refine ⟨fun n hn => (hp.owed n hn).imp_right fun ⟨h1, h2, h3⟩ => ?_, hp.run.unacked⟩
  have := hp.run.within
  exact ⟨by omega, h1, by omega, h3⟩

/-- A flow is started, acknowledges packets 1, 3 and 2 and sends a data packet. -/
theorem ack_pending_reordered : ∃ f : Flow, (flowMachine 1#8).run (.new 1#8)
    [(silent, .start), (silent, .call (.acknowledge 1 true)),
      (silent, .call (.acknowledge 3 true)), (silent, .call (.acknowledge 2 true)),
      (silent, .call (.flowTransmit 20))] = some f ∧ f.fault = false ∧
    (CoveredIn f.log 2 ∨ f.rxackseq ≤ 2 + f.rxackct ∧ 2 ≤ f.rxackseq ∧ 0 < f.rxunacked ∧
      f.acktimer.isSome) ∧ f.rxunacked ≤ 3 := by
  refine ⟨_, rfl, by decide +kernel, ?_⟩
  have hp := ack_pending (show (flowMachine 1#8).run (.new 1#8)
    [(silent, .start), (silent, .call (.acknowledge 1 true)),
      (silent, .call (.acknowledge 3 true)), (silent, .call (.acknowledge 2 true)),
      (silent, .call (.flowTransmit 20))] = some _ from rfl) ?_ (by decide) (by decide)
  · exact ⟨hp.1 2 (by decide), hp.2⟩
  · simp only [List.forall_mem_cons]
    exact ⟨fun _ _ _ h => (nomatch h), trivial, trivial, trivial, trivial,
      fun _ h => (nomatch h)⟩

/-- Packet 0 counts as acknowledged from the start: its acknowledgment is never sent. -/
theorem ack_pending_zero : ¬∀ (chan : BitVec 8) (l : List (Env × Flow.Op)) (f : Flow),
    (flowMachine chan).run (.new chan) l = some f → (∀ i ∈ l, i.2.Acking i.1) →
    ((Flow.ackCalls l).map Prod.fst).Nodup → (∀ m ∈ Flow.ackCalls l, m.1 < 2 ^ 16) →
    ∀ n, (n, true) ∈ Flow.ackCalls l → CoveredIn f.log n ∨
      f.rxackseq ≤ n + f.rxackct ∧ n ≤ f.rxackseq ∧ 0 < f.rxunacked ∧ f.acktimer.isSome := by
  intro hall
  have h := hall 1#8 [(silent, .call (.acknowledge 0 true))] _ rfl
    (fun i hi => by cases List.mem_singleton.1 hi; trivial) (by decide) (by decide) 0 (by decide)
  rcases h with ⟨pkt, b, hm, -⟩ | ⟨-, -, h, -⟩
  · revert hm
    have hlog : (Flow.call silent (.new 1#8) (.acknowledge 0 true)).log =
        [Event.acknowledged 0] := by
      decide +kernel
    rw [hlog]
    simp
  · revert h
    decide +kernel

end Sst
