import Sst.Flow.Window
import Sst.Flow.LateAck
import Sst.Flow.Bounds

/-!
# The loss response of `CC_AGGRESSIVE`

`ccMissed` clamps the window to the packets sent up to the mark without those lost since. Both
counts are `unsigned`, an acknowledgment may reach far beyond the mark, and the acknowledgments
counted since the mark may be those of older packets.

* `Flow.acknowledges`, `Flow.passed`: the packets that words acknowledge, and how many of those
  passed since the mark are not among them.
* `Flow.LossResponse`: the window after a call; `Flow.expected_iff`, `LossResponse.of_counted`.
* `AckCovered`: the acknowledgments after which the counts are right.
* **`loss_response`**: every call, in every run of these.
* **`loss_response_wraps`**: ten packets in a burst, of which the last one is acknowledged.
-/

namespace Sst

open Transition Word

namespace Flow

/-! ## The counts -/

/-- `lost` in `ccMissed`. -/
def lostCount (f : Flow) : ℤ :=
  max 0 (wrap 32 ((f.txackseq : ℤ) - f.markbase - f.markacks.toNat))

/-- `expected` in `ccMissed`. -/
def expected (f : Flow) : BitVec 32 := f.marksent - BitVec.ofInt 32 f.lostCount

theorem clampWindow_eq (f : Flow) : f.clampWindow =
    if f.expected < f.cwnd then
      { f with ssbase := f.expected, cwnd := qMax cwndMin f.expected }
    else f := rfl

/-- The packets passed since the mark, if `ackseq` was acknowledged last. -/
def sinceMark (f : Flow) (ackseq : ℕ) : List ℕ := List.range' (f.markbase + 1) (ackseq - f.markbase)

/-- The number of packets that were passed since the mark and are not among the acknowledged. -/
def passed (f : Flow) (acked : List ℕ) : ℕ :=
  (f.sinceMark f.txackseq).countP fun n => decide (n ∉ acked)

/-- Congestion control is on, in `CC_AGGRESSIVE` mode. -/
def Aggressive (f : Flow) : Prop := f.nocc = false ∧ f.ccmode = .aggressive

/-- **The response** to the loss of packet `pktseq`, when the packets `acked` have been
acknowledged: the expected count does not wrap, neither as it is computed nor with the true number
of packets passed; the window is at most that number less than `marksent`, or 2, and does not grow
unless it was below 2. -/
structure LossResponse (f : Flow) (pktseq : ℕ) (acked : List ℕ) : Prop where
  exact : (f.expected.toNat : ℤ) = f.marksent.toNat - f.lostCount
  le : f.passed acked ≤ f.marksent.toNat
  clamped : ((f.ccMissed pktseq).cwnd.toNat : ℤ) ≤
    max 2 (max 0 (f.marksent.toNat - f.passed acked))
  shrinks : (f.ccMissed pktseq).cwnd.toNat ≤ f.cwnd.toNat ∨ f.cwnd.toNat < 2

/-- An acknowledgment up to `ackseq` does not reach beyond the packet that was marked last by more
than the acknowledgments counted since, and `int` holds the packets it passes. -/
structure MarkCovers (f : Flow) (ackseq : ℕ) : Prop where
  le : ackseq ≤ f.markbase + f.marksent.toNat + f.markacks.toNat
  fits : max 0 (wrap 32 ((ackseq : ℤ) - f.markbase - f.markacks.toNat)) =
    max 0 ((ackseq : ℤ) - f.markbase - f.markacks.toNat)

/-- No more acknowledgments were counted since the mark than packets passed since are acknowledged:
those of older packets, which count too, are made up for by the packets acknowledged now. -/
def Counted (f : Flow) (ackseq : ℕ) (acked : List ℕ) : Prop :=
  f.markacks.toNat ≤ (f.sinceMark ackseq).countP fun n => decide (n ∈ acked)

instance (f : Flow) : Decidable f.Aggressive :=
  inferInstanceAs (Decidable (f.nocc = false ∧ f.ccmode = .aggressive))

theorem markCovers_iff (f : Flow) (ackseq : ℕ) : f.MarkCovers ackseq ↔
    ackseq ≤ f.markbase + f.marksent.toNat + f.markacks.toNat ∧
      max 0 (wrap 32 ((ackseq : ℤ) - f.markbase - f.markacks.toNat)) =
        max 0 ((ackseq : ℤ) - f.markbase - f.markacks.toNat) :=
  ⟨fun h => ⟨h.le, h.fits⟩, fun h => ⟨h.1, h.2⟩⟩

instance (f : Flow) (ackseq : ℕ) : Decidable (f.MarkCovers ackseq) :=
  decidable_of_iff' _ (f.markCovers_iff ackseq)

instance (f : Flow) (ackseq : ℕ) (acked : List ℕ) : Decidable (f.Counted ackseq acked) :=
  inferInstanceAs (Decidable (f.markacks.toNat ≤ _))

variable {f g k : Flow} {acked : List ℕ}

/-- **The expected count** does not wrap if and only if the mark covers the acknowledgment. -/
theorem expected_iff (f : Flow) :
    (f.expected.toNat : ℤ) = f.marksent.toNat - f.lostCount ∧
      f.lostCount = max 0 ((f.txackseq : ℤ) - f.markbase - f.markacks.toNat) ↔
    f.MarkCovers f.txackseq := by
  have hlost : f.lostCount < (2 ^ 32 : ℕ) := by
    have := wrap_lt (by decide : 0 < 32) ((f.txackseq : ℤ) - f.markbase - f.markacks.toNat)
    rw [lostCount]
    omega
  have hiff : (f.expected.toNat : ℤ) = f.marksent.toNat - f.lostCount ↔
      f.lostCount = f.lostCount ∧ f.lostCount ≤ f.marksent.toNat :=
    toNat_sub_ofInt_iff f.marksent (le_max_left _ _) hlost (le_max_left _ _)
  constructor
  · rintro ⟨h1, h2⟩
    have hle := (hiff.mp h1).2
    exact ⟨by omega, h2⟩
  · rintro ⟨h1, h2⟩
    have h2 : f.lostCount = max 0 ((f.txackseq : ℤ) - f.markbase - f.markacks.toNat) := h2
    exact ⟨hiff.mpr ⟨rfl, by omega⟩, h2⟩

theorem passed_add (f : Flow) (acked : List ℕ) :
    f.passed acked + (f.sinceMark f.txackseq).countP (fun n => decide (n ∈ acked)) =
      f.txackseq - f.markbase := by
  have h := List.length_eq_countP_add_countP (p := fun n => decide (n ∈ acked))
    (l := f.sinceMark f.txackseq)
  have hlen : (f.sinceMark f.txackseq).length = f.txackseq - f.markbase := List.length_range'
  have hnot : (f.sinceMark f.txackseq).countP (fun n => decide ¬decide (n ∈ acked) = true) =
      f.passed acked := List.countP_congr fun n _ => by simp
  rw [hlen, hnot] at h
  rw [h, Nat.add_comm]

/-- **The response is right** if the mark covers the acknowledgment and the acknowledgments counted
since are of packets passed since. -/
theorem LossResponse.of_counted (h : f.Aggressive) (pktseq : ℕ) (hm : f.MarkCovers f.txackseq)
    (hc : f.Counted f.txackseq acked) : f.LossResponse pktseq acked := by
  have hmiss : f.ccMissed pktseq = f.clampWindow := by
    rw [ccMissed, h.1, h.2]
    rfl
  obtain ⟨hex, hlost⟩ := f.expected_iff.mpr hm
  have hsum := f.passed_add acked
  have hle : (f.passed acked : ℤ) ≤ f.lostCount := by
    unfold Counted at hc
    omega
  have hnonneg : (0 : ℤ) ≤ f.expected.toNat := Int.natCast_nonneg _
  refine ⟨hex, by omega, ?_, ?_⟩
  · rw [hmiss, clampWindow_eq]
    split_ifs with hlt
    · change ((qMax cwndMin f.expected).toNat : ℤ) ≤ _
      rw [toNat_qMax, show cwndMin.toNat = 2 from rfl]
      omega
    · rw [BitVec.lt_def] at hlt
      omega
  · rw [hmiss, clampWindow_eq]
    split_ifs with hlt
    · rw [BitVec.lt_def] at hlt
      change (qMax cwndMin f.expected).toNat ≤ _ ∨ _
      rw [toNat_qMax, show cwndMin.toNat = 2 from rfl]
      omega
    · exact .inl le_rfl

/-! ## The mark during an acknowledgment -/

theorem SameMark.covers (h : SameMark f g) (ackseq : ℕ) :
    g.MarkCovers ackseq ↔ f.MarkCovers ackseq := by
  rw [markCovers_iff, markCovers_iff, h.markbase, h.markacks, h.marksent]

theorem SameMark.counted (h : SameMark f g) (ackseq : ℕ) :
    g.Counted ackseq acked ↔ f.Counted ackseq acked := by
  rw [Counted, Counted, sinceMark, sinceMark, h.markbase, h.markacks]

theorem markCovers_fresh (h1 : f.markbase = f.txackseq) (h2 : f.markacks = 0#32) :
    f.MarkCovers f.txackseq := by
  refine ⟨by omega, ?_⟩
  rw [h1, h2, show ((f.txackseq : ℤ) - f.txackseq - (0#32 : BitVec 32).toNat) = 0 by simp,
    wrap_zero]

theorem counted_fresh (ackseq : ℕ) (h : f.markacks = 0#32) : f.Counted ackseq acked := by
  rw [Counted, h]
  exact Nat.zero_le _

/-- From `f` to `g` the acknowledged number and the mode stay, and the mark stays or is set at the
acknowledged number. -/
structure Marking (f g : Flow) : Prop where
  ccmode : g.ccmode = f.ccmode
  nocc : g.nocc = f.nocc
  txackseq : g.txackseq = f.txackseq
  mark : SameMark f g ∨ g.markbase = g.txackseq ∧ g.markacks = 0#32

theorem Marking.same (h : SameMark f g) (h1 : g.ccmode = f.ccmode) (h2 : g.nocc = f.nocc)
    (h3 : g.txackseq = f.txackseq) : Marking f g := ⟨h1, h2, h3, .inl h⟩

theorem Marking.trans (h₁ : Marking f g) (h₂ : Marking g k) : Marking f k := by
  refine ⟨h₂.ccmode.trans h₁.ccmode, h₂.nocc.trans h₁.nocc, h₂.txackseq.trans h₁.txackseq, ?_⟩
  rcases h₂.mark with h2 | h2
  · refine h₁.mark.imp (fun h1 => h1.trans h2) fun h1 => ?_
    exact ⟨h2.markbase.trans (h1.1.trans h₂.txackseq.symm), h2.markacks.trans h1.2⟩
  · exact .inr h2

theorem tx_marking (f : Flow) (now : ℕ) (packseq : BitVec 32) (size : ℕ) (isdata : Bool) :
    Marking f (f.tx now packseq size isdata) := by
  refine ⟨rfl, rfl, rfl, ?_⟩
  by_cases h : f.txseq = f.markseq
  · exact .inr ⟨if_pos h, if_pos h⟩
  · exact .inl (tx_sameMark now packseq size isdata h)

theorem ccMissed_marking (f : Flow) (pktseq : ℕ) : Marking f (f.ccMissed pktseq) := by
  refine .same (ccMissed_sameMark f pktseq) ?_ (ccMissed_tuned f pktseq).nocc
    (congrArg (·.txackseq) (ccMissed_tuned f pktseq).rest)
  unfold ccMissed
  split_ifs
  · rfl
  · cases h : f.ccmode with
    | aggressive =>
      dsimp only [clampWindow]
      split_ifs <;> exact h
    | ctcp => exact h
    | fixed => exact h
    | _ =>
      dsimp only [cutWindow]
      split_ifs <;> exact h

/-- **Every action** while nothing is updated. -/
theorem Act.marking {S : ActScope} (hS : S.Idle) (h : Act S f g) : Marking f g := by
  cases h with
  | txack now ackct ackseq => exact tx_marking f now _ hdrlen false
  | data now size =>
    have ht := tx_marking f now (ackWord f.rxackct f.rxackseq) size true
    exact ⟨ht.ccmode, ht.nocc, ht.txackseq, ht.mark.imp_left fun h => ⟨h.1, h.2, h.3, h.4⟩⟩
  | cut _ seq e =>
    have ht := ccMissed_marking (f.leavePipe seq e) seq
    exact ⟨ht.ccmode, ht.nocc, ht.txackseq, ht.mark.imp_left fun h => ⟨h.1, h.2, h.3, h.4⟩⟩
  | roll ackseq m h => exact absurd h (hS.fixed ackseq)
  | expire e evts h => exact absurd h hS.expires
  | link h => exact absurd h hS.updates
  | timer h => exact absurd h hS.updates
  | grow h => exact absurd h hS.updates
  | timeout h => exact absurd h hS.updates
  | _ => exact .same ⟨rfl, rfl, rfl, rfl⟩ rfl rfl rfl

theorem Acts.marking {S : ActScope} (hS : S.Idle) (h : Acts S f g) : Marking f g :=
  h.invariant (P := Marking f) (fun _ _ hab ha => ha.trans (hab.marking hS))
    (.same .refl rfl rfl rfl)

theorem Acts.inPipe {S : ActScope} {N : ℕ} (hS : S.Idle) (h : Acts S f g) (hf : Sized N f)
    {n : ℕ} (hn : n < N) (hp : g.kept.inPipe n = true) : f.kept.inPipe n = true := by
  have hinv : Sized N g ∧ (g.kept.inPipe n = true → f.kept.inPipe n = true) := by
    refine h.invariant (P := fun g => Sized N g ∧ (g.kept.inPipe n = true →
      f.kept.inPipe n = true)) ?_ ⟨hf, id⟩
    rintro a b hab ⟨h1, h2⟩
    have hk := hab.keeps (A := Set.univ) hS (Set.subset_univ _) h1
    exact ⟨hk.sized, fun hb => h2 (hk.old n hn hb)⟩
  exact hinv.2 hp

/-! ## The calls of an acknowledgment -/

theorem mem_inferMisses {env : Env} {pktseq ackseq ackdiff newpackets : ℕ} {c : Flow × ℕ}
    (hlen : f.txevtseq + f.txevts.length = f.txseq) (hlt : ackseq < f.txseq)
    (hc : c ∈ (f.rollAcks env pktseq ackseq ackdiff newpackets).inferMisses env ackseq ackdiff
      newpackets) :
    c.2 ∈ f.lossSpan ackseq ackdiff newpackets ∧ f.kept.inPipe c.2 = true ∧
      c.1.ccmode = f.ccmode ∧ c.1.nocc = f.nocc ∧ c.1.txackseq = ackseq ∧
      (SameMark f c.1 ∨ c.1.markbase = c.1.txackseq ∧ c.1.markacks = 0#32) := by
  have hsized : Sized f.txseq (f.rollWindow ackseq (f.rolledMask ackdiff newpackets)) :=
    ⟨hlen, le_rfl⟩
  have hpipe : ∀ n, (f.rollWindow ackseq (f.rolledMask ackdiff newpackets)).kept.inPipe n =
      f.kept.inPipe n := fun _ => rfl
  have hthresh : (f.rollWindow ackseq (f.rolledMask ackdiff newpackets)).missthresh =
      f.missthresh := rfl
  have hmark : ∀ g, Marking (f.rollWindow ackseq (f.rolledMask ackdiff newpackets)) g →
      g.ccmode = f.ccmode ∧ g.nocc = f.nocc ∧ g.txackseq = ackseq ∧
        (SameMark f g ∨ g.markbase = g.txackseq ∧ g.markacks = 0#32) := fun _ hm =>
    ⟨hm.ccmode, hm.nocc, hm.txackseq, hm.mark.imp_left fun h => ⟨h.1, h.2, h.3, h.4⟩⟩
  have hroll : f.rollAcks env pktseq ackseq ackdiff newpackets =
      (f.rollWindow ackseq (f.rolledMask ackdiff newpackets)).ackRange env pktseq
        (ackseq - newpackets + 1) newpackets := rfl
  rw [hroll] at hc
  generalize f.rollWindow ackseq (f.rolledMask ackdiff newpackets) = f₁
    at hc hsized hpipe hthresh hmark
  have ha₁ := ackRange_acts (sound_exits env) not_false f₁ pktseq (ackseq - newpackets + 1)
    newpackets (.inl trivial) fun _ _ _ => Set.mem_univ _
  generalize f₁.ackRange env pktseq (ackseq - newpackets + 1) newpackets = f₂ at hc ha₁
  have hst := ha₁.still ActScope.idle_exits
  obtain ⟨i, hi, hseq, hg⟩ := mem_rangeMisses hc
  have ha := ha₁.trans (missRange_acts (sound_exits env) not_false trivial f₂
    (f₂.missseq ackseq ackdiff) i (.inl trivial) fun _ _ _ => Set.mem_univ _)
  obtain ⟨hin, e, he⟩ := missState_eq_some hg
  have hm := ha.marking ActScope.idle_exits
  generalize f₂.missRange env (f₂.missseq ackseq ackdiff) i = f₃ at ha hin he hm
  have hfrom : f₂.missseq ackseq ackdiff = f.missseq ackseq ackdiff := by
    rw [missseq, hst.missthresh, hthresh, missseq]
  have hlim : f₂.misslim ackseq newpackets = f.misslim ackseq newpackets := by
    rw [misslim, hst.missthresh, hthresh, misslim]
  rw [hfrom] at hi hseq hin
  rw [hlim] at hi
  rw [← hseq] at hin
  have hspan : c.2 ∈ f.lossSpan ackseq ackdiff newpackets :=
    ⟨hseq ▸ Nat.le_add_right _ i, hseq ▸ Nat.add_lt_add_left hi _⟩
  have hle := lossSpan_le hspan
  refine ⟨hspan, ?_, ?_⟩
  · rw [← hpipe]
    exact ha.inPipe ActScope.idle_exits hsized (show c.2 < f.txseq by omega) hin
  · rw [he]
    exact hmark _ ⟨hm.ccmode, hm.nocc, hm.txackseq, hm.mark.imp_left fun h => ⟨h.1, h.2, h.3, h.4⟩⟩

/-- **A call of `ccMissed`** during an acknowledgment: packets up to the acknowledged number were
sent, the lost packet was in flight and is in the range of inferred losses, and the mark is the old
one or was set meanwhile. -/
structure Inferred (f : Flow) (packseq : BitVec 32) (c : Flow × ℕ) : Prop where
  sent : f.ackSeq packseq < f.txseq
  lost : f.Lost packseq c.2
  inPipe : f.kept.inPipe c.2 = true
  ccmode : c.1.ccmode = f.ccmode
  nocc : c.1.nocc = f.nocc
  txackseq : c.1.txackseq = f.ackSeq packseq
  mark : SameMark f c.1 ∨ c.1.markbase = c.1.txackseq ∧ c.1.markacks = 0#32

theorem inferred_of_mem {env : Env} {packseq : BitVec 32} {pktseq : ℕ} {c : Flow × ℕ}
    (hlen : f.txevtseq + f.txevts.length = f.txseq) (hc : c ∈ f.processMisses env packseq pktseq) :
    Inferred f packseq c := by
  dsimp only [processMisses] at hc
  split_ifs at hc with hcond
  · cases hc
  obtain ⟨hlt, hd⟩ := not_or.mp hcond
  obtain ⟨hspan, hin, hmode, hnocc, hack, hmark⟩ := mem_inferMisses hlen (not_le.mp hlt) hc
  exact ⟨not_le.mp hlt, ⟨not_le.mp hd, hspan⟩, hin, hmode, hnocc, hack, hmark⟩

theorem Inferred.aggressive {packseq : BitVec 32} {c : Flow × ℕ} (h : Inferred f packseq c)
    (hc : c.1.Aggressive) : f.Aggressive :=
  ⟨h.nocc.symm.trans hc.1, h.ccmode.symm.trans hc.2⟩

theorem Inferred.expected_iff {packseq : BitVec 32} {c : Flow × ℕ} (h : Inferred f packseq c)
    (hm : SameMark f c.1) :
    (c.1.expected.toNat : ℤ) = c.1.marksent.toNat - c.1.lostCount ∧
      c.1.lostCount = max 0 ((c.1.txackseq : ℤ) - c.1.markbase - c.1.markacks.toNat) ↔
    f.MarkCovers (f.ackSeq packseq) := by
  rw [Flow.expected_iff, hm.covers, h.txackseq]

/-- A mark set meanwhile does no harm. -/
theorem Inferred.response {packseq : BitVec 32} {c : Flow × ℕ} (h : Inferred f packseq c)
    (hagg : c.1.Aggressive) (hcov : f.MarkCovers (f.ackSeq packseq))
    (hcount : f.Counted (f.ackSeq packseq) acked) : c.1.LossResponse c.2 acked := by
  rcases h.mark with hm | ⟨h1, h2⟩
  · refine .of_counted hagg c.2 ?_ ?_
    · rw [hm.covers, h.txackseq]
      exact hcov
    · rw [hm.counted, h.txackseq]
      exact hcount
  · exact .of_counted hagg c.2 (markCovers_fresh h1 h2) (counted_fresh _ h2)

theorem mem_misses {env : Env} {op : Op} {c : Flow × ℕ}
    (hlen : f.txevtseq + f.txevts.length = f.txseq) (hc : c ∈ f.misses env op) :
    ∃ pkt pktseq r, op = .receive pkt ∧ f.Authentic pkt pktseq r ∧
      Inferred f pkt.packseq c := by
  unfold misses at hc
  cases h : f.onPacket (processMisses env) op with
  | none =>
    rw [h] at hc
    cases hc
  | some l =>
    rw [h] at hc
    obtain ⟨pkt, pktseq, r, hop, hauth, rfl⟩ := onPacket_eq_some h
    obtain ⟨h1, h2, h3, h4, h5, h6, h7⟩ := inferred_of_mem (f := f.arrive pktseq r) hlen hc
    exact ⟨pkt, pktseq, r, hop, hauth, h1, h2, h3, h4, h5, h6,
      h7.imp_left fun h => ⟨h.1, h.2, h.3, h.4⟩⟩

/-- The packets that a word acknowledges, if it covers transmitted packets only. -/
def coveredSent (f : Flow) (packseq : BitVec 32) : List ℕ :=
  let ackseq := f.ackSeq packseq
  if f.txseq ≤ ackseq then []
  else List.range' (ackseq - ackctOf packseq) (min ackseq (ackctOf packseq) + 1)

/-- The packets that an operation acknowledges: those that the word of an authentic packet does. -/
def acknowledges (f : Flow) (op : Op) : List ℕ :=
  (f.onPacket (fun f packseq _ => f.coveredSent packseq) op).getD []

end Flow

/-! ## Runs -/

/-- A call of `ccMissed` for a lost packet: the state, and the packets acknowledged up to then. -/
structure Miss where
  flow : Flow
  pktseq : ℕ
  acked : List ℕ

/-- A flow with the packets that were acknowledged and the calls of `ccMissed`. -/
structure MissRun where
  flow : Flow
  acked : List ℕ := []
  misses : List Miss := []

/-- The runs of a flow, with the packets they acknowledge and the calls of `ccMissed` they make. -/
def missMachine (remoteChannel : BitVec 8) : Machine MissRun (Env × Flow.Op) where
  init := { flow := .new remoteChannel }
  step s i := (s.flow.step i.1 i.2).map fun g =>
    let acked := s.flow.acknowledges i.2 ++ s.acked
    { flow := g, acked,
      misses := (s.flow.misses i.1 i.2).map (fun c => ⟨c.1, c.2, acked⟩) ++ s.misses }

/-- An authentic acknowledgment that infers the loss of a packet in flight, in `CC_AGGRESSIVE` mode,
is covered by the mark, and the acknowledgments counted since the mark are of packets passed
since. -/
def AckCovered (s : MissRun) (i : Env × Flow.Op) : Prop :=
  s.flow.Aggressive → ∀ pkt pktseq r n, i.2 = .receive pkt → s.flow.Authentic pkt pktseq r →
    s.flow.ackSeq pkt.packseq < s.flow.txseq → s.flow.Lost pkt.packseq n →
    s.flow.kept.inPipe n = true → s.flow.MarkCovers (s.flow.ackSeq pkt.packseq) ∧
      s.flow.Counted (s.flow.ackSeq pkt.packseq) (s.flow.acknowledges i.2 ++ s.acked)

/-- **The loss response** is right at every call of `ccMissed`, in every run in which each
acknowledgment that infers a loss is covered by the mark and the acknowledgments counted since are
of packets passed since; and unless a packet is marked meanwhile, the expected count for the next
acknowledgment does not wrap if and only if it is covered by the mark. -/
theorem loss_response {chan : BitVec 8} {s : MissRun} (h : (missMachine chan).Reach AckCovered s) :
    (∀ c ∈ s.misses, c.flow.Aggressive → c.flow.LossResponse c.pktseq c.acked) ∧
      ∀ env pkt, ∀ c ∈ s.flow.misses env (.receive pkt), Flow.SameMark s.flow c.1 →
        ((c.1.expected.toNat : ℤ) = c.1.marksent.toNat - c.1.lostCount ∧
          c.1.lostCount = max 0 ((c.1.txackseq : ℤ) - c.1.markbase - c.1.markacks.toNat) ↔
        s.flow.MarkCovers (s.flow.ackSeq pkt.packseq)) := by
  have hinv : Flow.Once s.flow.kept ∧
      ∀ c ∈ s.misses, c.flow.Aggressive → c.flow.LossResponse c.pktseq c.acked := by
    refine h.invariant (P := fun s => Flow.Once s.flow.kept ∧
      ∀ c ∈ s.misses, c.flow.Aggressive → c.flow.LossResponse c.pktseq c.acked) ?_ ?_
    · exact ⟨Flow.once_of_reach (f := .new chan) .init, fun c hc => absurd hc List.not_mem_nil⟩
    · rintro s t ⟨env, op⟩ - ⟨h1, h2⟩ hcov hs
      obtain ⟨g, hg, rfl⟩ := Option.map_eq_some_iff.mp hs
      refine ⟨Flow.step_once hg h1, fun c hc hagg => ?_⟩
      rcases List.mem_append.mp hc with hc | hc
      · obtain ⟨m, hm, rfl⟩ := List.mem_map.mp hc
        obtain ⟨pkt, pktseq, r, hop, hauth, hinf⟩ := Flow.mem_misses h1.len hm
        obtain ⟨hmark, hcount⟩ := hcov (hinf.aggressive hagg) pkt pktseq r m.2 hop hauth hinf.sent
          hinf.lost hinf.inPipe
        exact hinf.response hagg hmark hcount
      · exact h2 c hc hagg
  refine ⟨hinv.2, fun env pkt c hc hm => ?_⟩
  obtain ⟨pkt', pktseq, r, hop, -, hinf⟩ := Flow.mem_misses hinv.1.len hc
  cases hop
  exact hinf.expected_iff hm

/-- A burst of `k` packets in `CC_AGGRESSIVE` mode. -/
def aggressiveBurst (k : ℕ) : List (Env × Flow.Op) :=
  (silent, .setCCMode .aggressive) :: (silent, .start) ::
    List.replicate k (silent, .call (.flowTransmit 20))

theorem aggressiveBurst_covered (k : ℕ) : ∀ i ∈ aggressiveBurst k, ∀ s, AckCovered s i := by
  intro i hi s _ pkt _ _ _ hop
  rw [aggressiveBurst, List.mem_cons, List.mem_cons] at hi
  rcases hi with rfl | rfl | hi
  · cases hop
  · cases hop
  · rw [List.eq_of_mem_replicate hi] at hop
    cases hop

/-- Of eight packets in flight at the mark, the last one is acknowledged: the window is clamped. -/
theorem loss_response_clamped : ∃ s, (missMachine 1#8).Reach AckCovered s ∧
    ∃ c ∈ s.misses, c.flow.LossResponse c.pktseq c.acked ∧ c.flow.passed c.acked = 6 ∧
      c.flow.cwnd = 3#32 ∧ (c.flow.ccMissed c.pktseq).cwnd = 2#32 := by
  have hrun : ∃ s t u v, (missMachine 1#8).run (missMachine 1#8).init
        (aggressiveBurst 8) = some s ∧
      (missMachine 1#8).step s (silent, .receive ⟨seqWord 1#8 1, ackWord 0 1, some 1, 20⟩) =
        some t ∧
      (missMachine 1#8).step t (silent, .call (.flowTransmit 20)) = some u ∧
      (missMachine 1#8).step u (silent, .receive ⟨seqWord 1#8 2, ackWord 0 8, some 2, 20⟩) =
        some v ∧
      (s.flow.MarkCovers (s.flow.ackSeq (ackWord 0 1)) ∧
        s.flow.Counted (s.flow.ackSeq (ackWord 0 1)) (s.flow.acknowledges
          (.receive ⟨seqWord 1#8 1, ackWord 0 1, some 1, 20⟩) ++ s.acked)) ∧
      (u.flow.MarkCovers (u.flow.ackSeq (ackWord 0 8)) ∧
        u.flow.Counted (u.flow.ackSeq (ackWord 0 8)) (u.flow.acknowledges
          (.receive ⟨seqWord 1#8 2, ackWord 0 8, some 2, 20⟩) ++ u.acked)) ∧
      (v.misses.any fun c => decide (c.flow.Aggressive ∧ c.flow.passed c.acked = 6 ∧
        c.flow.cwnd = 3#32 ∧ (c.flow.ccMissed c.pktseq).cwnd = 2#32)) = true :=
    ⟨_, _, _, _, rfl, rfl, rfl, rfl, by decide +kernel, by decide +kernel, by decide +kernel⟩
  obtain ⟨s, t, u, v, hs, ht, hu, hv, h1, h2, hc⟩ := hrun
  have hreach : (missMachine 1#8).Reach AckCovered v := by
    have hs' := Machine.Reach.init.extend
      (fun i hi (s : MissRun) => aggressiveBurst_covered 8 i hi s) hs
    refine .step (.step (.step hs' ?_ ht) ?_ hu) ?_ hv
    · rintro - pkt _ _ _ hop
      cases hop
      exact fun _ _ _ _ => h1
    · rintro - pkt _ _ _ hop
      cases hop
    · rintro - pkt _ _ _ hop
      cases hop
      exact fun _ _ _ _ => h2
  obtain ⟨c, hc, hcond⟩ := List.any_eq_true.mp hc
  obtain ⟨hagg, hc1, hc2⟩ := of_decide_eq_true hcond
  exact ⟨v, hreach, c, hc, (loss_response hreach).1 c hc hagg, hc1, hc2⟩

/-- **The expected count wraps**: ten packets are sent in a burst, with the mark on the first, and
the last one is acknowledged. -/
theorem loss_response_wraps : ¬∀ s, (missMachine 1#8).Reach Machine.always s →
    ∀ c ∈ s.misses, c.flow.Aggressive → c.flow.LossResponse c.pktseq c.acked := by
  intro hall
  have hrun : ∃ s, (missMachine 1#8).run (missMachine 1#8).init
      (aggressiveBurst 10 ++ [(silent, .receive ⟨seqWord 1#8 1, ackWord 0 10, some 1, 20⟩)]) =
        some s ∧
        (s.misses.any fun c => decide (c.flow.Aggressive ∧ c.flow.marksent = 1#32 ∧
          c.flow.passed c.acked = 9)) = true :=
    ⟨_, rfl, by decide +kernel⟩
  obtain ⟨s, hs, hc⟩ := hrun
  obtain ⟨c, hc, hcond⟩ := List.any_eq_true.mp hc
  obtain ⟨hagg, hsent, hpassed⟩ := of_decide_eq_true hcond
  have h := (hall s (Machine.reach_of_run hs) c hc hagg).le
  rw [hsent, hpassed] at h
  exact absurd h (by decide)

end Sst
