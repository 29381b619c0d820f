import Sst.Flow.Bounds

/-!
# The coverage of an acknowledgment word

A word acknowledges the packets from `ackseq - ackct` to `ackseq`. Before the straggler loop looks
at them, `Flow::receive` tests whether the `ackct` newest bits of `txackmask` are set. The word
covers `ackct + 1` packets, and not the newest ones when it is older than `txackseq`.

* `TakesEffect`: every covered packet in the window is marked and out of the pipe.
* `Heeded`: the test lets the loop run, or there is nothing to do.
* `process_mask`: the acknowledgment mask after a packet.
* **`ack_coverage`**: a word takes effect exactly if it is heeded.
-/

namespace Sst

open Transition

namespace Flow

variable {f g : Flow} {env : Env} {packseq : BitVec 32}

/-- Between `f` and `g` the word takes effect on every covered packet in the window. -/
def TakesEffect (f : Flow) (packseq : BitVec 32) (g : Flow) : Prop :=
  ∀ n, 0 < n → f.Covers packseq n → g.txackseq < n + maskBits →
    g.Marked n ∧ g.kept.inPipe n = false

/-- One of the `ackct` newest numbers up to the acknowledged one is not marked, or every covered
number in the window that is not new is marked already. -/
def Heeded (f : Flow) (packseq : BitVec 32) : Prop :=
  ¬f.Known packseq ∨ ∀ n, 0 < n → f.Covers packseq n → n ≤ f.txackseq →
    max f.txackseq (f.ackSeq packseq) < n + maskBits → f.Marked n

/-! ## The mask after a packet -/

theorem process_window (env : Env) (pktseq : ℕ) (hlt : f.ackSeq packseq < f.txseq) :
    (f.process env packseq pktseq).txackseq = (f.ackReceived env pktseq (f.ackSeq packseq)
        (f.ackDiff packseq) (ackctOf packseq)).1.txackseq ∧
      (f.process env packseq pktseq).txackmask = (f.ackReceived env pktseq (f.ackSeq packseq)
        (f.ackDiff packseq) (ackctOf packseq)).1.txackmask := by
  dsimp only [process]
  rw [if_neg (not_le.mpr hlt)]
  generalize f.ackReceived env pktseq (f.ackSeq packseq) (f.ackDiff packseq) (ackctOf packseq) = st
  obtain ⟨k, n⟩ := st
  have htuned := ccReceived_tuned k env (f.ackSeq packseq) n
  have hacts := deliver_acts (sound_calling env) (k.ccReceived env (f.ackSeq packseq) n) pktseq n
    fun _ => Set.mem_univ _
  have hseq := (hacts.still ActScope.idle_calling).txackseq
  have hmask := hacts.txackmask ActScope.idle_calling id
  exact ⟨hseq.trans (congrArg (·.txackseq) htuned.rest),
    hmask.trans (congrArg (·.txackmask) htuned.rest)⟩

/-- **The acknowledgment mask after a packet** with an inside word. -/
theorem process_mask (env : Env) (hM : Marks f) (hB : f.Balanced) (pktseq : ℕ)
    (hmax : f.txseq + 2 ^ 23 ≤ 2 ^ 64) (hlt : f.ackSeq packseq < f.txseq)
    (hin : f.Inside packseq) :
    (f.process env packseq pktseq).txackseq = max f.txackseq (f.ackSeq packseq) ∧
      ∀ b, (f.process env packseq pktseq).txackmask.getLsbD b = true ↔
        (f.maskAfter packseq).getLsbD b = true ∨ ¬f.Known packseq ∧ b < maskBits ∧
          max f.txackseq (f.ackSeq packseq) ≤ f.ackSeq packseq + b ∧
          f.ackSeq packseq + b ≤ max f.txackseq (f.ackSeq packseq) + ackctOf packseq := by
  obtain ⟨h1, h2⟩ := process_window env pktseq hlt
  obtain ⟨g, hg, -, -, -, h3, h4⟩ := ackReceived_inside env hM hB pktseq hmax hlt hin
  rw [h1, h2, hg]
  exact ⟨h3, h4⟩

theorem maskAfter_old (hseq : (f.ackSeq packseq : ℤ) = f.txackseq + f.ackDiff packseq) {n : ℕ}
    (hn : n ≤ f.txackseq) (hw : max f.txackseq (f.ackSeq packseq) < n + maskBits) :
    (f.maskAfter packseq).getLsbD (max f.txackseq (f.ackSeq packseq) - n) = true ↔
      f.Marked n := by
  have hct : ackctOf packseq ≤ 15 := ackctOf_le packseq
  unfold maskAfter Marked
  rw [and_iff_right hn]
  split_ifs with hd
  · rw [getLsbD_rolledMask f (show min (f.ackDiff packseq).toNat (ackctOf packseq + 1) <
      maskBits by unfold maskBits; omega)]
    rw [show max f.txackseq (f.ackSeq packseq) - n - (f.ackDiff packseq).toNat =
      f.txackseq - n by omega]
    constructor
    · rintro (h | ⟨-, -, h⟩)
      · omega
      · exact h
    · exact fun h => .inr ⟨by omega, by omega, h⟩
  · rw [show max f.txackseq (f.ackSeq packseq) = f.txackseq by omega]

theorem maskAfter_new (hseq : (f.ackSeq packseq : ℤ) = f.txackseq + f.ackDiff packseq) {n : ℕ}
    (hn : f.txackseq < n) (hc : f.Covers packseq n) :
    (f.maskAfter packseq).getLsbD (max f.txackseq (f.ackSeq packseq) - n) = true := by
  have hct : ackctOf packseq ≤ 15 := ackctOf_le packseq
  obtain ⟨h1, h2⟩ := hc
  have hd : 0 < f.ackDiff packseq := by omega
  rw [maskAfter, if_pos hd, getLsbD_rolledMask f (show min (f.ackDiff packseq).toNat
    (ackctOf packseq + 1) < maskBits by unfold maskBits; omega)]
  exact .inl (by omega)

/-- **An authenticated packet** whose run does not reach below packet 0. -/
theorem process_coverage (env : Env) (hM : Marks f) (hB : f.Balanced) (pktseq : ℕ)
    (hmax : f.txseq + 2 ^ 23 ≤ 2 ^ 64) (hlt : f.ackSeq packseq < f.txseq)
    (hct : ackctOf packseq ≤ f.ackSeq packseq) :
    f.TakesEffect packseq (f.process env packseq pktseq) ↔ f.Heeded packseq := by
  have hack : f.txackseq < f.txseq := hB.1.ack
  have hin : f.Inside packseq := .inr (.inl hct)
  have hseq := ackSeq_eq hack hmax hlt
  obtain ⟨h1, h2⟩ := process_mask env hM hB pktseq hmax hlt hin
  have hM' := (process_inside env hM hB pktseq hmax hin).1
  unfold TakesEffect Heeded
  rw [h1]
  constructor
  · intro h
    by_cases hk : f.Known packseq
    · refine .inr fun n hn hc hle hw => ?_
      have hm := (h n hn hc hw).1.2
      rw [h1, h2] at hm
      rcases hm with hm | ⟨hk', -⟩
      · exact (maskAfter_old hseq hle hw).mp hm
      · exact absurd hk hk'
    · exact .inl hk
  · intro h n hn hc hw
    have hmark : (f.process env packseq pktseq).Marked n := by
      have hle : n ≤ f.ackSeq packseq := hc.1
      have hle' : f.ackSeq packseq ≤ n + ackctOf packseq := hc.2
      refine ⟨by rw [h1]; exact hle.trans (le_max_right _ _), ?_⟩
      rw [h1, h2]
      rcases h with h | h
      · exact .inr ⟨h, by omega, by omega, by omega⟩
      · rcases le_or_gt n f.txackseq with hold | hnew
        · exact .inl ((maskAfter_old hseq hold hw).mpr (h n hn hc hold hw))
        · exact .inl (maskAfter_new hseq hnew hc)
    exact ⟨hmark, hM'.inPipe hmark⟩

end Flow

/-- **An acknowledgment word takes effect exactly if it is heeded.** In every run whose words are
inside, let an authentic packet arrive whose word acknowledges packets that were sent and counts
none below packet 0. Afterwards every covered packet within the last 32 numbers is marked in
`txackmask` and out of the pipe, if and only if one of the `ackct` newest numbers up to the
acknowledged one was not marked before, or every covered number that is not new was. -/
theorem ack_coverage {chan : BitVec 8} {f : Flow} {env : Env} {pkt : Packet} {pktseq : ℕ}
    {r : RxState} (h : (flowMachine chan).Reach Flow.WordsInside f)
    (ha : f.Authentic pkt pktseq r) (hmax : f.txseq + 2 ^ 23 ≤ 2 ^ 64)
    (hlt : f.ackSeq pkt.packseq < f.txseq) (hct : ackctOf pkt.packseq ≤ f.ackSeq pkt.packseq) :
    f.TakesEffect pkt.packseq (f.receive env pkt) ↔ f.Heeded pkt.packseq := by
  obtain ⟨hM, hB⟩ := Flow.inside_of_reach h
  rw [ha.receive]
  exact Flow.process_coverage (f := f.arrive pktseq r) env hM (Flow.arrive_balanced hB pktseq r)
    pktseq hmax hlt hct

/-- Packets 1 and 2 are sent. -/
def twoSent : Flow := (((Flow.new 1#8).start silent).flowTransmit 0 20).flowTransmit 0 20

theorem twoSent_reach : (flowMachine 1#8).Reach Flow.WordsInside twoSent := by
  have h0 : (flowMachine 1#8).Reach Flow.WordsInside (.new 1#8) := .init
  have h1 := h0.step (i := (silent, .start)) (t := (Flow.new 1#8).start silent) nofun rfl
  have h2 := h1.step (i := (silent, .call (.flowTransmit 20)))
    (t := ((Flow.new 1#8).start silent).flowTransmit 0 20) nofun rfl
  exact h2.step (i := (silent, .call (.flowTransmit 20))) (t := twoSent) nofun rfl

/-- A word for both packets takes effect. -/
theorem ack_coverage_both :
    twoSent.TakesEffect (ackWord 1 2)
      (twoSent.receive silent ⟨seqWord 1#8 1, ackWord 1 2, some 1, 20⟩) := by
  have ha : twoSent.Authentic ⟨seqWord 1#8 1, ackWord 1 2, some 1, 20⟩ 1 ⟨1, 3#32⟩ :=
    ⟨rfl, by decide, rfl⟩
  have hct : ackctOf (ackWord 1 2) = 1 := by decide +kernel
  have hseq : twoSent.ackSeq (ackWord 1 2) = 2 := by decide +kernel
  refine (ack_coverage twoSent_reach ha (by decide +kernel) ?_ ?_).mpr ?_
  · change twoSent.ackSeq (ackWord 1 2) < twoSent.txseq
    rw [hseq]
    decide +kernel
  · change ackctOf (ackWord 1 2) ≤ twoSent.ackSeq (ackWord 1 2)
    rw [hct, hseq]
    decide
  · refine .inr fun n hn _ hle _ => ?_
    have h0 : twoSent.txackseq = 0 := rfl
    rw [h0] at hle
    exact absurd hle (not_le.mpr hn)

/-- Packet 2 is acknowledged first, and a word for packet 1 alone has no effect. -/
theorem ack_alone_ignored : ¬∀ f env pkt pktseq r, (flowMachine 1#8).Reach Flow.WordsInside f →
    f.Authentic pkt pktseq r → f.ackSeq pkt.packseq < f.txseq →
    ackctOf pkt.packseq ≤ f.ackSeq pkt.packseq →
    f.TakesEffect pkt.packseq (f.receive env pkt) := by
  intro hall
  have h : (flowMachine 1#8).Reach Flow.WordsInside
      (twoSent.receive silent ⟨seqWord 1#8 1, ackWord 0 2, some 1, 20⟩) := by
    refine twoSent_reach.step (i := (silent, .receive ⟨seqWord 1#8 1, ackWord 0 2, some 1, 20⟩))
      (fun pkt pktseq r hpkt _ => ?_) rfl
    cases hpkt
    exact ⟨by decide +kernel, .inr (.inl (by decide +kernel))⟩
  have hsome : ((twoSent.receive silent ⟨seqWord 1#8 1, ackWord 0 2, some 1,
      20⟩).toRxState.accept ⟨seqWord 1#8 2, ackWord 0 1, some 2, 20⟩).isSome := by decide +kernel
  obtain ⟨⟨n, r⟩, hr⟩ := Option.isSome_iff_exists.mp hsome
  have := (hall _ silent ⟨seqWord 1#8 2, ackWord 0 1, some 2, 20⟩ n r h
    ⟨by decide +kernel, by decide, hr⟩ (by decide +kernel) (by decide +kernel) 1 (by decide)
    ⟨by decide +kernel, by decide +kernel⟩ (by decide +kernel)).2
  revert this
  decide +kernel

end Sst
