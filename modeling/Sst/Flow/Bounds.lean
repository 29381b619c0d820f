import Sst.Flow.Timer

/-!
# Accesses to the transmit records

The loops of `Flow::receive` index the transmit records by differences of sequence numbers. An
acknowledgment word whose run reaches below packet 0 sends the straggler loop outside the records,
since nothing compares the count with the acknowledged number.

* `Marked`, `Marks`: what `txackmask` says, and that no marked packet is in the pipe.
* `straggle_marks`, `ackNew_marks`: the loops of `receive` keep it.
* `Known`, `Inside`: the words for which the straggler loop is skipped, or stays inside.
* `straggle_outside`: the words for which it does not.
* **`access_inside`**: the accesses of `receive` are inside exactly for inside words.
-/

namespace Sst

open Transition Window

namespace Flow

/-! ## The acknowledgment mask -/

/-- Packet `n` is marked in `txackmask`. -/
def Marked (f : Flow) (n : ℕ) : Prop :=
  n ≤ f.txackseq ∧ f.txackmask.getLsbD (f.txackseq - n) = true

/-- The marks of `txackmask` stand for packets that are not in the pipe. -/
def Marks (f : Flow) : Prop := ∀ bit, f.txackmask.getLsbD bit = true →
  bit ≤ f.txackseq ∧ f.kept.inPipe (f.txackseq - bit) = false

variable {N : ℕ} {A : Set ℕ} {f g : Flow} {env : Env}

theorem Marks.inPipe (hM : Marks f) {n : ℕ} (hn : f.Marked n) : f.kept.inPipe n = false := by
  have := (hM _ hn.2).2
  rwa [Nat.sub_sub_self hn.1] at this

theorem marks_new (chan : BitVec 8) : Marks (Flow.new chan) := by
  intro bit hbit
  change (1#32).getLsbD bit = true at hbit
  rw [BitVec.getLsbD_one, Bool.and_eq_true, decide_eq_true_eq, decide_eq_true_eq] at hbit
  obtain ⟨-, rfl⟩ := hbit
  exact ⟨le_rfl, rfl⟩

theorem Marks.keeps (hM : Marks f) (h : Keeps N A f g) (hack : f.txackseq < N)
    (hseq : g.txackseq = f.txackseq) (hmask : g.txackmask = f.txackmask) : Marks g := by
  intro bit hbit
  rw [hmask] at hbit
  obtain ⟨h1, h2⟩ := hM bit hbit
  rw [hseq]
  refine ⟨h1, Bool.eq_false_iff.mpr fun hin => ?_⟩
  cases (h.old _ ((Nat.sub_le _ _).trans_lt hack) hin).symm.trans h2

/-! ## The straggler loop -/

theorem straggleOne_marks (env : Env) (hM : Marks f) (hf : Sized N f) (hack : f.txackseq < N)
    (pktseq newpackets : ℕ) {bit : ℕ} (hbit : bit < maskBits → bit ≤ f.txackseq) :
    Marks (straggleOne env pktseq (f, newpackets) bit).1 ∧
      Sized N (straggleOne env pktseq (f, newpackets) bit).1 ∧
      (straggleOne env pktseq (f, newpackets) bit).1.txackseq = f.txackseq ∧
      ∀ b, (straggleOne env pktseq (f, newpackets) bit).1.txackmask.getLsbD b = true ↔
        f.txackmask.getLsbD b = true ∨ b < maskBits ∧ b = bit := by
  dsimp only [straggleOne]
  split_ifs with h1 h2 h3
  · exact ⟨hM, hf, rfl, fun b => ⟨.inl, fun h => h.elim id fun h => by omega⟩⟩
  · have hset := (and_one_shiftLeft_ne_zero (not_le.mp h1)).mp h2
    exact ⟨hM, hf, rfl, fun b => ⟨.inl, fun h => h.elim id fun h => h.2 ▸ hset⟩⟩
  · exact absurd h3 (not_lt.mpr (hbit (not_le.mp h1)))
  · have hle := not_lt.mp h3
    have hlt : f.txackseq - bit < N := (Nat.sub_le _ _).trans_lt hack
    set f₁ : Flow := { f with txackmask := f.txackmask ||| 1#32 <<< bit }
    have hf₁ : Sized N f₁ := ⟨hf.len, hf.le⟩
    have hturn : Turn N (f.txackseq - bit) _ f₁ (f₁.ackOne env pktseq (f.txackseq - bit)) :=
      ackOne_turn hlt pktseq hf₁
    have hacts : Acts .exits f₁ (f₁.ackOne env pktseq (f.txackseq - bit)) :=
      ackOne_acts (sound_exits env) pktseq _ (.inl trivial) (Set.mem_univ _)
    have hseq := (hacts.still ActScope.idle_exits).txackseq
    have hbits : ∀ b, (f₁.ackOne env pktseq (f.txackseq - bit)).txackmask.getLsbD b = true ↔
        f.txackmask.getLsbD b = true ∨ b < maskBits ∧ b = bit := by
      intro b
      rw [hacts.txackmask ActScope.idle_exits id]
      change (f.txackmask ||| 1#32 <<< bit).getLsbD b = true ↔ _
      rw [BitVec.getLsbD_or, getLsbD_one_shiftLeft (w := 32) (not_le.mp h1), Bool.or_eq_true,
        decide_eq_true_eq]
      refine or_congr_right ⟨fun h => ⟨h ▸ not_le.mp h1, h⟩, And.right⟩
    refine ⟨fun b hb => ?_, hturn.keeps.sized, hseq, hbits⟩
    rw [hseq]
    rcases (hbits b).mp hb with hb | ⟨-, rfl⟩
    · obtain ⟨h4, h5⟩ := hM b hb
      refine ⟨h4, Bool.eq_false_iff.mpr fun hin => ?_⟩
      have hold := hturn.keeps.old _ ((Nat.sub_le _ _).trans_lt hack) hin
      cases h5.symm.trans hold
    · exact ⟨hle, hturn.out⟩

/-- **The straggler loop inside the records** marks what the word covers. -/
theorem straggle_marks (env : Env) (hM : Marks f) (hf : Sized N f) (hack : f.txackseq < N)
    (packseq : BitVec 32) (pktseq back newpackets : ℕ)
    (hb : f.txackmask &&& countMask packseq = countMask packseq ∨
      ∀ bit, back ≤ bit → bit ≤ back + ackctOf packseq → bit < maskBits → bit ≤ f.txackseq) :
    Marks (f.straggle env pktseq back (ackctOf packseq) newpackets).1 ∧
      Sized N (f.straggle env pktseq back (ackctOf packseq) newpackets).1 ∧
      (f.straggle env pktseq back (ackctOf packseq) newpackets).1.txackseq = f.txackseq ∧
      ∀ b, (f.straggle env pktseq back (ackctOf packseq) newpackets).1.txackmask.getLsbD b = true ↔
        f.txackmask.getLsbD b = true ∨ ¬f.txackmask &&& countMask packseq = countMask packseq ∧
          b < maskBits ∧ back ≤ b ∧ b ≤ back + ackctOf packseq := by
  by_cases hk : f.txackmask &&& countMask packseq = countMask packseq
  · rw [straggle_known hk]
    exact ⟨hM, hf, rfl, fun b => ⟨.inl, fun h => h.elim id fun h => absurd hk h.1⟩⟩
  have key : ∀ (l : List ℕ) (st : Flow × ℕ), Marks st.1 → Sized N st.1 →
      st.1.txackseq = f.txackseq → (∀ bit ∈ l, bit < maskBits → bit ≤ f.txackseq) →
      Marks (l.foldl (straggleOne env pktseq) st).1 ∧
        Sized N (l.foldl (straggleOne env pktseq) st).1 ∧
        (l.foldl (straggleOne env pktseq) st).1.txackseq = f.txackseq ∧
        ∀ b, (l.foldl (straggleOne env pktseq) st).1.txackmask.getLsbD b = true ↔
          st.1.txackmask.getLsbD b = true ∨ b < maskBits ∧ b ∈ l := by
    intro l
    induction l with
    | nil => exact fun st h1 h2 h3 _ => ⟨h1, h2, h3, fun b => by simp⟩
    | cons bit l ih =>
      rintro ⟨k, n⟩ h1 h2 h3 h4
      replace h3 : k.txackseq = f.txackseq := h3
      obtain ⟨h5, h6, h7, h8⟩ := straggleOne_marks env h1 h2 (h3 ▸ hack) pktseq n
        (h3 ▸ h4 bit List.mem_cons_self)
      obtain ⟨h9, h10, h11, h12⟩ := ih _ h5 h6 (h7.trans h3)
        fun b hb => h4 b (List.mem_cons_of_mem _ hb)
      refine ⟨h9, h10, h11, fun b => ?_⟩
      rw [List.foldl_cons, h12, h8, List.mem_cons, or_assoc, ← and_or_left]
  have h := key (List.range' back (ackctOf packseq + 1)) (f, newpackets) hM hf rfl
    fun bit hbit hlt => by
      obtain ⟨h1, h2⟩ := List.mem_range'_1.mp hbit
      exact hb.resolve_left hk bit h1 (by omega) hlt
  have heq : f.straggle env pktseq back (ackctOf packseq) newpackets =
      (List.range' back (ackctOf packseq + 1)).foldl (straggleOne env pktseq) (f, newpackets) :=
    if_pos hk
  rw [heq]
  refine ⟨h.1, h.2.1, h.2.2.1, fun b => (h.2.2.2 b).trans (or_congr_right ?_)⟩
  rw [List.mem_range'_1]
  constructor
  · rintro ⟨h1, h2, h3⟩
    exact ⟨hk, h1, h2, by omega⟩
  · rintro ⟨-, h1, h2, h3⟩
    exact ⟨h1, h2, by omega⟩

/-! ## New acknowledgments -/

theorem getLsbD_rolledMask (f : Flow) {ackdiff newpackets : ℕ} (hn : newpackets < maskBits)
    (i : ℕ) : (f.rolledMask ackdiff newpackets).getLsbD i = true ↔
      i < newpackets ∨ i < maskBits ∧ ackdiff ≤ i ∧ f.txackmask.getLsbD (i - ackdiff) = true := by
  rw [rolledMask, BitVec.getLsbD_or, getLsbD_low (w := 32) hn, Bool.or_eq_true,
    decide_eq_true_eq, or_comm]
  refine or_congr_right ?_
  split_ifs with h
  · rw [BitVec.getLsbD_shiftLeft, Bool.and_eq_true, Bool.and_eq_true, Bool.not_eq_true',
      decide_eq_true_eq, decide_eq_false_iff_not, not_lt, and_assoc]
    rfl
  · rw [BitVec.getLsbD_zero]
    refine iff_of_false Bool.false_ne_true ?_
    rintro ⟨h1, h2, -⟩
    omega

/-- **New acknowledgments** are marked, and the old marks roll with the window. -/
theorem ackNew_marks (env : Env) (hM : Marks f) (hB : f.Balanced) (pktseq ackseq ackdiff ackct : ℕ)
    (hd0 : 0 < ackdiff) (hd : ackseq = f.txackseq + ackdiff) (hlt : ackseq < f.txseq)
    (hct : ackct ≤ ackctMax) :
    Marks (f.ackNew env pktseq ackseq ackdiff ackct).1 ∧
      Sized f.txseq (f.ackNew env pktseq ackseq ackdiff ackct).1 ∧
      (f.ackNew env pktseq ackseq ackdiff ackct).1.txackmask =
        f.rolledMask ackdiff (min ackdiff (ackct + 1)) := by
  have hf : Sized f.txseq f := ⟨hB.1.len, le_rfl⟩
  have hnew : NewAcked f.txseq env pktseq ackseq ackdiff (min ackdiff (ackct + 1)) f
      (f.ackNew env pktseq ackseq ackdiff ackct).1 :=
    ackNew_turns hB hf pktseq ackseq ackdiff ackct hd0 hd hlt
  have hseq := (ackNew_balanced env hB pktseq ackseq ackdiff ackct hd0 hd hlt).2
  unfold ackctMax at hct
  refine ⟨fun bit hbit => ?_, hnew.sized, hnew.mask⟩
  rw [hnew.mask, getLsbD_rolledMask f (by unfold maskBits; omega)] at hbit
  rw [hseq]
  rcases hbit with hbit | ⟨-, h1, h2⟩
  · refine ⟨by omega, Bool.eq_false_iff.mpr fun hin => ?_⟩
    exact (hnew.old _ (by omega) hin).2.1 ⟨by omega, by omega⟩
  · obtain ⟨h3, h4⟩ := hM _ h2
    refine ⟨by omega, Bool.eq_false_iff.mpr fun hin => ?_⟩
    have hold := (hnew.old _ (by omega) hin).1
    rw [show ackseq - bit = f.txackseq - (bit - ackdiff) by omega, h4] at hold
    cases hold

/-! ## Words that stay inside -/

/-- The `ackct` newest numbers up to the acknowledged one are marked already, so that the straggler
loop is skipped. -/
def Known (f : Flow) (packseq : BitVec 32) : Prop :=
  ∀ bit, bit + (f.ackDiff packseq).toNat < ackctOf packseq → f.txackmask.getLsbD bit = true

/-- A word that keeps `receive` inside the transmit records: it acknowledges a packet not sent yet
and is dropped, its run does not reach below packet 0, the window does not, or the straggler loop
is skipped. -/
def Inside (f : Flow) (packseq : BitVec 32) : Prop :=
  f.txseq ≤ f.ackSeq packseq ∨ ackctOf packseq ≤ f.ackSeq packseq ∨
    maskBits ≤ max f.txackseq (f.ackSeq packseq) + 1 ∨ f.Known packseq

theorem known_iff (f : Flow) (packseq : BitVec 32) :
    f.maskAfter packseq &&& countMask packseq = countMask packseq ↔ f.Known packseq := by
  have hct : ackctOf packseq ≤ 15 := ackctOf_le packseq
  unfold countMask
  rw [and_eq_right_iff]
  simp only [getLsbD_low (show ackctOf packseq < 32 by omega), decide_eq_true_eq]
  unfold maskAfter Known
  split_ifs with hd
  · simp only [getLsbD_rolledMask f (show min (f.ackDiff packseq).toNat (ackctOf packseq + 1) <
      maskBits by unfold maskBits; omega)]
    constructor
    · intro h bit hbit
      rcases h _ hbit with h1 | ⟨-, -, h1⟩
      · omega
      · rwa [Nat.add_sub_cancel] at h1
    · intro h i hi
      by_cases hlt : i < (f.ackDiff packseq).toNat
      · exact .inl (by omega)
      · refine .inr ⟨by unfold maskBits; omega, not_lt.mp hlt, h _ (by omega)⟩
  · rw [Int.toNat_of_nonpos (not_lt.mp hd)]
    exact Iff.rfl

/-- A word for a packet that was sent, while the numbers have not run out. -/
theorem ackSeq_eq (hack : f.txackseq < f.txseq) (hmax : f.txseq + 2 ^ 23 ≤ 2 ^ 64)
    {packseq : BitVec 32} (hlt : f.ackSeq packseq < f.txseq) :
    (f.ackSeq packseq : ℤ) = f.txackseq + f.ackDiff packseq := by
  have h1 : f.ackDiff packseq < 2 ^ 23 := seqDiff_lt _ _
  have h2 : -2 ^ 23 ≤ f.ackDiff packseq := Word.le_sdiff (by decide) _ _
  unfold ackSeq seqAdd at hlt ⊢
  omega

/-- The acknowledged number becomes `txackseq`, or lies behind it. -/
structure AckBlock (f : Flow) (packseq : BitVec 32) (g : Flow) : Prop where
  marks : Marks g
  sized : Sized f.txseq g
  balanced : g.Balanced
  txackseq : g.txackseq = max f.txackseq (f.ackSeq packseq)
  txackmask : g.txackmask = f.maskAfter packseq

/-- **The acknowledgment part of `receive`** is the straggler block, after new acknowledgments. -/
theorem ackReceived_block (env : Env) (hM : Marks f) (hB : f.Balanced) {packseq : BitVec 32}
    (pktseq : ℕ)
    (hseq : (f.ackSeq packseq : ℤ) = f.txackseq + f.ackDiff packseq)
    (hlt : f.ackSeq packseq < f.txseq) :
    ∃ g newpackets, AckBlock f packseq g ∧
      f.ackReceived env pktseq (f.ackSeq packseq) (f.ackDiff packseq) (ackctOf packseq) =
        g.straggle env pktseq (max f.txackseq (f.ackSeq packseq) - f.ackSeq packseq)
          (ackctOf packseq) newpackets := by
  unfold ackReceived
  split_ifs with hd
  · have hd' : f.ackSeq packseq = f.txackseq + (f.ackDiff packseq).toNat := by omega
    obtain ⟨h1, h2, h3⟩ := ackNew_marks env hM hB pktseq (f.ackSeq packseq)
      (f.ackDiff packseq).toNat (ackctOf packseq) (by omega) hd' hlt (ackctOf_le _)
    obtain ⟨h4, h5⟩ := ackNew_balanced env hB pktseq (f.ackSeq packseq)
      (f.ackDiff packseq).toNat (ackctOf packseq) (by omega) hd' hlt
    have htop : max f.txackseq (f.ackSeq packseq) = f.ackSeq packseq := by omega
    rw [htop, Nat.sub_self]
    refine ⟨_, _, ⟨h1, h2, h4, h5.trans htop.symm, ?_⟩, rfl⟩
    rw [h3, maskAfter, if_pos hd]
  · have htop : max f.txackseq (f.ackSeq packseq) = f.txackseq := by omega
    have hback : (-f.ackDiff packseq).toNat =
        max f.txackseq (f.ackSeq packseq) - f.ackSeq packseq := by omega
    rw [hback]
    exact ⟨f, 0, ⟨hM, ⟨hB.1.len, le_rfl⟩, hB, htop.symm, (if_neg hd).symm⟩, rfl⟩

theorem ackReceived_inside (env : Env) (hM : Marks f) (hB : f.Balanced) {packseq : BitVec 32}
    (pktseq : ℕ) (hmax : f.txseq + 2 ^ 23 ≤ 2 ^ 64) (hlt : f.ackSeq packseq < f.txseq)
    (hin : f.Inside packseq) :
    ∃ g, (f.ackReceived env pktseq (f.ackSeq packseq) (f.ackDiff packseq)
        (ackctOf packseq)).1 = g ∧ Marks g ∧ Sized f.txseq g ∧ g.Balanced ∧
      g.txackseq = max f.txackseq (f.ackSeq packseq) ∧
      ∀ b, g.txackmask.getLsbD b = true ↔ (f.maskAfter packseq).getLsbD b = true ∨
        ¬f.Known packseq ∧ b < maskBits ∧
          max f.txackseq (f.ackSeq packseq) ≤ f.ackSeq packseq + b ∧
          f.ackSeq packseq + b ≤ max f.txackseq (f.ackSeq packseq) + ackctOf packseq := by
  have hack : f.txackseq < f.txseq := hB.1.ack
  have hseq := ackSeq_eq hack hmax hlt
  obtain ⟨g, np, hg, heq⟩ := ackReceived_block env hM hB pktseq hseq hlt
  rw [heq]
  have hknown : g.txackmask &&& countMask packseq = countMask packseq ↔ f.Known packseq := by
    rw [hg.txackmask]
    exact known_iff f packseq
  have hgack : g.txackseq < f.txseq := by
    rw [hg.txackseq]
    exact max_lt hack hlt
  obtain ⟨hA, -⟩ := id hg.balanced
  have hw : g.txevtseq = 0 ∨ g.txevtseq + 31 ≤ g.txackseq := hA.window
  have hbits : f.Known packseq ∨ ∀ bit, max f.txackseq (f.ackSeq packseq) - f.ackSeq packseq ≤ bit →
      bit ≤ max f.txackseq (f.ackSeq packseq) - f.ackSeq packseq + ackctOf packseq →
      bit < maskBits → bit ≤ g.txackseq := by
    rw [hg.txackseq]
    rcases hin with h | h | h | h
    · exact absurd h (not_le.mpr hlt)
    · exact .inr fun bit _ h2 _ => by omega
    · exact .inr fun bit _ _ h3 => by omega
    · exact .inl h
  obtain ⟨h1, h2, h3, h4⟩ := straggle_marks env hg.marks hg.sized hgack packseq pktseq _ np
    (hbits.imp_left hknown.mpr)
  refine ⟨_, rfl, h1, h2, ?_, h3.trans hg.txackseq, fun b => ?_⟩
  · rcases hbits with h | h
    · rw [straggle_known (hknown.mpr h)]
      exact hg.balanced
    · refine (straggle_acts (S := still.full) (sound_still env) (fun _ => id) not_false trivial
        pktseq g _ _ np (.inr fun bit hb1 hb2 hb3 => ?_) fun bit _ _ _ =>
          Set.mem_univ _).path.balanced (fun _ => id) not_false hg.balanced
      have hgs : g.txackseq < g.txseq := hA.ack
      have := h bit hb1 hb2 hb3
      unfold maskBits at hb3
      exact ⟨this, hA.len, by omega, by omega⟩
  · rw [h4, hknown, hg.txackmask]
    refine or_congr_right (and_congr_right fun _ => and_congr_right fun _ => ?_)
    omega

/-- **An authenticated packet** with an inside word. -/
theorem process_inside (env : Env) (hM : Marks f) (hB : f.Balanced) {packseq : BitVec 32}
    (pktseq : ℕ) (hmax : f.txseq + 2 ^ 23 ≤ 2 ^ 64) (hin : f.Inside packseq) :
    Marks (f.process env packseq pktseq) ∧ (f.process env packseq pktseq).Balanced := by
  by_cases hlt : f.ackSeq packseq < f.txseq
  · obtain ⟨g, heq, h1, h2, h3, h4, -⟩ := ackReceived_inside env hM hB pktseq hmax hlt hin
    have hack : f.txackseq < f.txseq := hB.1.ack
    have hgack : g.txackseq < f.txseq := h4 ▸ max_lt hack hlt
    dsimp only [process]
    rw [if_neg (not_le.mpr hlt), heq]
    generalize (f.ackReceived env pktseq (f.ackSeq packseq) (f.ackDiff packseq)
      (ackctOf packseq)).2 = np
    have htuned := ccReceived_tuned g env (f.ackSeq packseq) np
    have hcc : Keeps f.txseq ∅ g (g.ccReceived env (f.ackSeq packseq) np) := .tuned h2 htuned
    have hM₁ : Marks (g.ccReceived env (f.ackSeq packseq) np) := h1.keeps hcc hgack
      (congrArg (·.txackseq) htuned.rest) (congrArg (·.txackmask) htuned.rest)
    have hB₁ := ccReceived_balanced env h3 (f.ackSeq packseq) np
    have hack₁ : (g.ccReceived env (f.ackSeq packseq) np).txackseq < f.txseq :=
      (congrArg (·.txackseq) htuned.rest).trans_lt hgack
    generalize g.ccReceived env (f.ackSeq packseq) np = k at hcc hM₁ hB₁ hack₁ ⊢
    have hacts := deliver_acts (sound_calling env) k pktseq np fun _ => Set.mem_univ _
    have hpath := (deliver_acts (S := still.full) (sound_still env) k pktseq np
      fun _ => Set.mem_univ _).path
    exact ⟨hM₁.keeps (deliver_keeps hcc.sized pktseq np).1 hack₁
      (hacts.still ActScope.idle_calling).txackseq (hacts.txackmask ActScope.idle_calling id),
      hpath.balanced (fun _ => id) not_false hB₁⟩
  · dsimp only [process]
    rw [if_pos (not_lt.mp hlt)]
    exact ⟨hM, hB⟩

/-! ## Words that stray -/

/-- A stray access is not forgotten. -/
theorem Acts.overrun {S : ActScope} (h : Acts S f g) (hf : f.overrun = true) :
    g.overrun = true := by
  refine h.invariant (P := fun f => f.overrun = true) (fun a b hab ha => ?_) hf
  cases hab with
  | cut _ seq e =>
    exact (congrArg (·.overrun) (ccMissed_tuned (a.leavePipe seq e) seq).rest).trans ha
  | grow _ _ env ackseq n _ =>
    exact (congrArg (·.overrun) (ccReceived_tuned a env ackseq n).rest).trans ha
  | stray => rfl
  | _ => exact ha

/-- **The straggler loop below packet 0.** -/
theorem straggle_outside (packseq : BitVec 32) (pktseq back newpackets bit : ℕ)
    (hk : ¬f.txackmask &&& countMask packseq = countMask packseq) (h1 : back ≤ bit)
    (h2 : bit ≤ back + ackctOf packseq) (h3 : bit < maskBits) (h4 : f.txackseq < bit)
    (h5 : ¬f.txackmask.getLsbD bit = true) :
    (f.straggle env pktseq back (ackctOf packseq) newpackets).1.overrun = true := by
  have hacts : ∀ (b : ℕ) (st : Flow × ℕ), Acts (.straggling Set.univ) st.1
      (straggleOne env pktseq st b).1 := fun b st =>
    straggleOne_acts (.of_univ Set.mem_univ env) trivial pktseq b st (.inl trivial)
      fun _ => Set.mem_univ _
  have key : ∀ (l : List ℕ) (st : Flow × ℕ), st.1.txackseq = f.txackseq →
      (st.1.overrun = true ∨ bit ∈ l ∧ ¬st.1.txackmask.getLsbD bit = true) →
      (l.foldl (straggleOne env pktseq) st).1.overrun = true := by
    intro l
    induction l with
    | nil =>
      rintro st - (h | ⟨h, -⟩)
      · exact h
      · cases h
    | cons b l ih =>
      rintro ⟨k, n⟩ hst h
      replace hst : k.txackseq = f.txackseq := hst
      refine ih _ (((hacts b (k, n)).still (ActScope.idle_straggling _)).txackseq.trans hst) ?_
      rcases h with h | ⟨hmem, hbit⟩
      · exact .inl ((hacts b (k, n)).overrun h)
      replace hbit : ¬k.txackmask.getLsbD bit = true := hbit
      by_cases hb : b = bit
      · -- the turn that reaches the bit
        subst hb
        have hzero : ¬k.txackmask &&& 1#32 <<< b ≠ 0#32 := fun h =>
          hbit ((and_one_shiftLeft_ne_zero (w := 32) h3).mp h)
        left
        dsimp only [straggleOne]
        rw [if_neg (not_le.mpr h3), if_neg hzero, if_pos (hst ▸ h4)]
        rfl
      · refine .inr ⟨(List.mem_cons.mp hmem).resolve_left (Ne.symm hb), ?_⟩
        dsimp only [straggleOne]
        split_ifs with h6 h7 h8
        · exact hbit
        · exact hbit
        all_goals
          have hor : ¬(k.txackmask ||| 1#32 <<< b).getLsbD bit = true := by
            rw [BitVec.getLsbD_or, getLsbD_one_shiftLeft (w := 32) (not_le.mp h6), Bool.or_eq_true,
              decide_eq_true_eq, not_or]
            exact ⟨hbit, Ne.symm hb⟩
        · exact hor
        · have hone : Acts .exits { k with txackmask := k.txackmask ||| 1#32 <<< b }
              (({ k with txackmask := k.txackmask ||| 1#32 <<< b } : Flow).ackOne env pktseq
                (k.txackseq - b)) :=
            ackOne_acts (sound_exits env) pktseq _ (.inl trivial) (Set.mem_univ _)
          rw [hone.txackmask ActScope.idle_exits id]
          exact hor
  have heq : f.straggle env pktseq back (ackctOf packseq) newpackets =
      (List.range' back (ackctOf packseq + 1)).foldl (straggleOne env pktseq) (f, newpackets) :=
    if_pos hk
  rw [heq]
  exact key _ _ rfl (.inr ⟨List.mem_range'_1.mpr ⟨h1, by omega⟩, h5⟩)

/-- **An authenticated packet** with a word that is not inside. -/
theorem process_outside (env : Env) (hM : Marks f) (hB : f.Balanced) {packseq : BitVec 32}
    (pktseq : ℕ) (hmax : f.txseq + 2 ^ 23 ≤ 2 ^ 64) (hin : ¬f.Inside packseq) :
    (f.process env packseq pktseq).overrun = true := by
  unfold Inside maskBits at hin
  push Not at hin
  obtain ⟨hlt, hct, htop, hknown⟩ := hin
  have hack : f.txackseq < f.txseq := hB.1.ack
  have hseq := ackSeq_eq hack hmax hlt
  obtain ⟨g, np, hg, heq⟩ := ackReceived_block env hM hB pktseq hseq hlt
  have hk : ¬g.txackmask &&& countMask packseq = countMask packseq := by
    rw [hg.txackmask, known_iff]
    exact hknown
  have hover : (f.ackReceived env pktseq (f.ackSeq packseq) (f.ackDiff packseq)
      (ackctOf packseq)).1.overrun = true := by
    rw [heq]
    -- the first number below packet 0
    refine straggle_outside packseq pktseq _ np (g.txackseq + 1) hk ?_ ?_ ?_
      (Nat.lt_succ_self _) fun h => ?_
    · rw [hg.txackseq]
      omega
    · rw [hg.txackseq]
      omega
    · rw [hg.txackseq]
      exact htop
    · exact absurd (hg.marks _ h).1 (Nat.not_succ_le_self _)
  dsimp only [process]
  rw [if_neg (not_le.mpr hlt)]
  generalize f.ackReceived env pktseq (f.ackSeq packseq) (f.ackDiff packseq) (ackctOf packseq) = st
    at hover ⊢
  obtain ⟨k, n⟩ := st
  have hcc : (k.ccReceived env (f.ackSeq packseq) n).overrun = true :=
    (congrArg (·.overrun) (ccReceived_tuned k env (f.ackSeq packseq) n).rest).trans hover
  exact (deliver_acts (sound_calling env) _ pktseq n fun _ => Set.mem_univ _).overrun hcc

/-! ## Runs -/

/-- The packets that reach a flow: the words of authentic packets are inside, and the flow has not
run out of numbers. -/
def WordsInside (f : Flow) (i : Env × Op) : Prop :=
  ∀ pkt pktseq r, i.2 = .receive pkt → f.Authentic pkt pktseq r →
    f.txseq + 2 ^ 23 ≤ 2 ^ 64 ∧ f.Inside pkt.packseq

theorem rtxTimeout_txackmask (f : Flow) (fail : Bool) :
    (f.rtxTimeout env fail).txackmask = f.txackmask := by
  have hloop : ∀ g : Flow, ((List.range' g.txevtseq (g.txseq - g.txevtseq)).foldl (rtoOne env)
      g).txackmask = g.txackmask := fun g =>
    (range_acts not_false _ _ (fun _ m => rtoOne_acts (sound_exits env) m) (.inl trivial)
      fun m _ _ => Set.mem_univ m).txackmask ActScope.idle_exits id
  dsimp only [rtxTimeout]
  rw [setLinkStatus_txackmask, raise_txackmask env _ .readyTransmit]
  change ((List.range' _ _).foldl (rtoOne env) _).txackmask = _
  rw [hloop]
  split_ifs <;> rfl

/-- Only `receive` changes the acknowledgment mask. -/
theorem step_txackmask {op : Op} (hop : ∀ pkt, op ≠ .receive pkt) (h : f.step env op = some g) :
    g.txackmask = f.txackmask := by
  cases op with
  | start =>
    cases h
    exact (setLinkStatus_txackmask env _ .up).trans (raise_txackmask env _ .readyTransmit)
  | stop => cases h; exact setLinkStatus_txackmask env _ .down
  | receive pkt => exact absurd rfl (hop pkt)
  | rtxTimeout fail =>
    change (if f.rtxtimer then some (f.rtxTimeout env fail) else none) = some g at h
    split_ifs at h
    cases h
    exact rtxTimeout_txackmask f fail
  | ackTimeout =>
    change (if f.acktimer.isSome then some (f.ackTimeout env) else none) = some g at h
    split_ifs at h
    cases h
    have hacts : Acts .calling f (f.flushack env.now) := flushack_acts f env.now
    exact hacts.txackmask ActScope.idle_calling id
  | call c =>
    cases h
    have hacts : Acts .calling f (f.call env c) := call_acts env f fun n _ _ => Set.mem_univ n
    exact hacts.txackmask ActScope.idle_calling id
  | setDelayedAcks | setCCMode | setCCWindow => cases h; rfl

/-- **One operation.** -/
theorem step_inside {op : Op} (hM : Marks f) (hB : f.Balanced) (hc : WordsInside f (env, op))
    (h : f.step env op = some g) : Marks g ∧ g.Balanced := by
  by_cases hop : ∃ pkt, op = .receive pkt
  · obtain ⟨pkt, rfl⟩ := hop
    cases h
    unfold receive
    split_ifs with hdrop
    · exact ⟨hM, hB⟩
    · rw [Bool.or_eq_true, not_or, Bool.not_eq_true', decide_eq_true_eq, not_lt,
        Bool.not_eq_false] at hdrop
      cases ha : f.toRxState.accept pkt with
      | none => exact ⟨hM, hB⟩
      | some a =>
        obtain ⟨hmax, hin⟩ := hc pkt a.1 a.2 rfl ⟨hdrop.1, hdrop.2, ha⟩
        have hB' := arrive_balanced hB a.1 a.2
        exact process_inside (f := f.arrive a.1 a.2) env hM hB' a.1 hmax hin
  · rcases step_cases (S := still) (fun _ => sound_still env) not_false
      (fun _ _ n _ _ => Set.mem_univ n) (.inr hB.1.len) h with hp | ⟨pkt, n, r, rfl, -, -⟩
    · have hB' := hp.balanced (fun _ => id) not_false hB
      have hseq : g.txackseq = f.txackseq := hp.txackseq fun _ => id
      have hack : f.txackseq < f.txseq := hB.1.ack
      refine ⟨fun bit hbit => ?_, hB'⟩
      rw [step_txackmask (fun pkt hpkt => hop ⟨pkt, hpkt⟩) h] at hbit
      obtain ⟨h1, h2⟩ := hM bit hbit
      rw [hseq]
      refine ⟨h1, Bool.eq_false_iff.mpr fun hin => ?_⟩
      have hold := hp.inPipe (fun _ => id) not_false hB.1 ((Nat.sub_le _ _).trans_lt hack) hin
      cases hold.symm.trans h2
    · exact absurd ⟨pkt, rfl⟩ hop

theorem inside_of_reach {chan : BitVec 8} (h : (flowMachine chan).Reach WordsInside f) :
    Marks f ∧ f.Balanced := by
  refine Machine.Reach.invariant (m := flowMachine chan) (P := fun f => Marks f ∧ f.Balanced)
    ⟨marks_new chan, balanced_new chan⟩ ?_ h
  rintro f g ⟨env, op⟩ - ⟨hM, hB⟩ hc hstep
  exact step_inside hM hB hc hstep

end Flow

/-- **The accesses of `receive` to the transmit records are within bounds exactly for inside
words.** In every run whose words are inside, no access strays; and the next authentic packet
keeps it so if and only if its word acknowledges a packet not sent yet, or counts no packet below
packet 0, or `txackseq` becomes 31 or more, or the straggler loop is skipped. -/
theorem access_inside {chan : BitVec 8} {f : Flow}
    (h : (flowMachine chan).Reach Flow.WordsInside f) : f.overrun = false ∧
    ∀ env pkt pktseq r, f.Authentic pkt pktseq r → f.txseq + 2 ^ 23 ≤ 2 ^ 64 →
      ((f.receive env pkt).overrun = false ↔ f.Inside pkt.packseq) := by
  obtain ⟨hM, hB⟩ := Flow.inside_of_reach h
  refine ⟨hB.1.inside, fun env pkt pktseq r ha hmax => ?_⟩
  rw [ha.receive]
  have hB' := Flow.arrive_balanced hB pktseq r
  constructor
  · intro hno
    by_contra hin
    have hover := Flow.process_outside (f := f.arrive pktseq r) env hM hB' pktseq hmax hin
    rw [hno] at hover
    cases hover
  · intro hin
    exact (Flow.process_inside (f := f.arrive pktseq r) env hM hB' pktseq hmax hin).2.1.inside

/-- Packet 1 is sent, and an inside word acknowledges it. -/
theorem access_inside_acknowledged : ∃ f, (flowMachine 1#8).Reach Flow.WordsInside f ∧
    f.txseq = 2 ∧ (f.receive silent ⟨seqWord 1#8 1, ackWord 1 1, some 1, 20⟩).overrun = false := by
  have h0 : (flowMachine 1#8).Reach Flow.WordsInside (.new 1#8) := .init
  have h1 := h0.step (i := (silent, .start)) (t := (Flow.new 1#8).start silent) nofun rfl
  have h2 := h1.step (i := (silent, .call (.flowTransmit 20)))
    (t := ((Flow.new 1#8).start silent).flowTransmit 0 20) nofun rfl
  refine ⟨_, h2, by decide +kernel, ?_⟩
  refine ((access_inside h2).2 silent ⟨seqWord 1#8 1, ackWord 1 1, some 1, 20⟩ 1
    ⟨1, 3#32⟩ ⟨rfl, by decide, rfl⟩ (by decide +kernel)).mpr (.inr (.inl ?_))
  decide +kernel

/-- A new flow receives a word for packet 0 that counts two packets before it. -/
theorem access_below_zero : ¬∀ f env pkt, (flowMachine 1#8).Reach Machine.always f →
    (f.receive env pkt).overrun = false := by
  intro hall
  have h : (flowMachine 1#8).Reach Machine.always ((Flow.new 1#8).start silent) :=
    Machine.Reach.init.step (i := (silent, .start)) trivial rfl
  have := hall _ silent ⟨seqWord 1#8 1, ackWord 2 0, some 1, 20⟩ h
  revert this
  decide +kernel

end Sst
