import Sst.Flow.Action
import Sst.Lib.Window

/-!
# Replay protection

The armor accepts a packet only under the number it was sealed with. Numbers are reconstructed
from 24 bits and checked against a window of 32 recent numbers.

* `Flow.accepts`: the numbers accepted so far.
* `Flow.Replay`: the mask of the window shows exactly packet 0 and the accepted numbers.
* `Flow.Replay.accept`: an authenticated packet is new and its number exact.
* **`accepted_once`**: soundness and completeness of the window, in every run.
-/

namespace Sst

open Window

/-- The number of an accepted packet. -/
def Event.acceptedSeq : Event → Option ℕ
  | .accepted n => some n
  | _ => none

namespace Flow

/-- The numbers accepted so far, the latest first. -/
def accepts (f : Flow) : List ℕ := f.log.filterMap Event.acceptedSeq

theorem count_accepts (f : Flow) (n : ℕ) : f.accepts.count n = f.log.count (.accepted n) := by
  unfold accepts
  induction f.log with
  | nil => rfl
  | cons e l ih =>
    cases e with
    | accepted m =>
      rw [List.filterMap_cons, List.count_cons, ← ih]
      simp [Event.acceptedSeq, List.count_cons]
    | _ => simpa [Event.acceptedSeq, List.filterMap_cons, List.count_cons] using ih

/-! ## Elementary steps neither receive nor forget -/

theorem Micro.accepts {S : Scope} {f g : Flow} (h : Micro S f g) :
    g.toRxState = f.toRxState ∧ g.accepts = f.accepts := by
  cases h with
  | tune h => exact ⟨congrArg Kept.rx h, congrArg (fun k => k.log.filterMap Event.acceptedSeq) h⟩
  | note e h => cases e <;> first | exact ⟨rfl, rfl⟩ | exact h.elim
  | exit seq e r hs he hp hr => rcases hr with ⟨_, rxseq, rfl⟩ | rfl <;> exact ⟨rfl, rfl⟩
  | _ => exact ⟨rfl, rfl⟩

theorem Path.accepts {S : Scope} {f g : Flow} (h : Path S f g) :
    g.toRxState = f.toRxState ∧ g.accepts = f.accepts :=
  h.invariant (P := fun k => k.toRxState = f.toRxState ∧ k.accepts = f.accepts)
    (fun _ _ hm hk => ⟨hm.accepts.1.trans hk.1, hm.accepts.2.trans hk.2⟩) ⟨rfl, rfl⟩

/-! ## The window -/

/-- The receive state records the accepted numbers. -/
structure Replay (r : RxState) (S : List ℕ) : Prop where
  marks : Marks r.rxmask r.rxseq (insert 0 {n | n ∈ S})
  le : ∀ n ∈ S, n ≤ r.rxseq
  pos : ∀ n ∈ S, 0 < n
  nodup : S.Nodup
  bound : r.rxseq < 2 ^ 63

theorem Replay.new (chan : BitVec 8) :
    Replay (Flow.new chan).toRxState (Flow.new chan).accepts where
  marks := by
    intro k hk
    change (1#32).getLsbD k = true ↔ _
    rw [BitVec.getLsbD_one]
    change _ ↔ k ≤ 0 ∧ 0 - k ∈ _
    by_cases h : k = 0 <;> simp [h]
  le := fun n hn => absurd hn List.not_mem_nil
  pos := fun n hn => absurd hn List.not_mem_nil
  nodup := List.nodup_nil
  bound := Nat.two_pow_pos 63

theorem Replay.bit {r : RxState} {S : List ℕ} (h : Replay r S) {k : ℕ} (hk : k < 32) :
    r.rxmask &&& (1#32 <<< k) ≠ 0#32 ↔ k ≤ r.rxseq ∧ (r.rxseq = k ∨ r.rxseq - k ∈ S) := by
  rw [and_one_shiftLeft_ne_zero hk, h.marks k hk, Set.mem_insert_iff, Set.mem_ofPred_eq]
  constructor
  · rintro ⟨h1, h2 | h2⟩
    · exact ⟨h1, .inl (by omega)⟩
    · exact ⟨h1, .inr h2⟩
  · rintro ⟨h1, h2 | h2⟩
    · exact ⟨h1, .inl (by omega)⟩
    · exact ⟨h1, .inr h2⟩

theorem seqAdd_eq {base n : ℕ} {d : ℤ} (h : seqAdd base d = n) (hb : base < 2 ^ 63)
    (hn : n < 2 ^ 63) (hd1 : -32 < d) (hd2 : d < 2 ^ 23) : (n : ℤ) = base + d := by
  unfold seqAdd at h
  omega

theorem accept_cases {r r' : RxState} {pkt : Packet} {n : ℕ} (ha : r.accept pkt = some (n, r')) :
    pkt.sealedAs = some n ∧ ∃ d : ℤ, d < 2 ^ 23 ∧ n = seqAdd r.rxseq d ∧ r' = r.roll d n ∧
      (0 < d ∧ r.rxseq ≤ n ∨ -32 < d ∧ d ≤ 0 ∧ r.rxmask &&& (1#32 <<< (-d).toNat) = 0#32) := by
  obtain ⟨⟨d, m⟩, hc, ha⟩ := Option.bind_eq_some_iff.mp ha
  dsimp only at ha
  split_ifs at ha with hx
  cases ha
  refine ⟨of_decide_eq_true hx, d, ?_⟩
  dsimp only [RxState.check] at hc
  have hlt : seqDiff pkt.ptxseq (BitVec.ofNat 32 r.rxseq) < 2 ^ 23 := seqDiff_lt _ _
  generalize seqDiff pkt.ptxseq (BitVec.ofNat 32 r.rxseq) = diff at hc hlt
  split_ifs at hc with h1 h2 h3 h4 <;> cases hc
  · exact ⟨hlt, rfl, rfl, .inl ⟨h1, not_lt.mp h2⟩⟩
  · unfold maskBits at h3
    exact ⟨hlt, rfl, rfl, .inr ⟨by omega, by omega, not_not.mp h4⟩⟩

/-- **A packet that passes the window under its own number is new.** -/
theorem Replay.accept {r r' : RxState} {S : List ℕ} (h : Replay r S) {pkt : Packet} {n : ℕ}
    (ha : r.accept pkt = some (n, r')) (h1 : 1 ≤ n) (h2 : n < 2 ^ 63) :
    Replay r' (n :: S) ∧ n ∉ S := by
  obtain ⟨-, d, hlt, hn, rfl, hd⟩ := accept_cases ha
  have hset : insert 0 {k | k ∈ n :: S} = insert n (insert 0 {k | k ∈ S}) := by
    rw [Set.insert_comm]
    ext
    simp
  have hle0 : ∀ k ∈ insert 0 {k | k ∈ S}, k ≤ r.rxseq := by
    rintro k (rfl | hk)
    · exact Nat.zero_le _
    · exact h.le k hk
  have he : (n : ℤ) = r.rxseq + d :=
    seqAdd_eq hn.symm h.bound h2 (hd.elim (fun h => by omega) And.left) hlt
  have hpos : ∀ k ∈ n :: S, 0 < k := List.forall_mem_cons.mpr ⟨h1, h.pos⟩
  rcases hd with ⟨hd, -⟩ | ⟨hd1, hd2, hbit⟩
  · -- ahead of the window
    obtain ⟨k, rfl⟩ := Int.eq_ofNat_of_zero_le hd.le
    have hnk : n = r.rxseq + k := by omega
    have hnew : n ∉ S := fun hm => by have := h.le n hm; omega
    have hroll : r.roll k n =
        ⟨n, if (k : ℤ) < maskBits then r.rxmask <<< k + 1#32 else 1#32⟩ := if_pos hd
    rw [hroll]
    refine ⟨⟨?_, ?_, hpos, List.nodup_cons.mpr ⟨hnew, h.nodup⟩, h2⟩, hnew⟩
    · rw [hset, hnk]
      dsimp only
      split_ifs with h3
      · exact h.marks.roll hle0 (by omega)
      · exact Marks.jump (by decide) hle0 (by unfold maskBits at h3; omega)
    · have hle : r.rxseq ≤ n := by omega
      exact List.forall_mem_cons.mpr ⟨le_rfl, fun k hk => (h.le k hk).trans hle⟩
  · -- inside the window
    obtain ⟨k, hk⟩ := Int.eq_ofNat_of_zero_le (neg_nonneg.mpr hd2)
    rw [hk, Int.toNat_natCast] at hbit
    have hnk : n = r.rxseq - k := by omega
    have hkt : k ≤ r.rxseq := by omega
    have hk32 : k < 32 := by omega
    have hnew : n ∉ S := fun hm =>
      (h.bit hk32).mpr ⟨hkt, .inr (by rw [← hnk]; exact hm)⟩ hbit
    have hroll : r.roll d n = ⟨r.rxseq, r.rxmask ||| 1#32 <<< k⟩ := by
      rw [RxState.roll, if_neg (by omega), hk, Int.toNat_natCast]
    rw [hroll]
    refine ⟨⟨?_, ?_, hpos, List.nodup_cons.mpr ⟨hnew, h.nodup⟩, h.bound⟩, hnew⟩
    · rw [hset, hnk]
      exact h.marks.mark hk32 hkt
    · have hle : n ≤ r.rxseq := by omega
      exact List.forall_mem_cons.mpr ⟨hle, h.le⟩

/-- Packet 0 is marked while it is inside the window, so that it is never accepted. -/
structure ZeroMarked (r : RxState) (S : List ℕ) : Prop where
  marked : r.rxseq < 32 → r.rxmask.getLsbD r.rxseq = true
  pos : ∀ n ∈ S, 0 < n
  bound : r.rxseq < 2 ^ 64

theorem ZeroMarked.accept {r r' : RxState} {S : List ℕ} (h : ZeroMarked r S) {pkt : Packet} {n : ℕ}
    (ha : r.accept pkt = some (n, r')) : ZeroMarked r' (n :: S) := by
  obtain ⟨-, d, hlt, hn, rfl, hd⟩ := accept_cases ha
  have hb := h.bound
  have hn64 : n < 2 ^ 64 := by
    rw [hn]
    unfold seqAdd
    omega
  unfold seqAdd at hn
  rcases hd with ⟨hd, hle⟩ | ⟨hd1, hd2, hbit⟩
  · -- ahead of the window
    obtain ⟨k, rfl⟩ := Int.eq_ofNat_of_zero_le hd.le
    have hroll : r.roll k n =
        ⟨n, if (k : ℤ) < maskBits then r.rxmask <<< k + 1#32 else 1#32⟩ := if_pos hd
    rw [hroll]
    refine ⟨fun hn32 => ?_, List.forall_mem_cons.mpr ⟨by omega, h.pos⟩, hn64⟩
    dsimp only at hn32 ⊢
    have hnk : n = r.rxseq + k := by omega
    rw [if_pos (by unfold maskBits; omega), shiftLeft_add_one (by omega), hnk, BitVec.getLsbD_or,
      BitVec.getLsbD_shiftLeft, Nat.add_sub_cancel, h.marked (by omega)]
    simp
    omega
  · -- inside the window
    obtain ⟨k, hk⟩ := Int.eq_ofNat_of_zero_le (neg_nonneg.mpr hd2)
    have hroll : r.roll d n = ⟨r.rxseq, r.rxmask ||| 1#32 <<< k⟩ := by
      rw [RxState.roll, if_neg (by omega), hk, Int.toNat_natCast]
    rw [hroll]
    refine ⟨fun h32 => ?_, List.forall_mem_cons.mpr ⟨Nat.pos_of_ne_zero ?_, h.pos⟩, hb⟩
    · rw [BitVec.getLsbD_or, h.marked h32, Bool.true_or]
    · rintro rfl
      have hrk : r.rxseq = k := by omega
      rw [hk, Int.toNat_natCast, ← hrk] at hbit
      exact (and_one_shiftLeft_ne_zero (by omega)).mpr (h.marked (by omega)) hbit

/-- **A new packet inside the window or ahead of it passes.** -/
theorem Replay.complete {r : RxState} {S : List ℕ} (h : Replay r S) {pkt : Packet} {n : ℕ}
    (hs : pkt.sealedAs = some n) (hw : pkt.ptxseq.toNat % 2 ^ 24 = n % 2 ^ 24) (h1 : 1 ≤ n)
    (h2 : n < 2 ^ 63) (hn : n ∉ S) (hlo : r.rxseq ≤ n + 31) (hhi : n ≤ r.rxseq + 2 ^ 23 - 1) :
    ∃ r', r.accept pkt = some (n, r') := by
  have hb := h.bound
  have hd : seqDiff pkt.ptxseq (BitVec.ofNat 32 r.rxseq) = n - r.rxseq :=
    seqDiff_ofNat hw (by omega) (by omega)
  have ha : seqAdd r.rxseq (n - r.rxseq) = n := by
    unfold seqAdd
    omega
  have hc : r.check pkt.ptxseq = some ((n : ℤ) - r.rxseq, n) := by
    dsimp only [RxState.check]
    rw [hd, ha]
    split_ifs with h3 h4 h5 h6
    · omega
    · rfl
    · unfold maskBits at h5
      omega
    · rw [h.bit (by omega)] at h6
      obtain ⟨h7, h8 | h8⟩ := h6
      · omega
      · rw [show r.rxseq - (-((n : ℤ) - r.rxseq)).toNat = n by omega] at h8
        exact absurd h8 hn
    · rfl
  refine ⟨r.roll (n - r.rxseq) n, ?_⟩
  rw [RxState.accept, hc, Option.bind_some]
  simp [RxState.rxdec, hs]

/-! ## Runs -/

/-- The armor's numbers: a packet that authenticates was sealed with a number from 1 to
`2 ^ 63 - 1`. -/
def SealedNumbers (_ : Flow) (i : Env × Op) : Prop :=
  ∀ pkt, i.2 = .receive pkt → ∀ n, pkt.sealedAs = some n → 1 ≤ n ∧ n < 2 ^ 63

/-- The receive state of a flow records the accepted numbers, in every run. -/
theorem replay_of_reach {chan : BitVec 8} {f : Flow}
    (h : (flowMachine chan).Reach SealedNumbers f) : Replay f.toRxState f.accepts := by
  refine h.invariant (P := fun f => Replay f.toRxState f.accepts) (Replay.new chan) ?_
  rintro f g ⟨env, op⟩ - hf hc hstep
  rcases step_cases (S := Scope.wild.loop) (fun _ => sound_any env) not_false
    (fun _ _ n _ _ => Set.mem_univ n) (.inl trivial) hstep with hp | ⟨pkt, n, r, rfl, ha, rfl⟩
  · rw [hp.accepts.1, hp.accepts.2]
    exact hf
  · obtain ⟨h1, h2⟩ := hc pkt rfl n (accept_cases ha).1
    have hp := (process_any env (f.arrive n r) pkt.packseq n).path
    rw [hp.accepts.1, hp.accepts.2]
    exact (hf.accept ha h1 h2).1

end Flow

/-- **Replay protection.** In every run, whatever the order, duplication and loss of packets:
each number is accepted at most once; a packet is accepted only under the number it was sealed
with, and only if that number is new; and a new packet that carries the low bits of its number,
from 31 below to `2 ^ 23 - 1` above the highest number accepted, is accepted. -/
theorem accepted_once {chan : BitVec 8} {f : Flow}
    (h : (flowMachine chan).Reach Flow.SealedNumbers f) :
    (∀ n, f.log.count (.accepted n) ≤ 1) ∧
    (∀ pkt n r, f.toRxState.accept pkt = some (n, r) → 1 ≤ n → n < 2 ^ 63 →
      pkt.sealedAs = some n ∧ .accepted n ∉ f.log) ∧
    ∀ pkt n, pkt.sealedAs = some n → pkt.ptxseq.toNat % 2 ^ 24 = n % 2 ^ 24 → 1 ≤ n → n < 2 ^ 63 →
      .accepted n ∉ f.log → f.rxseq ≤ n + 31 → n ≤ f.rxseq + 2 ^ 23 - 1 →
      ∃ r, f.toRxState.accept pkt = some (n, r) := by
  have hr := Flow.replay_of_reach h
  have hmem : ∀ n, .accepted n ∈ f.log ↔ n ∈ f.accepts := by
    intro n
    rw [← List.count_pos_iff, ← List.count_pos_iff, Flow.count_accepts]
  refine ⟨fun n => ?_, fun pkt n r ha h1 h2 => ?_, fun pkt n hs hw h1 h2 hn hlo hhi => ?_⟩
  · rw [← Flow.count_accepts]
    exact List.nodup_iff_count_le_one.mp hr.nodup n
  · exact ⟨(Flow.accept_cases ha).1, fun hm => (hr.accept ha h1 h2).2 ((hmem n).mp hm)⟩
  · exact hr.complete hs hw h1 h2 (fun hm => hn ((hmem n).mpr hm)) hlo hhi

/-- The second packet of the peer. -/
def pktTwo : Packet := ⟨seqWord 1#8 2, ackWord 0 0, some 2, 20⟩

/-- Packet 2 arrives first: it is not accepted again, and packet 1 still is. -/
theorem accepted_once_reordered : ∃ f, (flowMachine 1#8).Reach Flow.SealedNumbers f ∧
    .accepted 2 ∈ f.log ∧ (∀ n r, n < 2 ^ 63 → f.toRxState.accept pktTwo ≠ some (n, r)) ∧
    ∃ r, f.toRxState.accept ⟨seqWord 1#8 1, ackWord 0 0, some 1, 20⟩ = some (1, r) := by
  have h0 : (flowMachine 1#8).Reach Flow.SealedNumbers (.new 1#8) := .init
  have h1 := h0.step (i := (silent, .start)) (t := (Flow.new 1#8).start silent) nofun rfl
  have h2 := h1.step (i := (silent, .receive pktTwo))
    (t := ((Flow.new 1#8).start silent).receive silent pktTwo)
    (fun _ h n hn => by cases h; cases hn; decide) rfl
  obtain ⟨-, ho, hc⟩ := accepted_once h2
  refine ⟨_, h2, by decide +kernel, ?_,
    hc _ 1 rfl (by decide +kernel) (by decide +kernel) (by decide +kernel) (by decide +kernel)
    (by decide +kernel) (by decide +kernel)⟩
  intro n r hn ha
  obtain ⟨hs, -⟩ := Flow.accept_cases ha
  cases hs
  exact (ho _ _ _ ha (by decide +kernel) hn).2 (by decide +kernel)

end Sst
