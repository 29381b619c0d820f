import Sst.Flow.Pending

/-!
# The acknowledgment run of a lifetime

`acknowledge` keeps the greatest number that was passed to it and how many numbers up to that one
were passed without a gap. Its parameter is a `quint16`, while the numbers are `quint64`.

* `AckCall`, `Flow.acknowledgeAll`: a sequence of calls.
* `Flow.RunOf`: the run of a list of numbers, packet 0 counting as passed.
* `Flow.acknowledge_run`: what one call does to the run.
* **`ack_run`**: after calls with distinct numbers the flow has their run, exactly if all of them
  are below `2 ^ 16`.
-/

namespace Sst

/-- A call of `acknowledge`, and the time. -/
structure AckCall where
  now : ℕ
  pktseq : ℕ
  sendack : Bool

namespace Flow

/-- The flow after a sequence of calls. -/
def acknowledgeAll (f : Flow) (calls : List AckCall) : Flow :=
  calls.foldl (fun f c => f.acknowledge c.now c.pktseq c.sendack) f

/-- The acknowledgment state says of the numbers `l`: which is the greatest, and how many up to it
are among them without a gap, `ackctMax` besides it at most. -/
structure RunOf (f : Flow) (l : List ℕ) : Prop where
  top : f.rxackseq ∈ 0 :: l
  greatest : ∀ n ∈ l, n ≤ f.rxackseq
  max : f.rxackct ≤ ackctMax
  le : f.rxackct ≤ f.rxackseq
  run : ∀ n, f.rxackseq - f.rxackct ≤ n → n ≤ f.rxackseq → n ∈ 0 :: l

variable {f : Flow}

/-! ## One call -/

theorem ackContiguous_state (f : Flow) (now : ℕ) (p : BitVec 16) (sendack : Bool) :
    (f.ackContiguous now p sendack).rxackseq = p.toNat ∧
      (f.ackContiguous now p sendack).rxackct = min (f.rxackct + 1) ackctMax := by
  unfold ackContiguous
  dsimp only
  split_ifs
  · exact ⟨rfl, rfl⟩
  · exact ⟨rfl, rfl⟩
  · exact ⟨rfl, rfl⟩
  · exact ⟨rfl, rfl⟩
  · obtain ⟨h1, h2, -⟩ := flushack_state { f with
      rxackseq := p.toNat
      rxackct := min (f.rxackct + 1) ackctMax
      rxunacked := f.rxunacked + 1 } now
    exact ⟨h1, h2⟩

theorem ackGap_state (f : Flow) (now : ℕ) (p : BitVec 16) (sendack : Bool) :
    (f.ackGap now p sendack).rxackseq = p.toNat ∧ (f.ackGap now p sendack).rxackct = 0 := by
  unfold ackGap
  dsimp only
  split_ifs <;> exact ⟨rfl, rfl⟩

theorem ackOld_state (f : Flow) (now : ℕ) (p : BitVec 16) (sendack : Bool) :
    (f.ackOld now p sendack).rxackseq = f.rxackseq ∧
      (f.ackOld now p sendack).rxackct = f.rxackct := by
  obtain ⟨h1, h2, -⟩ := flushack_state f now
  unfold ackOld
  dsimp only
  split_ifs <;> exact ⟨h1, h2⟩

theorem acknowledge_lt (h : f.rxackseq < 2 ^ 16) (now n : ℕ) (sendack : Bool) :
    (f.acknowledge now n sendack).rxackseq < 2 ^ 16 := by
  unfold acknowledge
  dsimp only
  split_ifs
  · rw [(ackContiguous_state _ now _ sendack).1]
    exact BitVec.isLt _
  · rw [(ackGap_state _ now _ sendack).1]
    exact BitVec.isLt _
  · rw [(ackOld_state _ now _ sendack).1]
    exact h
  · exact h

theorem acknowledgeAll_lt (h : f.rxackseq < 2 ^ 16) (calls : List AckCall) :
    (f.acknowledgeAll calls).rxackseq < 2 ^ 16 := by
  induction calls generalizing f with
  | nil => exact h
  | cons c calls ih => exact ih (acknowledge_lt h c.now c.pktseq c.sendack)

/-- **One call** with a number that fits the parameter and was not passed before. -/
theorem acknowledge_run {l : List ℕ} (h : f.RunOf l) (hlt : f.rxackseq < 2 ^ 16) (now : ℕ)
    (sendack : Bool) {n : ℕ} (h0 : 1 ≤ n) (hn : n < 2 ^ 16) (hnew : n ∉ l) :
    (f.acknowledge now n sendack).RunOf (l ++ [n]) := by
  obtain ⟨htop, hgreatest, hmax, hle, hrun⟩ := h
  have hp : (BitVec.ofNat 16 n).toNat = n := by
    rw [BitVec.toNat_ofNat, Nat.mod_eq_of_lt hn]
  have hd : Word.wrap 32 ((n : ℤ) - f.rxackseq) = n - f.rxackseq :=
    Word.wrap_eq_self (by decide) (by omega) (by omega)
  have hne : n ≠ f.rxackseq := by
    rintro rfl
    exact (List.mem_cons.mp htop).elim (fun h => by omega) hnew
  have hmem : ∀ {m : ℕ}, m ∈ 0 :: l → m ∈ 0 :: (l ++ [n]) := fun hm =>
    (List.mem_cons.mp hm).elim (fun h => h ▸ List.mem_cons_self) fun h =>
      List.mem_cons_of_mem _ (List.mem_append_left _ h)
  have hself : n ∈ 0 :: (l ++ [n]) := by simp
  have hall : ∀ {t : ℕ}, f.rxackseq ≤ t → n ≤ t → ∀ m ∈ l ++ [n], m ≤ t := by
    intro t h1 h2 m hm
    rcases List.mem_append.mp hm with hm | hm
    · exact (hgreatest m hm).trans h1
    · exact (List.mem_singleton.mp hm).trans_le h2
  unfold acknowledge
  dsimp only
  rw [hp, hd]
  split_ifs with h1 h2 h3
  · obtain ⟨s1, s2⟩ := ackContiguous_state { f with log := .acknowledged n :: f.log } now
      (BitVec.ofNat 16 n) sendack
    rw [hp] at s1
    dsimp only at s2
    refine ⟨by rwa [s1], hall (by omega) (by omega), by omega, by omega, fun m h4 h5 => ?_⟩
    rcases (show m = n ∨ m ≤ f.rxackseq by omega) with rfl | h6
    · exact hself
    · exact hmem (hrun m (by omega) h6)
  · obtain ⟨s1, s2⟩ := ackGap_state { f with log := .acknowledged n :: f.log } now
      (BitVec.ofNat 16 n) sendack
    rw [hp] at s1
    refine ⟨by rwa [s1], hall (by omega) (by omega), by omega, by omega, fun m h4 h5 => ?_⟩
    rwa [show m = n by omega]
  · obtain ⟨s1, s2⟩ := ackOld_state { f with log := .acknowledged n :: f.log } now
      (BitVec.ofNat 16 n) sendack
    dsimp only at s1 s2
    refine ⟨hmem (by rwa [s1]), hall (by omega) (by omega), by omega, by omega, fun m h4 h5 => ?_⟩
    exact hmem (hrun m (by omega) (by omega))
  · omega

/-! ## All calls -/

theorem acknowledgeAll_run (calls : List AckCall) {l : List ℕ} (h : f.RunOf l)
    (hlt : f.rxackseq < 2 ^ 16) (hnd : (l ++ calls.map AckCall.pktseq).Nodup)
    (h0 : ∀ c ∈ calls, 1 ≤ c.pktseq) (hn : ∀ c ∈ calls, c.pktseq < 2 ^ 16) :
    (f.acknowledgeAll calls).RunOf (l ++ calls.map AckCall.pktseq) := by
  induction calls generalizing f l with
  | nil =>
    rw [List.map_nil, List.append_nil]
    exact h
  | cons c calls ih =>
    rw [List.map_cons, List.append_cons] at hnd ⊢
    have hnew : c.pktseq ∉ l := fun hm =>
      List.disjoint_of_nodup_append (List.nodup_append.mp hnd).1 hm (List.mem_singleton_self _)
    refine ih ?_ (acknowledge_lt hlt ..) hnd (fun d hd => h0 d (List.mem_cons_of_mem c hd))
      fun d hd => hn d (List.mem_cons_of_mem c hd)
    exact acknowledge_run h hlt c.now c.sendack (h0 c List.mem_cons_self)
      (hn c List.mem_cons_self) hnew

end Flow

/-- **The acknowledgment run.** After any calls of `acknowledge` with distinct numbers, each at
least 1, by a flow that has acknowledged nothing before, started or not, `rxackseq` is the greatest
number passed, `rxackct` is at most 15, and every number from `rxackseq - rxackct` to `rxackseq` was
passed, if and only if every number passed is below `2 ^ 16`. -/
theorem ack_run {chan : BitVec 8} {f : Flow} (hf : f.toAckState = (Flow.new chan).toAckState)
    (calls : List AckCall) (hnd : (calls.map AckCall.pktseq).Nodup)
    (h0 : ∀ c ∈ calls, 1 ≤ c.pktseq) :
    (f.acknowledgeAll calls).RunOf (calls.map AckCall.pktseq) ↔
      ∀ c ∈ calls, c.pktseq < 2 ^ 16 := by
  have hseq : f.rxackseq = 0 := congrArg AckState.rxackseq hf
  have hct : f.rxackct = 0 := congrArg AckState.rxackct hf
  have hlt : f.rxackseq < 2 ^ 16 := by
    rw [hseq]
    exact Nat.two_pow_pos 16
  refine ⟨fun h c hc => ?_, fun hn => ?_⟩
  · exact (h.greatest _ (List.mem_map_of_mem hc)).trans_lt (Flow.acknowledgeAll_lt hlt calls)
  · have hnew : f.RunOf [] := by
      refine ⟨by rw [hseq]; exact List.mem_singleton_self 0, nofun,
        by rw [hct]; exact Nat.zero_le _, by rw [hct, hseq], fun n _ h => ?_⟩
      rw [hseq] at h
      exact List.mem_singleton.mpr (Nat.le_zero.mp h)
    exact Flow.acknowledgeAll_run calls hnew hlt (by rwa [List.nil_append]) h0 hn

/-- Packets 1, 2 and 4 of a started flow: the run is packet 4 alone. -/
theorem ack_run_gap : (((Flow.new 1#8).start silent).acknowledgeAll
    [⟨0, 1, true⟩, ⟨0, 2, true⟩, ⟨0, 4, true⟩]).RunOf [1, 2, 4] :=
  (ack_run (show ((Flow.new 1#8).start silent).toAckState = (Flow.new 1#8).toAckState from rfl)
    [⟨0, 1, true⟩, ⟨0, 2, true⟩, ⟨0, 4, true⟩] (by decide)
    (by decide)).mpr (by decide)

/-- Packet 65536 is taken for packet 0. -/
theorem ack_run_wide :
    ¬(((Flow.new 1#8).start silent).acknowledgeAll [⟨0, 2 ^ 16, true⟩]).RunOf [2 ^ 16] := by
  intro h
  exact absurd (h.greatest _ (List.mem_singleton_self _)) (by decide +kernel)

end Sst
