import Sst.Flow.Transmit

/-!
# Congestion control

`ccReset`, `ccMissed` and the two switches in `Flow::receive` that grow the window, on each
acknowledgment and once for each round trip. The window is computed with `unsigned` arithmetic.

* `Flow.ccReset`, `Flow.ccMissed`, `Flow.ccAcked`, `Flow.ccRoundTrip`.
* **`Flow.Tuned`**: congestion control leaves the rest of the flow alone, and the window positive.
-/

namespace Sst

namespace Flow

/-- `Flow::ccReset`. -/
def ccReset (f : Flow) : Flow :=
  { f with
    cwnd := cwndMin
    cwndlim := true
    ssthresh := cwndMax
    sstoggle := true
    ssbase := 0#32
    cwndinc := 1
    lastrtt := 0 }

/-- The new-loss rule of TCP: one cut of the window for each flight. -/
def cutWindow (f : Flow) (pktseq : ℕ) : Flow :=
  if pktseq ≤ f.recovseq then f
  else
    let ssthresh := qMax (f.cwnd / 2#32) cwndMin
    { f with ssthresh := ssthresh, cwnd := ssthresh, recovseq := f.txseq }

/-- The loss rule of `CC_AGGRESSIVE`: clamp the window to the packets still expected. -/
def clampWindow (f : Flow) : Flow :=
  let lost := max 0 (Word.wrap 32 ((f.txackseq : ℤ) - f.markbase - f.markacks.toNat))
  let expected := f.marksent - BitVec.ofInt 32 lost
  if expected < f.cwnd then { f with ssbase := expected, cwnd := qMax cwndMin expected } else f

/-- `Flow::ccMissed`. -/
def ccMissed (f : Flow) (pktseq : ℕ) : Flow :=
  if f.nocc then f
  else match f.ccmode with
    | .tcp | .delay | .vegas => f.cutWindow pktseq
    | .aggressive => f.clampWindow
    | .ctcp => f.check false
    | .fixed => f

/-- Slow start. -/
def slowStart (f : Flow) (newpackets : ℕ) : Flow :=
  if 0 < newpackets && f.cwndlim && f.cwnd < f.ssthresh then
    { f with cwnd := qMin (f.cwnd + BitVec.ofNat 32 newpackets) f.ssthresh }
  else f

/-- `Flow::markElapsed`. -/
def markElapsed (f : Flow) (env : Env) : ℕ := env.now - f.marktime

/-- Slow start against a per-round-trip baseline. -/
def baseStart (f : Flow) (env : Env) (newpackets : ℕ) : Flow :=
  if f.ssbase < f.markacks && f.markElapsed env ≤ f.lastrtt then
    { f with cwnd := f.cwnd + qMin (BitVec.ofNat 32 newpackets) (f.markacks - f.ssbase) }
  else f

/-- `CC_VEGAS`: slow start on every other acknowledgment. -/
def vegasStart (f : Flow) (newpackets : ℕ) : Flow :=
  let f := { f with sstoggle := !f.sstoggle }
  if f.sstoggle then f else f.slowStart newpackets

/-- `CC_DELAY`: no growth while the window shrinks. -/
def delayStart (f : Flow) (env : Env) (newpackets : ℕ) : Flow :=
  if f.cwndinc < 0 then f else f.baseStart env newpackets

/-- The switch of `Flow::receive` on newly acknowledged packets. -/
def ccAcked (f : Flow) (env : Env) (newpackets : ℕ) : Flow :=
  if f.nocc then f
  else match f.ccmode with
    | .vegas => f.vegasStart newpackets
    | .tcp => f.slowStart newpackets
    | .delay => f.delayStart env newpackets
    | .aggressive => f.baseStart env newpackets
    | .ctcp => f.check false
    | .fixed => f

/-- The window of `CC_DELAY` after a round trip. -/
def delayTrip (f : Flow) (env : Env) : Flow :=
  let f :=
    if 0 < f.cwndinc then
      if env.rttTests.rttJump || cwndMax ≤ f.cwnd then { f with cwndinc := -1 }
      else { f with cwnd := f.cwnd + BitVec.ofInt 32 f.cwndinc }
    else
      if env.rttTests.ppsDive || f.cwnd ≤ cwndMin then
        { f with ssbase := f.cwnd, cwnd := f.cwnd + 1#32, cwndinc := 1 }
      else { f with cwnd := f.cwnd + BitVec.ofInt 32 f.cwndinc }
  { f with cwnd := qMin (qMax cwndMin f.cwnd) cwndMax }

/-- The window of `CC_VEGAS` after a round trip. -/
def vegasTrip (f : Flow) (env : Env) : Flow :=
  if env.rttTests.diffLow && f.cwnd < cwndMax && f.cwndlim then { f with cwnd := f.cwnd + 1#32 }
  else if env.rttTests.diffHigh && cwndMin < f.cwnd then
    { f with cwnd := f.cwnd - 1#32, ssthresh := qMin f.ssthresh (f.cwnd - 1#32) }
  else f

/-- The window of `CC_TCP` after a round trip. -/
def tcpTrip (f : Flow) : Flow :=
  { f with cwnd := if f.cwndlim then f.cwnd + 1#32 else f.cwnd, cwndlim := false }

/-- The switch of `Flow::receive` once for each round trip. -/
def ccTrip (f : Flow) (env : Env) : Flow :=
  if f.nocc then f
  else match f.ccmode with
    | .tcp => f.tcpTrip
    | .delay => f.delayTrip env
    | .vegas => f.vegasTrip env
    | .aggressive | .ctcp | .fixed => f

/-- The round-trip block of `Flow::receive`, when the acknowledgment passes the mark. -/
def ccRoundTrip (f : Flow) (env : Env) : Flow :=
  let rtt := max 1 (min rttMax (f.markElapsed env))
  { { f with markseq := f.txseq }.ccTrip env with lastrtt := rtt }

/-! ## What congestion control leaves alone -/

/-- A window `a` that may grow by `n` without wrapping becomes the positive window `b`. -/
def Wide (n : ℕ) (a b : BitVec 32) : Prop :=
  0 < a.toNat → a.toNat + n < 2 ^ 32 → 0 < b.toNat ∧ b.toNat ≤ max (a.toNat + n) (2 ^ 20)

theorem Wide.refl (n : ℕ) (a : BitVec 32) : Wide n a a := fun h _ => ⟨h, by omega⟩

theorem wide_half (a : BitVec 32) : Wide 0 a (qMax (a / 2#32) cwndMin) := by
  intro _ _
  rw [toNat_half]
  omega

/-- `g` with the congestion control state of `f`. -/
def like (f g : Flow) : Flow := { g with toCCState := f.toCCState, fault := f.fault }

/-- `g` is `f` with another congestion control state, with the same `nocc` and a window that grew
by at most `n`, and possibly a failed assertion. -/
structure Tuned (n : ℕ) (f g : Flow) : Prop where
  rest : f.like g = f
  nocc : g.nocc = f.nocc
  wide : Wide n f.cwnd g.cwnd

theorem Tuned.refl (n : ℕ) (f : Flow) : Tuned n f f := ⟨rfl, rfl, .refl n _⟩

/-- What is tuned from `f₁`, which differs from `f` in the congestion control state only. -/
theorem Tuned.of_like {n : ℕ} {f f₁ g : Flow} (h : Tuned n f₁ g) (hf : f.like f₁ = f)
    (hn : f₁.nocc = f.nocc) (hc : f₁.cwnd = f.cwnd) : Tuned n f g := by
  have hl : f.like (f₁.like g) = f.like f₁ := congrArg f.like h.rest
  exact ⟨hl.trans hf, h.nocc.trans hn, hc ▸ h.wide⟩

theorem cutWindow_tuned (f : Flow) (pktseq : ℕ) : Tuned 0 f (f.cutWindow pktseq) := by
  unfold cutWindow
  split_ifs
  · exact .refl 0 f
  · exact ⟨rfl, rfl, wide_half f.cwnd⟩

theorem clampWindow_tuned (f : Flow) : Tuned 0 f f.clampWindow := by
  dsimp only [clampWindow]
  split_ifs with h
  · refine ⟨rfl, rfl, fun _ _ => ?_⟩
    rw [BitVec.lt_def] at h
    dsimp only
    rw [toNat_qMax, show cwndMin.toNat = 2 from rfl]
    omega
  · exact .refl 0 f

theorem ccMissed_tuned (f : Flow) (pktseq : ℕ) : Tuned 0 f (f.ccMissed pktseq) := by
  unfold ccMissed
  split_ifs
  · exact .refl 0 f
  · cases f.ccmode with
    | aggressive => exact clampWindow_tuned f
    | ctcp => exact ⟨rfl, rfl, .refl 0 _⟩
    | fixed => exact .refl 0 f
    | _ => exact cutWindow_tuned f pktseq

theorem slowStart_tuned (f : Flow) (n : ℕ) : Tuned n f (f.slowStart n) := by
  unfold slowStart
  split_ifs with h
  · refine ⟨rfl, rfl, fun h0 h1 => ?_⟩
    have hlt := of_decide_eq_true (Bool.and_eq_true _ _ ▸ h).2
    rw [BitVec.lt_def] at hlt
    dsimp only
    rw [toNat_qMin, toNat_add_ofNat h1]
    omega
  · exact .refl n f

theorem baseStart_tuned (f : Flow) (env : Env) (n : ℕ) : Tuned n f (f.baseStart env n) := by
  unfold baseStart
  split_ifs
  · refine ⟨rfl, rfl, fun h0 h1 => ?_⟩
    have hn : (qMin (BitVec.ofNat 32 n) (f.markacks - f.ssbase)).toNat ≤ n := by
      rw [toNat_qMin, BitVec.toNat_ofNat, Nat.mod_eq_of_lt (by omega)]
      exact min_le_left _ _
    dsimp only
    rw [BitVec.toNat_add, Nat.mod_eq_of_lt (by omega)]
    omega
  · exact .refl n f

theorem ccAcked_tuned (f : Flow) (env : Env) (n : ℕ) : Tuned n f (f.ccAcked env n) := by
  unfold ccAcked
  split_ifs
  · exact .refl n f
  · cases f.ccmode with
    | tcp => exact slowStart_tuned f n
    | aggressive => exact baseStart_tuned f env n
    | delay =>
      change Tuned n f (if f.cwndinc < 0 then f else f.baseStart env n)
      split_ifs
      · exact .refl n f
      · exact baseStart_tuned f env n
    | vegas =>
      change Tuned n f (if !f.sstoggle then { f with sstoggle := !f.sstoggle } else
        { f with sstoggle := !f.sstoggle }.slowStart n)
      split_ifs
      · exact ⟨rfl, rfl, .refl n _⟩
      · exact (slowStart_tuned { f with sstoggle := !f.sstoggle } n).of_like rfl rfl rfl
    | ctcp => exact ⟨rfl, rfl, .refl n _⟩
    | fixed => exact .refl n f

theorem delayTrip_tuned (f : Flow) (env : Env) : Tuned 1 f (f.delayTrip env) := by
  have hw : ∀ a b : BitVec 32, Wide 1 a (qMin (qMax cwndMin b) cwndMax) := by
    intro a b _ _
    rw [toNat_qMin, toNat_qMax, show cwndMin.toNat = 2 from rfl,
      show cwndMax.toNat = 2 ^ 20 from rfl]
    omega
  dsimp only [delayTrip]
  split_ifs <;> exact ⟨rfl, rfl, hw _ _⟩

theorem vegasTrip_tuned (f : Flow) (env : Env) : Tuned 1 f (f.vegasTrip env) := by
  unfold vegasTrip
  split_ifs with h1 h2
  · refine ⟨rfl, rfl, fun h3 h4 => ?_⟩
    dsimp only
    rw [toNat_add_ofNat (n := 1) h4]
    omega
  · refine ⟨rfl, rfl, fun h3 h4 => ?_⟩
    have hlt := of_decide_eq_true (Bool.and_eq_true _ _ ▸ h2).2
    rw [BitVec.lt_def, show cwndMin.toNat = 2 from rfl] at hlt
    dsimp only
    rw [BitVec.toNat_sub_of_le (by rw [BitVec.le_def]; exact (by decide : 1 ≤ 2).trans hlt.le)]
    change 0 < f.cwnd.toNat - 1 ∧ f.cwnd.toNat - 1 ≤ _
    omega
  · exact .refl 1 f

theorem ccTrip_tuned (f : Flow) (env : Env) : Tuned 1 f (f.ccTrip env) := by
  unfold ccTrip
  split_ifs
  · exact .refl 1 f
  · cases f.ccmode with
    | tcp =>
      refine ⟨rfl, rfl, fun h1 h2 => ?_⟩
      change 0 < (if f.cwndlim then f.cwnd + 1#32 else f.cwnd).toNat ∧
        (if f.cwndlim then f.cwnd + 1#32 else f.cwnd).toNat ≤ _
      split_ifs
      · rw [toNat_add_ofNat (n := 1) h2]
        omega
      · omega
    | delay => exact delayTrip_tuned f env
    | vegas => exact vegasTrip_tuned f env
    | _ => exact .refl 1 f

end Flow

end Sst
