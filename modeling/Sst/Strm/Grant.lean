import Sst.Strm.Receive
import Sst.Stream.Receive
import Mathlib.Data.Nat.Log

/-!
# The receive window

A stream grants its peer a window as the exponent of a power of two.

* `RxStream.rwin`, `windowExponent`, `RxStream.calcReceiveWindow`: the exponent granted.
* `windowExponent_eq`, `windowExponent_none`: the loop that finds it.
* `Peer.calcTransmitWindow_twin`: the window that the peer derives from it.
* **`receive_window_iff`**: the window is granted up to rounding, unless it is the largest `int`.
-/

namespace Sst

open Word

/-! ## Granting -/

/-- `StreamProtocol::minReceiveBuffer`. -/
def minReceiveBuffer : ℤ := mtu * 2

/-- `BaseStream::setReceiveBuffer`: the size of the buffer. -/
def setReceiveBuffer (size : ℤ) : ℤ := if size < minReceiveBuffer then minReceiveBuffer else size

/-- The current receive window for a buffer of this size. -/
def RxStream.rwin (s : RxStream) (rcvbuf : ℤ) : ℤ :=
  let rwin := max 0 (wrap 32 (rcvbuf - s.rbufused))
  if s.ravail = 0 ∧ 0 < s.rbufused then max rwin minReceiveBuffer else rwin

/-- `x << i` for an `int`; the count is taken modulo 32. -/
def shiftLeft (x : ℤ) (i : ℕ) : ℤ := wrap 32 (x * 2 ^ (i % 32))

/-- The loop of `calcReceiveWindow`, for so many turns. -/
def windowExponent (rwin : ℤ) : ℕ → ℕ → Option ℕ
  | 0, _ => none
  | fuel + 1, i =>
    if wrap 32 (shiftLeft 2 i - 1) ≤ rwin then windowExponent rwin fuel (i + 1) else some i

/-- `BaseStream::calcReceiveWindow`: the byte that holds the exponent. -/
def RxStream.calcReceiveWindow (s : RxStream) (rcvbuf : ℤ) (fuel : ℕ) : Option ℕ :=
  (windowExponent (s.rwin rcvbuf) fuel 0).map (· % 2 ^ 8)

/-! ## The loop -/

theorem RxStream.rwin_eq (s : RxStream) (rcvbuf : ℤ) : 0 ≤ s.rwin rcvbuf ∧
    s.rwin rcvbuf ≤ 2 ^ 31 - 1 ∧
    (s.rwin rcvbuf = 2 ^ 31 - 1 ↔ wrap 32 (rcvbuf - s.rbufused) = 2 ^ 31 - 1) := by
  have hlt := wrap_lt (w := 32) (by decide) (rcvbuf - s.rbufused)
  have hmin : minReceiveBuffer = 2400 := rfl
  unfold RxStream.rwin
  dsimp only
  rw [hmin]
  split_ifs <;> omega

theorem bound_eq {i : ℕ} (hi : i ≤ 30) : wrap 32 (shiftLeft 2 i - 1) = 2 ^ (i + 1) - 1 := by
  have hpos : (0 : ℤ) < 2 ^ i := pow_pos (by decide) i
  have hle : (2 : ℤ) ^ i ≤ 2 ^ 30 := pow_le_pow_right₀ (by decide) hi
  have hexp : (2 : ℤ) * 2 ^ i = 2 ^ (i + 1) := by rw [pow_succ, mul_comm]
  rw [shiftLeft, wrap_sub_wrap_left, Nat.mod_eq_of_lt (by omega), ← hexp]
  exact wrap_eq_self (by decide) (by omega) (by omega)

/-- The loop ends at the first exponent beyond the window. -/
theorem windowExponent_eq {rwin : ℤ} {i n : ℕ}
    (hle : ∀ j < n, wrap 32 (shiftLeft 2 (i + j) - 1) ≤ rwin)
    (hlt : rwin < wrap 32 (shiftLeft 2 (i + n) - 1)) :
    windowExponent rwin (n + 1) i = some (i + n) := by
  induction n generalizing i with
  | zero =>
    rw [Nat.add_zero] at hlt
    rw [windowExponent, if_neg (not_le.2 hlt), Nat.add_zero]
  | succ n ih =>
    have h0 := hle 0 (Nat.succ_pos n)
    have hsucc : ∀ j, i + 1 + j = i + (j + 1) := fun j => by omega
    rw [Nat.add_zero] at h0
    rw [windowExponent, if_pos h0, ih, hsucc]
    · intro j hj
      rw [hsucc]
      exact hle (j + 1) (Nat.succ_lt_succ hj)
    · rw [hsucc]
      exact hlt

/-- **The loop never ends** for the largest window. -/
theorem windowExponent_none {rwin : ℤ} (h : 2 ^ 31 - 1 ≤ rwin) (fuel i : ℕ) :
    windowExponent rwin fuel i = none := by
  induction fuel generalizing i with
  | zero => rfl
  | succ fuel ih =>
    have hlt := wrap_lt (w := 32) (by decide) (shiftLeft 2 i - 1)
    have hle : wrap 32 (shiftLeft 2 i - 1) ≤ rwin := by omega
    rw [windowExponent, if_pos hle, ih]

/-- The exponent of a smaller window. -/
theorem windowExponent_some {rwin : ℤ} (h0 : 0 ≤ rwin) (h : rwin < 2 ^ 31 - 1) :
    ∃ i ≤ 30, windowExponent rwin (i + 1) 0 = some i ∧ (2 : ℤ) ^ i - 1 ≤ rwin ∧
      rwin < 2 ^ (i + 1) - 1 := by
  obtain ⟨r, rfl⟩ := Int.eq_ofNat_of_zero_le h0
  have h1 : 2 ^ Nat.log 2 (r + 1) ≤ r + 1 := Nat.pow_log_le_self 2 (Nat.succ_ne_zero r)
  have h2 : r + 1 < 2 ^ (Nat.log 2 (r + 1) + 1) := Nat.lt_pow_succ_log_self (by decide) _
  set i := Nat.log 2 (r + 1)
  have hi : i ≤ 30 := by
    by_contra hc
    have hp : 2 ^ 31 ≤ 2 ^ i := Nat.pow_le_pow_right (by decide) (not_le.1 hc)
    omega
  have h1' : (2 : ℤ) ^ i ≤ r + 1 := by exact_mod_cast h1
  have h2' : (r : ℤ) + 1 < 2 ^ (i + 1) := by exact_mod_cast h2
  refine ⟨i, hi, ?_, by omega, by omega⟩
  have hloop : ∀ j < i, wrap 32 (shiftLeft 2 (0 + j) - 1) ≤ (r : ℤ) := by
    intro j hj
    rw [Nat.zero_add, bound_eq (by omega)]
    have hp : (2 : ℤ) ^ (j + 1) ≤ 2 ^ i := pow_le_pow_right₀ (by decide) hj
    omega
  have hend : (r : ℤ) < wrap 32 (shiftLeft 2 (0 + i) - 1) := by
    rw [Nat.zero_add, bound_eq hi]
    omega
  rw [windowExponent_eq hloop hend, Nat.zero_add]

/-! ## The window of the peer -/

namespace Strm.Peer

variable {w : Peer} {s t : StrmId}

theorem modStream_twin (w : Peer) (s t : StrmId) (g : BaseStream → BaseStream)
    (hg : (g (w.streams s)).twin = (w.streams s).twin) :
    ((w.modStream s g).streams t).twin = (w.streams t).twin := by
  rw [modStream_streams]
  split_ifs with h
  · rw [hg, h]
  · rfl

theorem queueOn_twin (w : Peer) (f : ℕ) (s t : StrmId) :
    ((w.queueOn f s).1.streams t).twin = (w.streams t).twin := by
  unfold queueOn
  dsimp only
  split_ifs
  · rfl
  · rfl
  · unfold standInLine enqueueStream
    rw [modStream_twin _ _ _ _ rfl]
    exact modStream_twin w s t (fun b => { b with stamp := w.clock }) rfl

theorem attachTo_twin (w : Peer) (f : ℕ) (s t : StrmId) :
    ((w.attachTo f s).1.streams t).twin = (w.streams t).twin := by
  unfold attachTo
  split
  · rename_i ctr i _ _
    have hjoin : ((w.joinFlow f s ctr i).streams t).twin = (w.streams t).twin := by
      unfold joinFlow setAttaching
      rw [modStream_twin _ _ _ _ rfl, modFlow_streams, modStream_twin _ _ _ _ rfl]
      rfl
    dsimp only
    rw [queueOn_twin, ← hjoin]
    unfold takeName
    split_ifs
    · exact modStream_twin _ s t (fun b => { b with usid := some ⟨ctr, _⟩ }) rfl
    · rfl
  · rfl

theorem attachUnder_twin (w : Peer) (f : ℕ) (s p t : StrmId) :
    ((w.attachUnder f s p).1.streams t).twin = (w.streams t).twin := by
  unfold attachUnder
  split
  · unfold awaitParent
    exact modStream_twin w p t (fun b => { b with
      listeners := if s ∈ b.listeners then b.listeners else b.listeners ++ [s] }) rfl
  · rw [attachTo_twin, modStream_twin _ _ _ _ rfl]

theorem tattach_twin (w : Peer) (s t : StrmId) :
    ((w.tattach s).1.streams t).twin = (w.streams t).twin := by
  unfold tattach
  dsimp only
  split_ifs
  · rfl
  · split
    · rfl
    · split
      · exact attachUnder_twin w _ s _ t
      · rw [attachUnder_twin, modStream_twin _ _ _ _ rfl]
      · exact modStream_twin w s t (fun b => { b with state := .disconnected }) rfl
  · split
    · rfl
    · exact attachTo_twin w _ s t

theorem txenqflow_twin (w : Peer) (s t : StrmId) (immed : Bool) :
    ((w.txenqflow s immed).1.streams t).twin = (w.streams t).twin := by
  unfold txenqflow
  split
  · exact tattach_twin w s t
  · exact queueOn_twin w _ s t

/-- **The window that the peer derives** from an exponent. -/
theorem calcTransmitWindow_twin (w : Peer) (s : StrmId) {win : ℕ} (hwin : win ≤ 30) :
    ((w.calcTransmitWindow s win).1.streams s).twin = 2 ^ win - 1 := by
  have hval : wrap 32 (2 ^ (win % 2 ^ 5) - 1) = 2 ^ win - 1 := by
    have hpos : (0 : ℤ) < 2 ^ win := pow_pos (by decide) win
    have hle : (2 : ℤ) ^ win ≤ 2 ^ 30 := pow_le_pow_right₀ (by decide) hwin
    rw [Nat.mod_eq_of_lt (by omega)]
    exact wrap_eq_self (by decide) (by omega) (by omega)
  unfold calcTransmitWindow
  dsimp only
  split_ifs
  · rw [txenqflow_twin, modStream_self]
    exact hval
  · rw [modStream_self]
    exact hval

end Strm.Peer

/-! ## The grant -/

/-- **The receive window.** For every buffer size and use, the loop ends with an exponent of five
bits, from which a stream `p` of a peer `w` derives a transmit window that is granted up to
rounding, exactly if the space left is not the largest `int`. -/
theorem receive_window_iff (s : RxStream) (size : ℤ) (w : Strm.Peer) (p : Strm.StrmId) :
    (∃ fuel win, s.calcReceiveWindow (setReceiveBuffer size) fuel = some win ∧ win < 2 ^ 5 ∧
      let twin := ((w.calcTransmitWindow p win).1.streams p).twin
      twin ≤ s.rwin (setReceiveBuffer size) ∧ s.rwin (setReceiveBuffer size) < 2 * twin + 1) ↔
    wrap 32 (setReceiveBuffer size - s.rbufused) ≠ 2 ^ 31 - 1 := by
  obtain ⟨h0, hle, hmax⟩ := s.rwin_eq (setReceiveBuffer size)
  rw [ne_eq, ← hmax]
  constructor
  · rintro ⟨fuel, win, hwin, -⟩ he
    rw [RxStream.calcReceiveWindow, windowExponent_none he.ge] at hwin
    cases hwin
  · intro hne
    obtain ⟨i, hi, hloop, h1, h2⟩ := windowExponent_some h0 (lt_of_le_of_ne hle hne)
    refine ⟨i + 1, i, ?_, by omega, ?_⟩
    · rw [RxStream.calcReceiveWindow, hloop, Option.map_some, Nat.mod_eq_of_lt (by omega)]
    · dsimp only
      rw [Strm.Peer.calcTransmitWindow_twin w p hi]
      have hexp : (2 : ℤ) ^ (i + 1) = 2 * 2 ^ i := by rw [pow_succ, mul_comm]
      omega

/-- An empty stream with the largest buffer. -/
theorem receive_window_largest : setReceiveBuffer (2 ^ 31 - 1) = 2 ^ 31 - 1 ∧
    ∀ fuel, (RxStream.new true).calcReceiveWindow (setReceiveBuffer (2 ^ 31 - 1)) fuel = none := by
  refine ⟨rfl, fun fuel => ?_⟩
  have hmax : (RxStream.new true).rwin (setReceiveBuffer (2 ^ 31 - 1)) = 2 ^ 31 - 1 :=
    (RxStream.rwin_eq _ _).2.2.2 (by decide +kernel)
  rw [RxStream.calcReceiveWindow, windowExponent_none hmax.ge]
  rfl

end Sst
