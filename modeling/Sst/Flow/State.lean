import Sst.Lib.Word

/-!
# The state of a flow

A flow carries sequenced, acknowledged packets between two endpoints. Its record follows the
sections of the class: transmit state, congestion control, receive state, acknowledgment state.

* `Packet`: a datagram as sealed by the armor.
* `Event`: what a flow does that its peer, its upper layer or a theorem can observe.
* `Call`, `Env`: what the upper layer may do from a callback, and the environment of one operation.
* `Flow`, `Flow.new`: the record and the state set up by the constructor.

Sequence numbers are the `quint64` counters of the code as natural numbers, which `fault` keeps
below `maxPacketSeq`; `quint32` counters and masks are `BitVec 32`.
-/

namespace Sst

/-! ## Protocol constants -/

/-- Space for the two flow header words. -/
def hdrlen : ℕ := 8

/-- `chanBits`: bits above the sequence number in a header word. -/
def chanBits : ℕ := 8

/-- `seqMask` and `ackSeqMask`. -/
def seqMask : BitVec 32 := BitVec.ofNat 32 (2 ^ 24 - 1)

def chanShift : ℕ := 24

def ackctShift : ℕ := 24

def ackctMask : BitVec 32 := 15#32

def ackctMax : ℕ := 15

/-- Size in bits of `rxmask` and `txackmask`. -/
def maskBits : ℕ := 32

def maxPacketSeq : ℕ := 2 ^ 64 - 1

def rttMax : ℕ := 10 * 1000 * 1000

def cwndMin : BitVec 32 := 2#32

def cwndMax : BitVec 32 := BitVec.ofNat 32 (2 ^ 20)

def ackDelay : ℕ := 10 * 1000

def ackPackets : ℕ := 2

def ackAckPackets : ℕ := 4

/-- `qMin` on `quint32`. -/
def qMin (a b : BitVec 32) : BitVec 32 := if a < b then a else b

/-- `qMax` on `quint32`. -/
def qMax (a b : BitVec 32) : BitVec 32 := if a < b then b else a

/-- The difference of two sequence words, computed on the low 24 bits and sign extended. -/
def seqDiff (a b : BitVec 32) : ℤ := Word.sdiff chanBits a b

/-- A `quint64` moved by a signed distance. -/
def seqAdd (base : ℕ) (diff : ℤ) : ℕ := (((base : ℤ) + diff) % 2 ^ 64).toNat

/-! ## Arithmetic of `quint32` -/

theorem toNat_qMin (a b : BitVec 32) : (qMin a b).toNat = min a.toNat b.toNat := by
  unfold qMin
  split_ifs with h <;> rw [BitVec.lt_def] at h <;> omega

theorem toNat_qMax (a b : BitVec 32) : (qMax a b).toNat = max a.toNat b.toNat := by
  unfold qMax
  split_ifs with h <;> rw [BitVec.lt_def] at h <;> omega

theorem toNat_add_ofNat {a : BitVec 32} {n : ℕ} (h : a.toNat + n < 2 ^ 32) :
    (a + BitVec.ofNat 32 n).toNat = a.toNat + n := by
  rw [BitVec.toNat_add, BitVec.toNat_ofNat, Nat.mod_eq_of_lt (show n < 2 ^ 32 by omega),
    Nat.mod_eq_of_lt h]

theorem toNat_half (a : BitVec 32) : (qMax (a / 2#32) cwndMin).toNat = max (a.toNat / 2) 2 := by
  rw [toNat_qMax, BitVec.toNat_udiv]
  rfl

/-! ## Packets -/

/-- A datagram as the armor sealed it: the two header words in host order, the 64-bit sequence
number it was sealed with (`none` if no armor of the peer sealed it) and its size. -/
structure Packet where
  ptxseq : BitVec 32
  packseq : BitVec 32
  sealedAs : Option ℕ
  size : ℕ
  deriving DecidableEq

/-- The first header word: channel and low bits of the sequence number. -/
def seqWord (chan : BitVec 8) (seq : ℕ) : BitVec 32 :=
  (BitVec.ofNat 32 seq &&& seqMask) ||| (chan.setWidth 32 <<< chanShift)

/-- The second header word: acknowledgment count and low bits of the acknowledged number. -/
def ackWord (ackct ackseq : ℕ) : BitVec 32 :=
  (BitVec.ofNat 32 ackct <<< ackctShift) ||| (BitVec.ofNat 32 ackseq &&& seqMask)

/-- The acknowledgment count in a received header word. -/
def ackctOf (packseq : BitVec 32) : ℕ := ((packseq >>> ackctShift) &&& ackctMask).toNat

/-! ## Observations and callbacks -/

inductive LinkStatus
  | down
  | stalled
  | up
  deriving DecidableEq

inductive CCMode
  | tcp
  | aggressive
  | delay
  | vegas
  | ctcp
  | fixed
  deriving DecidableEq

/-- What happens at a flow, newest first in its log. -/
inductive Event
  | sent (pkt : Packet) (isdata : Bool)
  | accepted (pktseq : ℕ)
  | acknowledged (pktseq : ℕ)
  | acked (txseq rxseq : ℕ)
  | missed (txseq : ℕ)
  | expire (txseq : ℕ)
  | received (pktseq : ℕ)
  | readyTransmit
  | linkStatus (status : LinkStatus)
  deriving DecidableEq

/-- What the upper layer may do to the flow from a callback or on its own. -/
inductive Call
  | flowTransmit (size : ℕ)
  | acknowledge (pktseq : ℕ) (sendack : Bool)
  | mayTransmit
  deriving DecidableEq

/-- The outcomes of the floating point comparisons made once in a round trip. -/
structure RttTests where
  rttJump : Bool
  ppsDive : Bool
  diffLow : Bool
  diffHigh : Bool

/-- The environment of one operation: the clock, the socket, the float comparisons, the calls the
upper layer makes from each callback, and what its `flowReceive` returns. -/
structure Env where
  now : ℕ
  sockMay : ℕ
  sockCC : Bool
  rttTests : RttTests
  calls : Event → List Call
  accept : ℕ → Bool

/-! ## The flow -/

/-- The record of a transmitted packet. -/
structure TxEvent where
  size : ℕ
  data : Bool
  pipe : Bool
  deriving DecidableEq

/-- Transmit state. -/
structure TxState where
  txseq : ℕ
  txevts : List TxEvent
  txevtseq : ℕ
  txackseq : ℕ
  txackmask : BitVec 32
  txfltcnt : BitVec 32
  txfltsize : BitVec 32
  missthresh : ℕ

/-- Congestion control and round-trip measurement. -/
structure CCState where
  ccmode : CCMode
  nocc : Bool
  recovseq : ℕ
  markseq : ℕ
  markbase : ℕ
  marktime : ℕ
  markacks : BitVec 32
  marksent : BitVec 32
  cwnd : BitVec 32
  cwndlim : Bool
  ssthresh : BitVec 32
  sstoggle : Bool
  ssbase : BitVec 32
  cwndinc : ℤ
  lastrtt : ℕ

/-- Receive sequencing and replay protection. -/
structure RxState where
  rxseq : ℕ
  rxmask : BitVec 32

/-- Receive-side acknowledgment state; `acktimer` is the delay of the running timer. -/
structure AckState where
  rxackseq : ℕ
  rxackct : ℕ
  rxunacked : ℕ
  delayack : Bool
  acktimer : Option ℕ

/-- `Flow`: with `fault`, set when an assertion about the use of the flow fails, `overrun`, set by
an access outside `txevts` or the removal of a packet in the pipe, and `log`, the events so far. -/
structure Flow extends TxState, CCState, RxState, AckState where
  active : Bool
  remoteChannel : BitVec 8
  rtxtimer : Bool
  linkstat : LinkStatus
  fault : Bool
  overrun : Bool
  log : List Event

/-- The constructor. -/
def Flow.new (remoteChannel : BitVec 8) : Flow where
  txseq := 1
  txevts := [⟨0, false, false⟩]
  txevtseq := 0
  txackseq := 0
  txackmask := 1#32
  txfltcnt := 0#32
  txfltsize := 0#32
  missthresh := 3
  ccmode := .tcp
  nocc := false
  recovseq := 1
  markseq := 1
  markbase := 0
  marktime := 0
  markacks := 0#32
  marksent := 0#32
  cwnd := cwndMin
  cwndlim := true
  ssthresh := cwndMax
  sstoggle := true
  ssbase := 0#32
  cwndinc := 1
  lastrtt := 0
  rxseq := 0
  rxmask := 1#32
  rxackseq := 0
  rxackct := 0
  rxunacked := 0
  delayack := true
  acktimer := none
  active := false
  remoteChannel := remoteChannel
  rtxtimer := false
  linkstat := .down
  fault := false
  overrun := false
  log := []

/-! ## Reading the header words -/

theorem getLsbD_seqMask (i : ℕ) : seqMask.getLsbD i = decide (i < 24) := by
  rw [seqMask, BitVec.getLsbD_ofNat, Nat.testBit_two_pow_sub_one]
  by_cases h : i < 24
  · simp [h, show i < 32 by omega]
  · simp [h]

theorem toNat_mod_of_getLsbD {a : BitVec 32} {n : ℕ}
    (h : ∀ i < 24, a.getLsbD i = n.testBit i) : a.toNat % 2 ^ 24 = n % 2 ^ 24 := by
  apply Nat.eq_of_testBit_eq
  intro i
  rw [Nat.testBit_mod_two_pow, Nat.testBit_mod_two_pow]
  by_cases hi : i < 24
  · rw [← h i hi, BitVec.testBit_toNat]
  · simp [hi]

theorem ackWord_toNat_mod (ackct ackseq : ℕ) :
    (ackWord ackct ackseq).toNat % 2 ^ 24 = ackseq % 2 ^ 24 := by
  apply toNat_mod_of_getLsbD
  intro i hi
  rw [ackWord, BitVec.getLsbD_or, BitVec.getLsbD_and, BitVec.getLsbD_shiftLeft, getLsbD_seqMask,
    BitVec.getLsbD_ofNat, BitVec.getLsbD_ofNat]
  simp [hi, ackctShift, show i < 32 by omega]

theorem ackctOf_le (packseq : BitVec 32) : ackctOf packseq ≤ ackctMax := by
  rw [ackctOf, BitVec.toNat_and]
  exact Nat.and_le_right

theorem ackctOf_ackWord {ackct : ℕ} (h : ackct ≤ ackctMax) (ackseq : ℕ) :
    ackctOf (ackWord ackct ackseq) = ackct := by
  have hlt : ackct < 2 ^ 4 := by unfold ackctMax at h; omega
  have e : ackWord ackct ackseq >>> ackctShift &&& ackctMask = BitVec.ofNat 32 ackct := by
    apply BitVec.eq_of_getLsbD_eq
    intro i hi
    rw [BitVec.getLsbD_and, BitVec.getLsbD_ushiftRight, ackWord, BitVec.getLsbD_or,
      BitVec.getLsbD_and, BitVec.getLsbD_shiftLeft, getLsbD_seqMask]
    simp only [BitVec.getLsbD_ofNat]
    have hm : ackctMask.getLsbD i = decide (i < 4) := by
      rw [ackctMask, BitVec.getLsbD_ofNat, show (15 : ℕ) = 2 ^ 4 - 1 from rfl,
        Nat.testBit_two_pow_sub_one]
      by_cases h4 : i < 4 <;> simp [h4, hi]
    rw [hm]
    by_cases h4 : i < 4
    · simp [h4, ackctShift, show 24 + i < 32 by omega, show i < 32 by omega]
    · have : ackct.testBit i = false :=
        Nat.testBit_lt_two_pow (lt_of_lt_of_le hlt (Nat.pow_le_pow_right (by decide) (by omega)))
      simp [h4, this]
  rw [ackctOf, e, BitVec.toNat_ofNat, Nat.mod_eq_of_lt (by omega)]

/-- **A sequence word recovers a number less than `2 ^ 23` away.** -/
theorem seqDiff_ofNat {a : BitVec 32} {m n : ℕ} (ha : a.toNat % 2 ^ 24 = m % 2 ^ 24)
    (h1 : -2 ^ 23 ≤ (m : ℤ) - n) (h2 : (m : ℤ) - n < 2 ^ 23) :
    seqDiff a (BitVec.ofNat 32 n) = m - n :=
  Word.sdiff_ofNat (by decide) ha h1 h2

theorem seqDiff_lt (a b : BitVec 32) : seqDiff a b < 2 ^ 23 := Word.sdiff_lt (by decide) a b

theorem seqAdd_of_nonneg {base : ℕ} {diff : ℤ} (h0 : 0 ≤ base + diff)
    (h1 : (base : ℤ) + diff < 2 ^ 64) : (seqAdd base diff : ℤ) = base + diff := by
  rw [seqAdd, Int.emod_eq_of_lt h0 h1, Int.toNat_of_nonneg h0]

end Sst
