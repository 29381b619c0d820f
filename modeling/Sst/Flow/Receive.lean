import Sst.Flow.Congestion
import Sst.Lib.Transition

/-!
# Reception and timeouts

`Flow::receive` in the order of the code: sequence reconstruction and replay window, roll of the
receive state, acknowledgment of new packets, inference of losses, garbage collection of transmit
records, stragglers, congestion control, delivery. Then `rtxTimeout`, `start`, `stop` and the step
of a flow on one operation of its environment.

* `RxState.check`, `RxState.roll`, `RxState.accept`: the replay window.
* `Flow.exitPipe`: a packet leaves the pipe and is reported.
* `Flow.ackNew`, `Flow.straggle`, `Flow.receive`.
* `Flow.rtxTimeout`, `Flow.step`, `flowMachine`.
-/

namespace Sst

/-! ## The replay window -/

namespace RxState

/-- Reconstruct the 64-bit number of an arriving packet; `none` if the window drops it. -/
def check (r : RxState) (ptxseq : BitVec 32) : Option (ℤ × ℕ) :=
  let seqdiff := seqDiff ptxseq (BitVec.ofNat 32 r.rxseq)
  let pktseq := seqAdd r.rxseq seqdiff
  if 0 < seqdiff then
    if pktseq < r.rxseq then none else some (seqdiff, pktseq)
  else if seqdiff ≤ -maskBits then none
  else if r.rxmask &&& (1#32 <<< (-seqdiff).toNat) ≠ 0#32 then none
  else some (seqdiff, pktseq)

/-- Record an authenticated packet. -/
def roll (r : RxState) (seqdiff : ℤ) (pktseq : ℕ) : RxState :=
  if 0 < seqdiff then
    { rxseq := pktseq
      rxmask := if seqdiff < maskBits then r.rxmask <<< seqdiff.toNat + 1#32 else 1#32 }
  else { r with rxmask := r.rxmask ||| 1#32 <<< (-seqdiff).toNat }

/-- `rxdec`: the armor accepts a packet only under the number it was sealed with. -/
def rxdec (pkt : Packet) (pktseq : ℕ) : Bool := pkt.sealedAs = some pktseq

/-- The packet number and receive state if the packet passes the window and authentication. -/
def accept (r : RxState) (pkt : Packet) : Option (ℕ × RxState) :=
  (r.check pkt.ptxseq).bind fun (seqdiff, pktseq) =>
    if rxdec pkt pktseq then some (pktseq, r.roll seqdiff pktseq) else none

end RxState

namespace Flow

/-! ## Packets leaving the pipe -/

/-- Record an access outside `txevts`. -/
def stray (f : Flow) : Flow := { f with overrun := true }

/-- Take packet `seq`, whose record is `e`, out of the pipe. -/
def leavePipe (f : Flow) (seq : ℕ) (e : TxEvent) : Flow :=
  { f with
    txevts := f.txevts.set (seq - f.txevtseq) { e with pipe := false }
    txfltcnt := f.txfltcnt - 1#32
    txfltsize := f.txfltsize - BitVec.ofNat 32 e.size }

/-- If packet `seq` is in the pipe, take it out and continue with `report`. -/
def exitPipe (f : Flow) (seq : ℕ) (report : Flow → Flow) : Flow :=
  if seq < f.txevtseq then f.stray
  else match f.txevts[seq - f.txevtseq]? with
    | none => f.stray
    | some e => if e.pipe then report (f.leavePipe seq e) else f

/-- Packet `seq` is acknowledged by packet `rxseq`. -/
def ackOne (env : Env) (rxseq : ℕ) (f : Flow) (seq : ℕ) : Flow :=
  f.exitPipe seq fun f => f.raise env (.acked seq rxseq)

/-- Packet `seq` is inferred lost. -/
def missOne (env : Env) (f : Flow) (seq : ℕ) : Flow :=
  f.exitPipe seq fun f => (f.ccMissed seq).raise env (.missed seq)

/-- Packet `seq` is presumed lost by the retransmission timeout. -/
def rtoOne (env : Env) (f : Flow) (seq : ℕ) : Flow :=
  f.exitPipe seq fun f => f.raise env (.missed seq)

/-- The oldest transmit record expires. -/
def expireOne (env : Env) (f : Flow) : Flow :=
  match f.txevts with
  | [] => f.stray
  | e :: evts =>
    { (if e.pipe then f.stray else f) with txevts := evts, txevtseq := f.txevtseq + 1 }.raise env
      (.expire f.txevtseq)

/-- `Flow::setLinkStatus`. -/
def setLinkStatus (f : Flow) (env : Env) (status : LinkStatus) : Flow :=
  if f.linkstat ≠ status ∨ status = .stalled then
    { f with linkstat := status }.raise env (.linkStatus status)
  else f

/-! ## Acknowledgments -/

/-- Acknowledge the packets `seq, …, seq + n - 1`. -/
def ackRange (env : Env) (rxseq : ℕ) (f : Flow) (seq n : ℕ) : Flow :=
  (List.range' seq n).foldl (ackOne env rxseq) f

/-- Infer the loss of the packets `seq, …, seq + n - 1`. -/
def missRange (env : Env) (f : Flow) (seq n : ℕ) : Flow :=
  (List.range' seq n).foldl (missOne env) f

/-- Drop the transmit records that left the acknowledgment window. -/
def collect (env : Env) (f : Flow) : Flow :=
  if maskBits < f.txackseq then (expireOne env)^[f.txackseq - maskBits + 1 - f.txevtseq] f else f

/-- Roll `txackseq` and `txackmask` forward and acknowledge the `newpackets` highest packets. -/
def rollAcks (env : Env) (pktseq : ℕ) (f : Flow) (ackseq ackdiff newpackets : ℕ) : Flow :=
  let f := { f with
    txackseq := ackseq
    txackmask := (if ackdiff < maskBits then f.txackmask <<< ackdiff else 0#32) |||
      (1#32 <<< newpackets - 1#32) }
  f.ackRange env pktseq (ackseq - newpackets + 1) newpackets

/-- The last packet that fell `missthresh` behind and is not newly acknowledged. -/
def misslim (f : Flow) (ackseq newpackets : ℕ) : ℕ :=
  ackseq - min ackseq (max f.missthresh newpackets)

/-- The first packet that fell `missthresh` behind by an advance of `ackdiff`. -/
def missseq (f : Flow) (ackseq ackdiff : ℕ) : ℕ :=
  ackseq - min ackseq (f.missthresh + ackdiff - 1)

/-- Infer the loss of the packets that fell `missthresh` behind. -/
def inferLosses (env : Env) (f : Flow) (ackseq ackdiff newpackets : ℕ) : Flow :=
  f.missRange env (f.missseq ackseq ackdiff)
    (f.misslim ackseq newpackets + 1 - f.missseq ackseq ackdiff)

/-- Collect transmit records and reset the retransmission timer after progress. -/
def progress (env : Env) (f : Flow) : Flow :=
  let f := (f.collect env).setLinkStatus env .up
  { f with rtxtimer := decide (f.txfltcnt ≠ 0#32) }

/-- The block of `Flow::receive` for an acknowledgment of `ackdiff` new packets, of which the last
`ackct + 1` were received; the number of newly acknowledged packets. -/
def ackNew (env : Env) (pktseq : ℕ) (f : Flow) (ackseq ackdiff ackct : ℕ) : Flow × ℕ :=
  let newpackets := min ackdiff (ackct + 1)
  let f := f.rollAcks env pktseq ackseq ackdiff newpackets
  let f := f.inferLosses env ackseq ackdiff newpackets
  (f.progress env, newpackets)

/-- One turn of the straggler loop: packet `txackseq - bit` is covered by the received word. -/
def straggleOne (env : Env) (pktseq : ℕ) (st : Flow × ℕ) (bit : ℕ) : Flow × ℕ :=
  let (f, newpackets) := st
  if maskBits ≤ bit then st
  else if f.txackmask &&& (1#32 <<< bit) ≠ 0#32 then st
  else
    let f := { f with txackmask := f.txackmask ||| 1#32 <<< bit }
    let f := if f.txackseq < bit then f.stray else f.ackOne env pktseq (f.txackseq - bit)
    (f, newpackets + 1)

/-- The straggler block: `back` is the distance of the acknowledged number behind `txackseq`. -/
def straggle (env : Env) (pktseq : ℕ) (f : Flow) (back ackct newpackets : ℕ) : Flow × ℕ :=
  let newmask := 1#32 <<< ackct - 1#32
  if f.txackmask &&& newmask ≠ newmask then
    (List.range' back (ackct + 1)).foldl (straggleOne env pktseq) (f, newpackets)
  else (f, newpackets)

/-- The acknowledgment part of `Flow::receive` for a word that covers transmitted packets. -/
def ackReceived (env : Env) (pktseq : ℕ) (f : Flow) (ackseq : ℕ) (ackdiff : ℤ) (ackct : ℕ) :
    Flow × ℕ :=
  if 0 < ackdiff then
    let (f, newpackets) := f.ackNew env pktseq ackseq ackdiff.toNat ackct
    f.straggle env pktseq 0 ackct newpackets
  else f.straggle env pktseq (-ackdiff).toNat ackct 0

/-- Congestion control after the acknowledgments. -/
def ccReceived (env : Env) (f : Flow) (ackseq newpackets : ℕ) : Flow :=
  let f := { f with markacks := f.markacks + BitVec.ofNat 32 newpackets }
  let f := f.ccAcked env newpackets
  let f := if f.markseq ≤ ackseq then f.ccRoundTrip env else f
  { f with cwnd := qMin f.cwnd cwndMax }

/-- Pass the packet up and acknowledge it if the upper layer took it. -/
def passUp (env : Env) (f : Flow) (pktseq : ℕ) : Flow :=
  let f := f.raise env (.received pktseq)
  if env.accept pktseq then f.acknowledge env.now pktseq true else f

/-- Signal to the upper layer that it may transmit, if it may. -/
def signalReady (env : Env) (f : Flow) : Flow :=
  if (f.mayTransmit env).2 then (f.mayTransmit env).1.raise env .readyTransmit
  else (f.mayTransmit env).1

/-- The end of `Flow::receive`. -/
def deliver (env : Env) (f : Flow) (pktseq newpackets : ℕ) : Flow :=
  let f := f.passUp env pktseq
  if newpackets = 0 then f else f.signalReady env

/-- Record an authenticated packet. -/
def arrive (f : Flow) (pktseq : ℕ) (r : RxState) : Flow :=
  { f with toRxState := r, log := .accepted pktseq :: f.log }

/-- The distance of the acknowledged number from `txackseq`. -/
def ackDiff (f : Flow) (packseq : BitVec 32) : ℤ := seqDiff packseq (BitVec.ofNat 32 f.txackseq)

/-- The 64-bit acknowledged number. -/
def ackSeq (f : Flow) (packseq : BitVec 32) : ℕ := seqAdd f.txackseq (f.ackDiff packseq)

/-- `Flow::receive` from the acknowledgment word on; a word for packets not transmitted yet drops
the packet. -/
def process (env : Env) (f : Flow) (packseq : BitVec 32) (pktseq : ℕ) : Flow :=
  let ackseq := f.ackSeq packseq
  if f.txseq ≤ ackseq then f
  else
    let (f, newpackets) := f.ackReceived env pktseq ackseq (f.ackDiff packseq) (ackctOf packseq)
    (f.ccReceived env ackseq newpackets).deliver env pktseq newpackets

/-- `Flow::receive`. -/
def receive (env : Env) (f : Flow) (pkt : Packet) : Flow :=
  if !f.active || pkt.size < hdrlen then f
  else match f.toRxState.accept pkt with
    | none => f
    | some (pktseq, r) => (f.arrive pktseq r).process env pkt.packseq pktseq

/-! ## Timers, start and stop -/

/-- `Flow::rtxTimeout`. -/
def rtxTimeout (env : Env) (f : Flow) (fail : Bool) : Flow :=
  let f := { f with rtxtimer := true }
  let f :=
    if f.nocc || f.ccmode = .fixed then f
    else { f with ssthresh := qMax (f.txfltcnt / 2#32) cwndMin, cwnd := cwndMin }
  let seqlim := f.txseq
  let f := (List.range' f.txevtseq (seqlim - f.txevtseq)).foldl (rtoOne env) f
  let f := f.check (decide (seqlim ≠ f.txseq ∨ f.txfltcnt = 0#32 ∧ f.txfltsize = 0#32))
  let f := f.raise env .readyTransmit
  f.setLinkStatus env (if fail then .down else .stalled)

/-- `Flow::ackTimeout`. -/
def ackTimeout (env : Env) (f : Flow) : Flow := f.flushack env.now

/-- `Flow::start`. -/
def start (env : Env) (f : Flow) : Flow :=
  let f := { f with active := true, nocc := f.nocc || env.sockCC, rtxtimer := true }
  (f.raise env .readyTransmit).setLinkStatus env .up

/-- `Flow::stop`. -/
def stop (env : Env) (f : Flow) : Flow :=
  { f with rtxtimer := false, acktimer := none, active := false }.setLinkStatus env .down

/-! ## Operations -/

/-- What the environment does to a flow. -/
inductive Op
  | start
  | stop
  | receive (pkt : Packet)
  | rtxTimeout (fail : Bool)
  | ackTimeout
  | call (c : Call)
  | setDelayedAcks (enabled : Bool)
  | setCCMode (mode : CCMode)
  | setCCWindow (cwnd : BitVec 32)

/-- One operation; a timer expires only while it runs. -/
def step (env : Env) (f : Flow) : Op → Option Flow
  | .start => some (f.start env)
  | .stop => some (f.stop env)
  | .receive pkt => some (f.receive env pkt)
  | .rtxTimeout fail => if f.rtxtimer then some (f.rtxTimeout env fail) else none
  | .ackTimeout => if f.acktimer.isSome then some (f.ackTimeout env) else none
  | .call c => some (f.call env c)
  | .setDelayedAcks enabled => some { f with delayack := enabled }
  | .setCCMode mode => some { f with ccmode := mode }.ccReset
  | .setCCWindow cwnd => some { f with cwnd := cwnd }

end Flow

/-- An upper layer that takes every packet and never calls back. -/
def silent : Env := ⟨0, 0, false, ⟨false, false, false, false⟩, fun _ => [], fun _ => true⟩

/-- The runs of one flow, in any environment. -/
def flowMachine (remoteChannel : BitVec 8) : Transition.Machine Flow (Env × Flow.Op) where
  init := .new remoteChannel
  step f i := f.step i.1 i.2

end Sst
