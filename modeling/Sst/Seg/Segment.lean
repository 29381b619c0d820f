import Sst.Flow.Receive

/-!
# Flow segments

A middlebox joins two segments of a flow. What a segment receives waits in its queue until the
other segment takes it; only then it is acknowledged.

* `FlowSegment`: a flow with its queue, and what became of the packets it received.
* `Middlebox.pump`: the loop of `gotReadyTransmit`.
* `Middlebox.flowReceive`, `Middlebox.receive`: a packet arrives.
* `middlebox`: the machine of all runs of two joined segments.

The signals of a flow reach its segment: `readyTransmit` runs the loop, and the others do nothing.
-/

namespace Sst

/-! ## Functions of a flow up to their signals -/

/-- The signals of a flow that nothing is connected to. -/
def Env.quiet (env : Env) : Env := { env with calls := fun _ => [], accept := fun _ => false }

namespace Flow

/-- `Flow::start` up to `readyTransmit`. -/
def activate (env : Env) (f : Flow) : Flow :=
  { f with active := true, nocc := f.nocc || env.sockCC, rtxtimer := true }

/-- `Flow::rtxTimeout` up to `readyTransmit`. -/
def presumeLost (env : Env) (f : Flow) : Flow :=
  let f := { f with rtxtimer := true }
  let f :=
    if f.nocc || f.ccmode = .fixed then f
    else { f with ssthresh := qMax (f.txfltcnt / 2#32) cwndMin, cwnd := cwndMin }
  let seqlim := f.txseq
  let f := (List.range' f.txevtseq (seqlim - f.txevtseq)).foldl (rtoOne env) f
  f.check (decide (seqlim ≠ f.txseq ∨ f.txfltcnt = 0#32 ∧ f.txfltsize = 0#32))

theorem start_eq (env : Env) (f : Flow) : f.start env =
    ((f.activate env).raise env .readyTransmit).setLinkStatus env .up := rfl

theorem rtxTimeout_eq (env : Env) (f : Flow) (fail : Bool) : f.rtxTimeout env fail =
    ((f.presumeLost env).raise env .readyTransmit).setLinkStatus env
      (if fail then .down else .stalled) := rfl

end Flow

end Sst

namespace Sst.Seg

/-- `FlowSegment::RxPkt`. -/
structure RxPkt where
  rxseq : ℕ
  pkt : List UInt8
  deriving DecidableEq

/-- A packet to be forwarded; the others only carry acknowledgments. -/
def RxPkt.isdata (rp : RxPkt) : Bool := hdrlen < rp.pkt.length

/-- `qlim_default`. -/
def qlimDefault : ℕ := 50

/-- `FlowSegment`, without a socket of its own. The packets that it received were dropped, wait in
`rxq`, or were `taken` by the other segment; `transmitted` are the packets it took from the other
segment and transmitted. The oldest packet comes first. -/
structure FlowSegment extends Flow where
  rxq : List RxPkt
  qlim : ℕ
  received : List RxPkt
  dropped : List RxPkt
  taken : List RxPkt
  transmitted : List RxPkt

def FlowSegment.new (chan : BitVec 8) : FlowSegment where
  toFlow := .new chan
  rxq := []
  qlim := qlimDefault
  received := []
  dropped := []
  taken := []
  transmitted := []

/-- Two segments, each the other's `other`; `fault` is set when `flowTransmit` is called on a
segment that is not active. -/
structure Middlebox where
  seg : Bool → FlowSegment
  fault : Bool

namespace Middlebox

variable (env : Env) (m : Middlebox) (s : Bool)

/-! ## Access -/

/-- Change the fields of a segment. -/
def modify (f : FlowSegment → FlowSegment) : Middlebox :=
  { m with seg := Function.update m.seg s (f (m.seg s)) }

/-- A function of the flow of a segment. -/
def onFlow (f : Flow → Flow) : Middlebox :=
  m.modify s fun seg => { seg with toFlow := f seg.toFlow }

section

variable {m s} {f : FlowSegment → FlowSegment} {g : Flow → Flow}

@[simp] theorem modify_self : (m.modify s f).seg s = f (m.seg s) := Function.update_self ..

@[simp] theorem modify_other : (m.modify s f).seg (!s) = m.seg (!s) :=
  Function.update_of_ne (Bool.not_ne_self s) ..

@[simp] theorem modify_not : (m.modify (!s) f).seg s = m.seg s :=
  Function.update_of_ne (Bool.not_ne_self s).symm ..

@[simp] theorem modify_fault : (m.modify s f).fault = m.fault := rfl

end

/-! ## Forwarding -/

/-- The other segment takes the first packet from the queue of `s`. -/
def dequeue (rp : RxPkt) (rest : List RxPkt) : Middlebox :=
  m.modify s fun seg => { seg with rxq := rest, taken := seg.taken ++ [rp] }

/-- `flowTransmit` of a packet that was taken from the other segment. -/
def transmit (rp : RxPkt) : Middlebox :=
  m.modify s fun seg => { seg with
    toFlow := seg.toFlow.flowTransmit env.now rp.pkt.length
    transmitted := seg.transmitted ++ [rp] }

/-- Acknowledge a packet that the other segment took. -/
def acknowledge (rp : RxPkt) : Middlebox :=
  m.onFlow s fun f => f.acknowledge env.now rp.rxseq rp.isdata

/-- The loop of `gotReadyTransmit` of the segment `s`, over the queue of the other segment. -/
def pump (env : Env) (s : Bool) : List RxPkt → Middlebox → Middlebox
  | [], m => m.onFlow s fun f => (f.mayTransmit env).1
  | rp :: rest, m =>
    let may := ((m.seg s).mayTransmit env).2
    let m := m.onFlow s fun f => (f.mayTransmit env).1
    if may then
      let m := m.dequeue (!s) rp rest
      if rp.isdata then
        if (m.seg s).active then
          pump env s rest ((m.transmit env s rp).acknowledge env (!s) rp)
        else { m with fault := true }
      else pump env s rest (m.acknowledge env (!s) rp)
    else m

def gotReadyTransmit : Middlebox := m.pump env s (m.seg !s).rxq

/-- Emit `readyTransmit`. -/
def readyTransmit : Middlebox :=
  (m.onFlow s fun f => f.raise env .readyTransmit).gotReadyTransmit env s

/-- `FlowSegment::flowReceive`. It never lets the flow acknowledge the packet. -/
def flowReceive (pktseq : ℕ) (pkt : List UInt8) : Middlebox :=
  let rp : RxPkt := ⟨pktseq, pkt⟩
  let m := m.modify s fun seg => { seg with received := seg.received ++ [rp] }
  if (m.seg s).qlim ≤ (m.seg s).rxq.length then
    m.modify s fun seg => { seg with dropped := seg.dropped ++ [rp] }
  else (m.modify s fun seg => { seg with rxq := seg.rxq ++ [rp] }).readyTransmit env (!s)

/-! ## The operations of the flows -/

/-- The end of `Flow::receive`. -/
def signalReady : Middlebox :=
  let may := ((m.seg s).mayTransmit env).2
  let m := m.onFlow s fun f => (f.mayTransmit env).1
  if may then m.readyTransmit env s else m

/-- `Flow::receive` from the acknowledgment word on. -/
def process (packseq : BitVec 32) (pktseq : ℕ) (pkt : List UInt8) : Middlebox :=
  let f := (m.seg s).toFlow
  let ackseq := f.ackSeq packseq
  if f.txseq ≤ ackseq then m
  else
    let (f, newpackets) := f.ackReceived env pktseq ackseq (f.ackDiff packseq) (ackctOf packseq)
    let m := m.onFlow s fun _ => (f.ccReceived env ackseq newpackets).raise env (.received pktseq)
    let m := m.flowReceive env s pktseq pkt
    if newpackets = 0 then m else m.signalReady env s

/-- `Flow::receive`. -/
def receive (p : Packet) (pkt : List UInt8) : Middlebox :=
  if !(m.seg s).active || p.size < hdrlen then m
  else match (m.seg s).toRxState.accept p with
    | none => m
    | some (pktseq, r) =>
      (m.onFlow s fun f => f.arrive pktseq r).process env s p.packseq pktseq pkt

/-- `Flow::rtxTimeout`. -/
def rtxTimeout (fail : Bool) : Middlebox :=
  ((m.onFlow s (·.presumeLost env)).readyTransmit env s).onFlow s
    (·.setLinkStatus env (if fail then .down else .stalled))

/-- `Flow::start`. -/
def start : Middlebox :=
  ((m.onFlow s (·.activate env)).readyTransmit env s).onFlow s (·.setLinkStatus env .up)

end Middlebox

/-! ## Runs -/

/-- What happens to a segment: it is started when its key exchange is complete, a datagram arrives,
a timer expires. -/
inductive Op
  | start
  | receive (p : Packet) (pkt : List UInt8)
  | rtxTimeout (fail : Bool)
  | ackTimeout

/-- One operation on the segment `s`; a timer expires only while it runs, and nothing happens
after a call that the code asserts not to make. -/
def Middlebox.step (env : Env) (m : Middlebox) (s : Bool) : Op → Option Middlebox
  | .start => if m.fault || (m.seg s).active then none else some (m.start env s)
  | .receive p pkt =>
    if m.fault || p.size ≠ pkt.length then none else some (m.receive env s p pkt)
  | .rtxTimeout fail =>
    if m.fault || !(m.seg s).rtxtimer then none else some (m.rtxTimeout env s fail)
  | .ackTimeout =>
    if m.fault || (m.seg s).acktimer.isNone then none
    else some (m.onFlow s (·.ackTimeout env))

/-- **The machine of all runs** of two joined segments. -/
def middlebox (chan : Bool → BitVec 8) : Transition.Machine Middlebox (Env × Bool × Op) where
  init := { seg := fun s => .new (chan s), fault := false }
  step m i := m.step i.1.quiet i.2.1 i.2.2

end Sst.Seg
