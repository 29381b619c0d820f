import Sst.Flow.State

/-!
# Transmission and acknowledgment

The transmit side of `flow.cc`: `tx`, `transmitAck`, `flowTransmit` and the acknowledgment
strategy of `acknowledge`, which takes its packet number as a `quint16`.

* `Flow.tx`: every packet gets the next sequence number and a transmit record.
* `Flow.acknowledge`: the run of contiguous packets up to `rxackseq` and the acknowledgments sent.
* `Flow.call`, `Flow.raise`: what the upper layer does, on its own or from a callback.
-/

namespace Sst

namespace Flow

/-- Record a failed assertion unless `ok`. -/
def check (f : Flow) (ok : Bool) : Flow := { f with fault := f.fault || !ok }

/-- `Flow::tx`: header words, round-trip mark, transmit record; `udpSend` is the `sent` event. -/
def tx (f : Flow) (now : ℕ) (packseq : BitVec 32) (size : ℕ) (isdata : Bool) : Flow :=
  let marked := f.txseq = f.markseq
  { f with
    fault := f.fault || !(f.active && f.txseq < maxPacketSeq)
    marktime := if marked then now else f.marktime
    markacks := if marked then 0#32 else f.markacks
    markbase := if marked then f.txackseq else f.markbase
    marksent := if marked then BitVec.ofNat 32 (f.txseq - f.txackseq) else f.marksent
    txseq := f.txseq + 1
    txfltcnt := if isdata then f.txfltcnt + 1#32 else f.txfltcnt
    txfltsize := if isdata then f.txfltsize + BitVec.ofNat 32 size else f.txfltsize
    txevts := f.txevts ++ [⟨size, isdata, isdata⟩]
    log := .sent ⟨seqWord f.remoteChannel f.txseq, packseq, some f.txseq, size⟩ isdata :: f.log }

/-- `Flow::txack`, through `Flow::transmitAck` with an empty packet. -/
def txack (f : Flow) (now ackseq ackct : ℕ) : Flow :=
  f.tx now (ackWord ackct ackseq) hdrlen false

/-- `Flow::flushack`. -/
def flushack (f : Flow) (now : ℕ) : Flow :=
  let f := if f.rxunacked = 0 then f else { f with rxunacked := 0 }.txack now f.rxackseq f.rxackct
  { f with acktimer := none }

/-- `Flow::flowTransmit`: a data packet, which carries the current acknowledgment run. -/
def flowTransmit (f : Flow) (now size : ℕ) : Flow :=
  let packseq := ackWord f.rxackct f.rxackseq
  let f := f.check (decide (hdrlen < size))
  let f := if f.rxunacked = 0 then f else { f with rxunacked := 0, acktimer := none }
  { f.tx now packseq size true with rtxtimer := true }

/-- `Flow::mayTransmit`. -/
def mayTransmit (f : Flow) (env : Env) : Flow × Bool :=
  if f.nocc then (f, decide (0 < env.sockMay))
  else if f.txfltcnt < f.cwnd then (f, true)
  else ({ f with cwndlim := true }, false)

/-- A packet contiguous with the run: extend the run, delay its acknowledgment. -/
def ackContiguous (f : Flow) (now : ℕ) (pktseq : BitVec 16) (sendack : Bool) : Flow :=
  let f := { f with
    rxackseq := pktseq.toNat
    rxackct := min (f.rxackct + 1) ackctMax
    rxunacked := f.rxunacked + 1 }
  if !sendack && f.rxunacked < ackAckPackets then f
  else if f.rxunacked < ackAckPackets then
    if f.delayack && f.rxunacked < ackPackets then
      if f.acktimer.isNone then { f with acktimer := some ackDelay } else f
    else { f with acktimer := some 0 }
  else f.flushack now

/-- A packet beyond a gap: a new run starts at it. -/
def ackGap (f : Flow) (now : ℕ) (pktseq : BitVec 16) (sendack : Bool) : Flow :=
  let f := { f.flushack now with rxackseq := pktseq.toNat, rxackct := 0 }
  if sendack then f.txack now f.rxackseq 0 else f

/-- A packet older than the run: it is acknowledged alone. -/
def ackOld (f : Flow) (now : ℕ) (pktseq : BitVec 16) (sendack : Bool) : Flow :=
  let f := f.flushack now
  if sendack then f.txack now pktseq.toNat 0 else f

/-- `Flow::acknowledge`. The argument is converted to the `quint16` of the parameter. -/
def acknowledge (f : Flow) (now seq : ℕ) (sendack : Bool) : Flow :=
  let f := { f with log := .acknowledged seq :: f.log }
  let pktseq := BitVec.ofNat 16 seq
  let seqdiff := Word.wrap 32 (pktseq.toNat - f.rxackseq)
  if seqdiff = 1 then f.ackContiguous now pktseq sendack
  else if 1 < seqdiff then f.ackGap now pktseq sendack
  else if seqdiff < 0 then f.ackOld now pktseq sendack
  else f

/-- One call of the upper layer. -/
def call (env : Env) (f : Flow) : Call → Flow
  | .flowTransmit size => f.flowTransmit env.now size
  | .acknowledge pktseq sendack => f.acknowledge env.now pktseq sendack
  | .mayTransmit => (f.mayTransmit env).1

/-- Report an event to the upper layer, which answers with calls. -/
def raise (f : Flow) (env : Env) (e : Event) : Flow :=
  (env.calls e).foldl (call env) { f with log := e :: f.log }

end Flow

end Sst
