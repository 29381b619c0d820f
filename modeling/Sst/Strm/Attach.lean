import Sst.Strm.State

/-!
# Attaching and queueing

How a stream gets a stream id on the primary flow and a place in the flow's transmit queue.

* `Peer.enqueueStream`, `dequeueStream`: the queue of streams of a flow, by priority.
* `Peer.tattach`: attach to the primary flow, or wait for it or for the parent's name.
* `Peer.txenqflow`, `txenqueue`: get in line to transmit.

A function returns the new state and the calls still to be made, the next one first.
-/

namespace Sst.Strm.Peer

/-! ## Queues of streams -/

/-- `StreamFlow::enqueueStream`: behind every stream of at least its priority. -/
def enqueueStream (w : Peer) (f : ℕ) (s : StrmId) : Peer :=
  let w := { w.modStream s fun b => { b with stamp := w.clock } with clock := w.clock + 1 }
  w.modFlow f fun x =>
    { x with
      tstreams :=
        x.tstreams.takeWhile (fun t => (w.streams s).priority ≤ (w.streams t).priority) ++
          s :: x.tstreams.dropWhile fun t => (w.streams s).priority ≤ (w.streams t).priority }

/-- `StreamFlow::dequeueStream`. -/
def dequeueStream (w : Peer) (f : ℕ) (s : StrmId) : Peer :=
  w.modFlow f fun x => { x with tstreams := x.tstreams.filter (· ≠ s) }

/-- `AbstractStream::setPriority` and `BaseStream::setPriority`. -/
def setPriority (w : Peer) (s : StrmId) (newpri : ℤ) : Peer :=
  let w := w.modStream s fun b => { b with priority := newpri }
  match (w.streams s).tqflow, (w.streams s).curatt with
  | true, some a => (w.dequeueStream a.flow s).enqueueStream a.flow s
  | _, _ => w

/-- Enter the queue of the flow `f`. -/
def standInLine (w : Peer) (f : ℕ) (s : StrmId) : Peer :=
  (w.enqueueStream f s).modStream s fun b => { b with tqflow := true }

/-- The part of `txenqflow` for a stream attached to `f`. -/
def queueOn (w : Peer) (f : ℕ) (s : StrmId) : Peer × List Frame :=
  let b := w.streams s
  if b.tqflow then (w, [])
  else if b.tqueue = [] then (w, b.callback)
  else (w.standInLine f s, [])

/-! ## Attachments -/

/-- `StreamTxAttachment::setAttaching`. -/
def setAttaching (w : Peer) (s : StrmId) (i : Fin 2) (f sid : ℕ) : Peer :=
  (w.modStream s fun b =>
      { b with tatt := Function.update b.tatt i (some ⟨f, sid, maxPacketSeq, false⟩) }).modFlow f
    fun x => { x with txsids := x.txsids.insert sid (s, i) }

/-- `BaseStream::setUsid`. -/
def setUsid (w : Peer) (s : StrmId) (u : Usid) : Peer :=
  { w.modStream s fun b => { b with usid := some u } with
    usids := Function.update w.usids u (some s) }

/-- `BaseStream::disconnect`. -/
def disconnect (w : Peer) (s : StrmId) : Peer × List Frame :=
  (w.modStream s fun b => { b with state := .disconnected }, (w.streams s).callback)

/-- Wait for the `flowConnected()` signal of the peer. -/
def awaitFlow (w : Peer) (s : StrmId) : Peer :=
  { w with waiters := if s ∈ w.waiters then w.waiters else w.waiters ++ [s] }

/-- Wait for the `attached()` signal of the stream `p`. -/
def awaitParent (w : Peer) (p s : StrmId) : Peer :=
  w.modStream p fun b =>
    { b with listeners := if s ∈ b.listeners then b.listeners else b.listeners ++ [s] }

/-- Attach to `f` in the slot `i` with the counter value `ctr`. -/
def joinFlow (w : Peer) (f : ℕ) (s : StrmId) (ctr : ℕ) (i : Fin 2) : Peer :=
  ((w.modFlow f fun x => { x with txctr := ctr + 1 }).setAttaching s i f (ctr % 2 ^ 16)).modStream s
    fun b => { b with tcuratt := some i }

/-- A stream without a name takes the one that its counter value gives. -/
def takeName (w : Peer) (f : ℕ) (s : StrmId) (ctr : ℕ) : Peer :=
  if (w.streams s).usid = none then w.setUsid s ⟨ctr, (w.flows f).txChannelId⟩ else w

/-- The end of `tattach`: a new stream id on the flow `f` in a free slot. -/
def attachTo (w : Peer) (f : ℕ) (s : StrmId) : Peer × List Frame :=
  match (w.flows f).allocSid, (w.streams s).freeSlot with
  | some ctr, some i =>
    let (w, frames) := ((w.joinFlow f s ctr i).takeName f s ctr).queueOn f s
    (w, frames ++ [.readyTransmit f])
  | _, _ => ({ w with fault := true }, [])

/-- A new stream takes the name of its parent `p`, or waits until it has one. -/
def attachUnder (w : Peer) (f : ℕ) (s p : StrmId) : Peer × List Frame :=
  match (w.streams p).usid with
  | none => (w.awaitParent p s, [.tattach p])
  | some u => (w.modStream s fun b => { b with pusid := some u }).attachTo f s

/-- `BaseStream::tattach`; a stream without a peer is disconnected. -/
def tattach (w : Peer) (s : StrmId) : Peer × List Frame :=
  let b := w.streams s
  if b.tcuratt.isSome || b.state = .disconnected || !b.live then (w, [])
  else match w.flow with
    | none => (w.awaitFlow s, [])
    | some f =>
      if b.init && b.pusid.isNone then
        match w.parentOf s, b.toplev with
        | some p, _ => w.attachUnder f s p
        | none, true =>
          (w.modStream s fun b => { b with parent := some (.root f) }).attachUnder f s (.root f)
        | none, false => w.disconnect s
      else w.attachTo f s

/-- `BaseStream::txenqflow`. -/
def txenqflow (w : Peer) (s : StrmId) (immed : Bool) : Peer × List Frame :=
  match (w.streams s).curatt with
  | none => w.tattach s
  | some a =>
    let (w, frames) := w.queueOn a.flow s
    (w, frames ++ if immed then [.readyTransmit a.flow] else [])

/-- `BaseStream::txenqueue`. -/
def txenqueue (w : Peer) (s : StrmId) (p : Packet) : Peer × List Frame :=
  (w.modStream s (·.insertPacket p)).txenqflow s true

end Sst.Strm.Peer
