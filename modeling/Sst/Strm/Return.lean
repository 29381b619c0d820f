import Sst.Strm.Transmit

/-!
# Reports of the flow and detachment

A flow reports its packets acknowledged, missed or expired; a stream that loses its attachment gets
its packets back as if they were missed.

* `Peer.strmAcked`, `strmMissed`: what the stream of a packet does.
* `Peer.acked`, `missed`, `expire`: the reports of the flow.
* `Peer.clearTx`, `clearRx`: clear an attachment slot.
* `Peer.detachAll`, `clearPrimary`, `stop`: detach every stream of a flow.
* `Peer.deleteStream`: the destructor of a stream.
-/

namespace Sst.Strm.Peer

/-! ## What a stream does -/

/-- `BaseStream::endflight`. -/
def endflight (w : Peer) (p : Packet) : Peer :=
  let release (s : StrmId) : Peer :=
    w.modStream s fun b => { b with tflt := Word.wrap 32 (b.tflt - p.payloadSize) }
  if p.header = .init then
    match w.parentOf p.strm with
    | some q => release q
    | none => w
  else release p.strm

/-- `StreamTxAttachment::setActive`, of the attachment `a` in the slot `i`. -/
def activateTx (w : Peer) (s : StrmId) (i : Fin 2) (a : TxAttachment) (rxseq : ℕ) : Peer :=
  w.modStream s fun b =>
    { b with
      tatt := Function.update b.tatt i (some { a with sidseq := rxseq, active := true })
      init := false }

/-- The part of `acked` that takes the first acknowledgment on a new attachment for one of the
attachment itself. -/
def attachAcked (w : Peer) (f : ℕ) (s : StrmId) (rxseq : ℕ) : Peer × List Frame :=
  match (w.streams s).tcuratt, (w.streams s).curatt with
  | some i, some a =>
    if a.flow = f && !a.isAcked then
      let (w, frames) := (w.activateTx s i a rxseq).queueOn f s
      (w, frames ++ [.attached s (w.streams s).listeners, .linkUp s])
    else (w, [])
  | _, _ => (w, [])

/-- A segment is acknowledged: it is not in flight, and its position not waiting any more. -/
def segmentAcked (w : Peer) (p : Packet) : Peer :=
  ((w.endflight p).modStream p.strm fun b =>
    if p.tsn ∈ b.twait then
      { b with
        twait := b.twait.erase p.tsn
        twaitsize := Word.wrap 32 (b.twaitsize - p.payloadSize) }
    else b).modStream p.strm fun b => { b with ackedIds := insert p.id b.ackedIds }

/-- A segment is lost: it is not in flight, and back in the transmit queue. -/
def segmentMissed (w : Peer) (p : Packet) : Peer :=
  (w.endflight p).modStream p.strm (·.insertPacket p)

/-- `BaseStream::acked`. -/
def strmAcked (w : Peer) (f : ℕ) (p : Packet) (rxseq : ℕ) : Peer × List Frame :=
  let s := p.strm
  match p.type with
  | .data =>
    let w := w.segmentAcked p
    (w, (w.streams s).callback ++ [.attachAcked f s rxseq])
  | .attach => w.attachAcked f s rxseq
  | .datagram =>
    (w.modStream s fun b => { b with tflt := Word.wrap 32 (b.tflt - p.payloadSize) }, [])
  | _ => (w, [])

/-- `BaseStream::missed`, and whether the flow keeps the packet. -/
def strmMissed (w : Peer) (p : Packet) : (Peer × List Frame) × Bool :=
  let s := p.strm
  match p.type with
  | .data => ((w.segmentMissed p).txenqflow s true, true)
  | .attach => (w.txenqflow s false, true)
  | .datagram =>
    ((w.modStream s fun b => { b with tflt := Word.wrap 32 (b.tflt - p.payloadSize) }, []), false)
  | _ => ((w, []), false)

/-! ## Reports of the flow -/

/-- A packet is reported acknowledged or lost. -/
def report (w : Peer) (f seq : ℕ) : Peer :=
  { w with charges := w.charges.filter fun c => ¬(c.flow = f ∧ c.seq = seq) }

/-- Take a packet out of `ackwait`. -/
def takePacket (w : Peer) (f seq : ℕ) : Peer :=
  w.modFlow f fun x => { x with ackwait := x.ackwait.erase seq }

/-- A packet in `ackwait` is presumed lost. -/
def markLate (w : Peer) (f seq : ℕ) (p : Packet) : Peer :=
  w.modFlow f fun x => { x with ackwait := x.ackwait.insert seq { p with late := true } }

/-- `StreamFlow::acked`, of one packet. -/
def acked (w : Peer) (f seq rxseq : ℕ) : Peer × List Frame :=
  match (w.flows f).ackwait.lookup seq with
  | none => (w.report f seq, [])
  | some p => ((w.takePacket f seq).report f seq).strmAcked f p rxseq

/-- `StreamFlow::missed`, of one packet. -/
def missed (w : Peer) (f seq : ℕ) : Peer × List Frame :=
  match (w.flows f).ackwait.lookup seq with
  | none => (w.report f seq, [])
  | some p =>
    if p.late then (w, [])
    else
      let (r, keep) := ((w.report f seq).markLate f seq p).strmMissed { p with late := true }
      (if keep then r.1 else r.1.takePacket f seq, r.2)

/-- `StreamFlow::expire`, of one packet; `BaseStream::expire` does nothing. -/
def expire (w : Peer) (f seq : ℕ) : Peer := w.takePacket f seq

/-! ## Clearing attachments -/

/-- A packet goes back to its stream, unless it did so before. -/
def giveBack (w : Peer) (f seq : ℕ) (p : Packet) : Peer × List Frame :=
  if p.late then (w, []) else ((w.report f seq).strmMissed { p with late := true }).1

/-- The loop over `ackwait` in `StreamTxAttachment::clear`. -/
def reclaim (w : Peer) (f : ℕ) (s : StrmId) : List ℕ → Peer × List Frame
  | [] => (w, [])
  | seq :: seqs =>
    match (w.flows f).ackwait.lookup seq with
    | none => w.reclaim f s seqs
    | some p =>
      if p.strm = s then
        let (w, frames) := w.giveBack f seq p
        let (w, frames') := (w.takePacket f seq).reclaim f s seqs
        (w, frames ++ frames')
      else w.reclaim f s seqs

/-- The slot `i` is no longer in use, and the stream leaves the queue of its flow. -/
def releaseTx (w : Peer) (s : StrmId) (i : Fin 2) (a : TxAttachment) : Peer :=
  ((w.modStream s fun b =>
      { b with
        tcuratt := if b.tcuratt = some i then none else b.tcuratt
        tatt := Function.update b.tatt i none
        tqflow := false }).modFlow a.flow fun x =>
    { x with txsids := x.txsids.erase a.sid }).dequeueStream a.flow s

/-- `StreamTxAttachment::clear`. -/
def clearTx (w : Peer) (s : StrmId) (i : Fin 2) : Peer × List Frame :=
  match (w.streams s).tatt i with
  | none => (w, [])
  | some a =>
    let w := w.releaseTx s i a
    w.reclaim a.flow s (w.flows a.flow).ackwait.keys

/-- `StreamRxAttachment::clear`. -/
def clearRx (w : Peer) (s : StrmId) (i : Fin 2) : Peer :=
  match (w.streams s).ratt i with
  | none => w
  | some a =>
    (w.modStream s fun b => { b with ratt := Function.update b.ratt i none }).modFlow a.flow
      fun x => { x with rxsids := x.rxsids.erase a.sid }

/-- Clear the attachments in a table of stream ids. -/
def clearAllTx (w : Peer) : List (StrmId × Fin 2) → Peer × List Frame
  | [] => (w, [])
  | (s, i) :: atts =>
    let (w, frames) := w.clearTx s i
    let (w, frames') := w.clearAllTx atts
    (w, frames ++ frames')

def clearAllRx (w : Peer) (atts : List (StrmId × Fin 2)) : Peer :=
  atts.foldl (fun w (s, i) => w.clearRx s i) w

/-- The last loop of `detachAll`, over the saved `ackwait` table. -/
def giveBackAll (w : Peer) (f : ℕ) : List (Σ _ : ℕ, Packet) → Peer × List Frame
  | [] => (w, [])
  | ⟨seq, p⟩ :: ackbak =>
    let (w, frames) := w.giveBack f seq p
    let (w, frames') := w.giveBackAll f ackbak
    (w, frames ++ frames')

/-- `StreamFlow::detachAll`. -/
def detachAll (w : Peer) (f : ℕ) : Peer × List Frame :=
  let ackbak := (w.flows f).ackwait.entries
  let w := w.modFlow f fun x => { x with ackwait := ∅ }
  let (w, frames) := w.clearAllTx ((w.flows f).txsids.entries.map Sigma.snd)
  let (w, frames') := w.giveBackAll f ackbak
  (w, frames ++ frames')

/-- `StreamPeer::clearPrimary`. -/
def clearPrimary (w : Peer) : Peer × List Frame :=
  match w.flow with
  | none => (w, [])
  | some f => { w with flow := none }.detachAll f

/-- `StreamFlow::stop`. -/
def stop (w : Peer) (f : ℕ) : Peer × List Frame :=
  let w := w.modFlow f fun x => { x with active := false, linkstat := .down }
  let (w, frames) := w.clearAllTx ((w.flows f).txsids.entries.map Sigma.snd)
  (w.clearAllRx ((w.flows f).rxsids.entries.map Sigma.snd), frames)

/-- `shutdown(Stream::Reset)` of the substreams not accepted yet. -/
def resetAll (w : Peer) : List StrmId → Peer × List Frame
  | [] => (w, [])
  | s :: subs =>
    let (w, frames) := w.disconnect s
    let (w, frames') := w.resetAll subs
    (w, frames ++ frames')

/-- `BaseStream::clear`; a stream that is gone waits for no signal. -/
def deleteStream (w : Peer) (s : StrmId) : Peer × List Frame :=
  let b := w.streams s
  let w := w.modStream s fun b => { b with state := .disconnected, endwrite := true, live := false }
  let w := { w with
    usids := fun u => if w.usids u = some s ∧ b.usid = some u then none else w.usids u
    waiters := w.waiters.filter (· ≠ s) }
  let (w, frames) := w.clearTx s 0
  let w := w.clearRx s 0
  let (w, frames') := w.clearTx s 1
  let w := w.clearRx s 1
  let (w, frames'') := w.resetAll b.rsubs
  (w.modStream s fun b => { b with rsubs := [], listeners := [] }, frames ++ frames' ++ frames'')

/-- `StreamPeer::flowStarted`. -/
def flowStarted (w : Peer) (f : ℕ) : Peer × List Frame :=
  if w.flow.any fun g => (w.flows g).linkstat = .up then (w, [])
  else
    let (w, frames) := w.clearPrimary
    ({ w with flow := some f, stallcount := 0 }, frames ++ [.flowConnected w.waiters, .app])

end Sst.Strm.Peer
