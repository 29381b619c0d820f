import Sst.Strm.Attach

/-!
# Transmission on a flow

`StreamFlow::gotReadyTransmit` lets the first stream in line transmit one packet; which one depends
on the stream's attachment.

* `Peer.flowTransmit`: hand a packet to the flow.
* `Peer.txData`, `txAttachData`, `txDatagram`, `txAttach`: the kinds of packets.
* `Peer.transmit`: the choice between them.
* `Peer.readyTransmit`: one turn of the transmit loop.
-/

namespace Sst.Strm.Peer

/-- `Flow::flowTransmit`, as far as the streams see it. -/
def flowTransmit (w : Peer) (f : ℕ) (s : StrmId) (wire : Wire) (forced : Bool) : Peer :=
  w.modFlow f fun x =>
    { x with
      txseq := x.txseq + 1
      txfltcnt := x.txfltcnt + 1#32
      sent := ⟨x.txseq, s, wire, x.nocc, x.mayTransmit, forced⟩ :: x.sent }

/-- Charge the stream `s` for a packet sent next on `f`. -/
def startflight (w : Peer) (f : ℕ) (s : StrmId) (size : ℕ) : Peer :=
  { w.modStream s fun b => { b with tflt := Word.wrap 32 (b.tflt + size) } with
    charges := ⟨f, (w.flows f).txseq, s, size⟩ :: w.charges }

/-- Enter a packet sent next on `f` into `ackwait`. -/
def awaitAck (w : Peer) (f : ℕ) (p : Packet) : Peer :=
  w.modFlow f fun x => { x with ackwait := x.ackwait.insert x.txseq { p with late := false } }

/-- The rest of the transmit queue. -/
def setQueue (w : Peer) (s : StrmId) (rest : List Packet) : Peer :=
  w.modStream s fun b => { b with tqueue := rest }

/-- `BaseStream::txData`. -/
def txData (w : Peer) (f : ℕ) (s : StrmId) (p : Packet) (wire : Wire) (forced : Bool) :
    Peer × List Frame :=
  let w := (w.awaitAck f p).flowTransmit f s wire forced
  if (w.streams s).tqueue = [] then (w, (w.streams s).callback) else w.queueOn f s

/-- A segment in an Init or Reply packet, with its 16-bit position. -/
def txAttachData (w : Peer) (f : ℕ) (s : StrmId) (p : Packet) (rest : List Packet)
    (a : TxAttachment) (type : PacketType) (refsid : ℕ) (forced : Bool) : Peer × List Frame :=
  let w := w.setQueue s rest
  let tsn := (p.tsn % 2 ^ 16).toNat
  let wire := if type = .init then Wire.init a.sid refsid tsn p.flags p.payload
    else Wire.reply a.sid refsid tsn p.flags p.payload
  w.txData f s { p with header := type } wire forced

/-- The loop of `txDatagram`: the fragments up to the one that ends the datagram. -/
def txFragments (w : Peer) (f : ℕ) (s : StrmId) (a : TxAttachment) (forced : Bool) :
    List Packet → Peer
  | [] => w
  | p :: rest =>
    let w := ((w.setQueue s rest).startflight f s p.payload.length).flowTransmit f s
      (.datagram a.sid p.begins p.ends p.payload) forced
    if p.ends then w else w.txFragments f s a forced rest

/-- `BaseStream::txDatagram`. -/
def txDatagram (w : Peer) (f : ℕ) (s : StrmId) (a : TxAttachment) (forced : Bool) :
    Peer × List Frame :=
  (w.txFragments f s a forced (w.streams s).tqueue).queueOn f s

/-- `BaseStream::txAttach`, in the slot `i`. -/
def txAttach (w : Peer) (f : ℕ) (s : StrmId) (a : TxAttachment) (i : Fin 2) (forced : Bool) :
    Peer × List Frame :=
  let b := w.streams s
  let p : Packet := ⟨s, .attach, 0, .attach, ⟨false, false, false⟩, false, false, [], false, 0⟩
  let wire := Wire.attach a.sid i b.usid (if b.init then some b.pusid else none)
  ((w.awaitAck f p).flowTransmit f s wire forced, [])

/-- The slot in which the peer of the flow `f` attached the stream. -/
def replySlot (w : Peer) (f : ℕ) (s : StrmId) : Option RxAttachment :=
  ([0, 1].filterMap (w.streams s).ratt).find? fun a => a.flow = f

/-- The attachment of the parent, when an Init packet may refer to it. -/
def initParent (w : Peer) (f : ℕ) (s : StrmId) (a : TxAttachment) :
    Option (StrmId × TxAttachment) :=
  let b := w.streams s
  (w.parentOf s).bind fun q =>
    ((w.streams q).curatt.filter fun pa =>
      b.init && pa.flow = f && pa.active && b.usid.any fun u =>
        u.chanId = (w.flows f).txChannelId && u.streamCtr % 2 ^ 16 = a.sid).map fun pa => (q, pa)

/-- The part of `transmit` for a segment `p` at the head of a stream whose attachment is not
acknowledged yet. -/
def transmitAttach (w : Peer) (f : ℕ) (s : StrmId) (p : Packet) (rest : List Packet)
    (a : TxAttachment) (i : Fin 2) (forced : Bool) : Peer × List Frame :=
  let w := if (w.streams s).toplev then
    w.modStream s fun b => { b with parent := some (.root f) } else w
  match w.initParent f s a with
  | some (q, pa) =>
    (w.startflight f q p.payload.length).txAttachData f s p rest a .init pa.sid forced
  | none =>
    if (w.streams s).twin < (w.streams s).tflt + p.payload.length then w.txAttach f s a i forced
    else match w.replySlot f s with
      | some ra =>
        (w.startflight f s p.payload.length).txAttachData f s p rest a .reply ra.sid forced
      | none => w.txAttach f s a i forced

/-- The part of `transmit` behind the garbage collection. -/
def transmitHead (w : Peer) (f : ℕ) (s : StrmId) (a : TxAttachment) (i : Fin 2) (forced : Bool) :
    Peer × List Frame :=
  match (w.streams s).tqueue with
  | [] => (w, (w.streams s).callback)
  | p :: rest =>
    if a.isAcked then
      if p.type = .datagram then w.txDatagram f s a forced
      else
        ((w.startflight f s p.payload.length).setQueue s rest).txData f s { p with header := .data }
          (.data a.sid (p.tsn % 2 ^ 32).toNat p.flags p.payload) forced
    else if p.type = .data && p.tsn ≤ 0xffff then w.transmitAttach f s p rest a i forced
    else w.txAttach f s a i forced

/-- `BaseStream::transmit`. -/
def transmit (w : Peer) (f : ℕ) (s : StrmId) (forced : Bool) : Peer × List Frame :=
  let w := w.modStream s fun b => { b with tqflow := false }.collect
  match (w.streams s).tcuratt, (w.streams s).curatt with
  | some i, some a => w.transmitHead f s a i forced
  | _, _ => (w, [])

/-- `StreamFlow::gotReadyTransmit`: one turn of its loop, and the test before the next one. -/
def readyTransmit (w : Peer) (f : ℕ) (forced : Bool) : Peer × List Frame :=
  match (w.flows f).tstreams with
  | [] => (w, [])
  | s :: rest =>
    let (w, frames) := (w.modFlow f fun x => { x with tstreams := rest }).transmit f s forced
    (w, frames ++ [.readyTransmit f])

/-- A call of `readyTransmit` by one that asks `mayTransmit`. -/
def prodFlow (w : Peer) (f : ℕ) : Peer × List Frame :=
  if (w.flows f).mayTransmit then w.readyTransmit f false else (w, [])

end Sst.Strm.Peer
