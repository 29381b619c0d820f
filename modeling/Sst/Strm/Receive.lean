import Sst.Strm.Return

/-!
# Reception of stream packets

`BaseStream::receive` dispatches a packet to the stream of its stream id, or attaches or creates
that stream.

* `Rx`: a packet received, with what the flow and the receive buffers make of it.
* `Peer.rxInitPacket`, …, `rxAttachPacket`: one function a packet type.
* `Peer.rxSubstream`: the creation of a stream by the other side.
* `Peer.receive`: the dispatch.

What `rxData` does to the receive buffers is the subject of another model; here it notifies the
application or hands over a service message.
-/

namespace Sst.Strm

/-- A packet received: its sequence number, the window and the packet, what the receive buffers make
of its data, and how many packets `acknowledge` sends. -/
structure Rx where
  pktseq : ℕ
  win : ℕ
  wire : Wire
  outcome : RxOutcome
  acks : ℕ

/-- The service reply: `ConnectReply` and no error. -/
def serviceReply : List UInt8 := [0, 0, 2, 1, 0, 0, 0, 0]

/-- `dataMessageFlag`. -/
def messageFlag : Flags := ⟨false, true, false⟩

/-- `dataCloseFlag`. -/
def closeFlag : Flags := ⟨false, false, true⟩

namespace Peer

/-- `Flow::acknowledge`, as far as the streams see it. -/
def acknowledge (w : Peer) (f acks : ℕ) : Peer :=
  w.modFlow f fun x => { x with txseq := x.txseq + acks }

/-- `StreamRxAttachment::setActive`. -/
def setActive (w : Peer) (s : StrmId) (i : Fin 2) (f sid rxseq : ℕ) : Peer :=
  (w.modStream s fun b =>
      { b with ratt := Function.update b.ratt i (some ⟨f, sid, rxseq⟩) }).modFlow f
    fun x => { x with rxsids := x.rxsids.insert sid (s, i) }

/-- An earlier packet than the ones seen on the attachment. -/
def lowerSidseq (w : Peer) (s : StrmId) (i : Fin 2) (pktseq : ℕ) : Peer :=
  w.modStream s fun b =>
    { b with
      ratt := Function.update b.ratt i
        ((b.ratt i).map fun a => { a with sidseq := min a.sidseq pktseq }) }

/-- `BaseStream::calcTransmitWindow`. -/
def calcTransmitWindow (w : Peer) (s : StrmId) (win : ℕ) : Peer × List Frame :=
  let twin := Word.wrap 32 (2 ^ (win % 2 ^ 5) - 1)
  let grows := decide ((w.streams s).twin < twin)
  let w := w.modStream s fun b => { b with twin := twin }
  if grows then w.txenqflow s true else (w, [])

/-- The end of `rxData`: what it tells the application, and the service messages. -/
def rxOutcome (w : Peer) (s : StrmId) (outcome : RxOutcome) : Peer × List Frame :=
  match outcome, (w.streams s).state with
  | .quiet, _ => (w, [])
  | .notify, _ => (w, [.app])
  | .service true, .waitService =>
    (w.modStream s fun b => { b with state := .connected }, (w.streams s).callback)
  | .service true, .accepting => (w, [.writeData s serviceReply messageFlag, .serviceAccepted s])
  | .service false, .waitService | .service false, .accepting => w.disconnect s
  | .service _, _ => (w, [])

/-- The window update and the data of a packet for the stream `s`. -/
def deliver (w : Peer) (s : StrmId) (rx : Rx) : Peer × List Frame :=
  let (w, frames) := w.calcTransmitWindow s rx.win
  (w, frames ++ [.rxData s rx.outcome])

/-- The new substream in `rxSubstream`. -/
def createSub (w : Peer) (f : ℕ) (p : StrmId) (u : Usid) : Peer :=
  let n := w.nextStream
  let state : StreamState := if p = .root f then .accepting else .connected
  let w := { w with
    streams := Function.update w.streams (.sub n)
      (.new (some p) (w.streams p).listenMode state)
    nextStream := n + 1 }
  let w := w.setUsid (.sub n) u
  if p = .root f then w else w.modStream p fun b => { b with rsubs := b.rsubs ++ [.sub n] }

/-- The `rxctr` of a flow follows the stream ids of the streams that it creates. -/
def followCtr (w : Peer) (f sid : ℕ) : Peer :=
  w.modFlow f fun x => { x with rxctr := max x.rxctr (x.extrapolate sid) }

/-- `BaseStream::rxSubstream`: the new stream, if the parent `p` is listening, and its callback. -/
def rxSubstream (w : Peer) (f : ℕ) (p : StrmId) (pktseq sid : ℕ) (slot : Fin 2) (u : Usid)
    (acks : ℕ) : Peer × Option StrmId × List Frame :=
  let w := w.acknowledge f acks
  if !(w.streams p).isListening then (w, none, [])
  else
    let s := StrmId.sub w.nextStream
    let w := ((w.createSub f p u).followCtr f sid).setActive s slot f sid pktseq
    (w, some s, if p = .root f then [] else (w.streams p).callback)

/-- `BaseStream::rxInitPacket`. -/
def rxInitPacket (w : Peer) (f : ℕ) (rx : Rx) (sid rsid : ℕ) : Peer × List Frame :=
  match (w.flows f).rxsids.lookup sid with
  | some (s, i) => (w.lowerSidseq s i rx.pktseq).deliver s rx
  | none =>
    match (w.flows f).rxsids.lookup rsid with
    | none => (w.acknowledge f rx.acks, [])
    | some (p, i) =>
      if ((w.streams p).ratt i).any fun a => rx.pktseq < a.sidseq then (w, [])
      else
        let u : Usid := ⟨(w.flows f).extrapolate sid, (w.flows f).rxChannelId⟩
        match w.rxSubstream f p rx.pktseq sid 0 u rx.acks with
        | (w, none, frames) => (w, frames)
        | (w, some s, frames) =>
          (w, frames ++ [.calcTransmitWindow s rx.win, .rxData s rx.outcome])

/-- `BaseStream::rxReplyPacket`. -/
def rxReplyPacket (w : Peer) (f : ℕ) (rx : Rx) (sid rsid : ℕ) : Peer × List Frame :=
  match (w.flows f).rxsids.lookup sid with
  | some (s, i) => (w.lowerSidseq s i rx.pktseq).deliver s rx
  | none =>
    match (w.flows f).txsids.lookup rsid with
    | none => (w.acknowledge f rx.acks, [])
    | some (s, i) =>
      if ((w.streams s).tatt i).any fun a => rx.pktseq < a.sidseq then (w, [])
      else (w.setActive s 0 f sid rx.pktseq).deliver s rx

/-- `BaseStream::rxDataPacket`. -/
def rxDataPacket (w : Peer) (f : ℕ) (rx : Rx) (sid : ℕ) : Peer × List Frame :=
  match (w.flows f).rxsids.lookup sid with
  | none => (w.acknowledge f rx.acks, [])
  | some (s, i) =>
    if ((w.streams s).ratt i).any fun a => rx.pktseq < a.sidseq then (w, []) else w.deliver s rx

/-- `BaseStream::rxDatagramPacket`; a datagram waits as a stream of its own kind. -/
def rxDatagramPacket (w : Peer) (f : ℕ) (rx : Rx) (sid : ℕ) (begins ends : Bool) :
    Peer × List Frame :=
  match (w.flows f).rxsids.lookup sid with
  | none => (w.acknowledge f rx.acks, [])
  | some (s, i) =>
    if ((w.streams s).ratt i).any fun a => rx.pktseq < a.sidseq then (w, [])
    else if (w.streams s).state ≠ .connected then (w.acknowledge f rx.acks, [])
    else if !begins || !ends then (w, [])
    else (w, (w.streams s).callback)

/-- `BaseStream::rxAckPacket`. -/
def rxAckPacket (w : Peer) (f : ℕ) (rx : Rx) (sid : ℕ) : Peer × List Frame :=
  let w := w.acknowledge f rx.acks
  match (w.flows f).txsids.lookup sid with
  | none => (w, [])
  | some (s, i) =>
    if ((w.streams s).tatt i).any fun a => rx.pktseq < a.sidseq then (w, [])
    else w.calcTransmitWindow s rx.win

/-- `BaseStream::rxAttachPacket`. -/
def rxAttachPacket (w : Peer) (f : ℕ) (rx : Rx) (sid : ℕ) (slot : Fin 2) (usid : Option Usid)
    (pusid : Option (Option Usid)) : Peer × List Frame :=
  match usid, pusid with
  | none, _ | _, some none => (w, [])
  | some u, _ =>
    match w.usids u with
    | some s =>
      if ((w.streams s).ratt slot).any fun a => a.flow = f && a.sid = sid then
        (w.lowerSidseq s slot rx.pktseq, [])
      else ((w.clearRx s slot).setActive s slot f sid rx.pktseq, [])
    | none =>
      match pusid.join.bind w.usids with
      | some p =>
        let (w, _, frames) := w.rxSubstream f p rx.pktseq sid slot u rx.acks
        (w, frames)
      | none => (w.acknowledge f rx.acks, [])

/-- `BaseStream::receive`. -/
def receive (w : Peer) (f : ℕ) (rx : Rx) : Peer × List Frame :=
  match rx.wire with
  | .init sid rsid _ _ _ => w.rxInitPacket f rx sid rsid
  | .reply sid rsid _ _ _ => w.rxReplyPacket f rx sid rsid
  | .data sid _ _ _ => w.rxDataPacket f rx sid
  | .datagram sid begins ends _ => w.rxDatagramPacket f rx sid begins ends
  | .ack sid => w.rxAckPacket f rx sid
  | .attach sid slot usid pusid => w.rxAttachPacket f rx sid slot usid pusid

end Peer

end Sst.Strm
