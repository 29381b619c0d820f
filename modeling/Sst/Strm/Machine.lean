import Sst.Strm.Receive
import Sst.Lib.Transition

/-!
# Runs of a peer

A run is a sequence of small steps: the next call is made, an application callback makes a call or
returns, or, when no call is left, an event of the environment happens.

* `Peer.writeSegment`, `openSubstream`, `writeDatagram`: the transmit interface of a stream.
* `Call`: what the application may do, on its own or from a callback.
* `Event`: what happens to a peer from outside: packets, reports and link changes of its flows,
  flows and streams that come and go.
* `Peer.exec`, `call`, `event`: their effects.
* `peerMachine`: the runs, for any number of streams and flows and any nesting of callbacks.
-/

namespace Sst.Strm

/-- What the application does. -/
inductive Call
  | connectTo (request : List UInt8)
  | openSubstream (s : StrmId)
  | acceptSubstream (s : StrmId)
  | acceptStream (s : StrmId)
  | listen (s : StrmId) (mode : ℕ)
  | setPriority (s : StrmId) (newpri : ℤ)
  | writeData (s : StrmId) (data : List UInt8) (endflags : Flags)
  | writeDatagram (s : StrmId) (data : List UInt8) (reliable : Bool)
  | shutdown (s : StrmId) (reset write : Bool)
  | close (s : StrmId)

/-- What happens to a peer from outside; `channel` is what a flow does below its streams, and
`rehash` another order of a table. -/
inductive Event
  | newFlow
  | start (f : ℕ) (initiator nocc : Bool) (txChannelId rxChannelId : ℕ)
  | channel (f : ℕ) (cwnd txfltcnt : BitVec 32) (sockMay : Bool) (txseq : ℕ)
  | rehash (f : ℕ) (ackwait : AList fun _ : ℕ => Packet)
  | linkStatus (f : ℕ) (status : LinkStatus)
  | destroyFlow (f : ℕ)
  | deleteStream (n : ℕ)
  | acked (f seq rxseq : ℕ)
  | missed (f seq : ℕ)
  | expire (f seq : ℕ)
  | readyTransmit (f : ℕ) (forced : Bool)
  | receive (f : ℕ) (rx : Rx)

namespace Peer

/-! ## The transmit interface -/

/-- The next segment of a write: a full packet, or what is left of the data, with the flags. -/
def nextSegment (w : Peer) (s : StrmId) (data : List UInt8) (endflags : Flags) : Packet :=
  let b := w.streams s
  let flags := if data.length ≤ mtu then endflags.pushed else ⟨false, false, false⟩
  ⟨s, .data, b.tasn, .invalid, flags, false, false, data.take mtu, false, b.written.length⟩

/-- A segment is written, and waits for its acknowledgment. -/
def recordSegment (w : Peer) (s : StrmId) (p : Packet) : Peer :=
  w.modStream s fun b =>
    { b with
      tasn := Word.wrap 32 (b.tasn + p.payloadSize)
      twait := insert p.tsn b.twait
      twaitsize := Word.wrap 32 (b.twaitsize + p.payloadSize)
      written := b.written ++ [⟨p.tsn, p.flags, p.payload⟩] }

/-- One turn of the loop of `writeData`. -/
def writeSegment (w : Peer) (s : StrmId) (data : List UInt8) (endflags : Flags) :
    Peer × List Frame :=
  let p := w.nextSegment s data endflags
  let (w, frames) := (w.recordSegment s p).txenqueue s p
  (w, frames ++ if data.length ≤ mtu then (if endflags.close then [.endWrite s] else [])
    else [.writeData s (data.drop mtu) endflags])

/-- A new stream. -/
def newStream (w : Peer) (b : BaseStream) : Peer :=
  { w with
    streams := Function.update w.streams (.sub w.nextStream) b
    nextStream := w.nextStream + 1 }

/-- `BaseStream::openSubstream`. -/
def openSubstream (w : Peer) (s : StrmId) : Peer × List Frame :=
  (w.newStream (.new (some s) (w.streams s).listenMode .connected)).tattach s

/-- A datagram in one packet; it has a position in the queue, but takes no bytes of it. -/
def nextDatagram (w : Peer) (s : StrmId) (data : List UInt8) : Packet :=
  ⟨s, .datagram, (w.streams s).tasn, .datagram, ⟨false, false, false⟩, true, true, data, false, 0⟩

/-- `BaseStream::writeDatagram`. -/
def writeDatagram (w : Peer) (s : StrmId) (data : List UInt8) (reliable : Bool) :
    Peer × List Frame :=
  if reliable || mtu < data.length then
    let n := w.nextStream
    let (w, frames) := w.openSubstream s
    (w, frames ++ [.writeData (.sub n) data closeFlag])
  else
    let (w, frames) := w.txenqueue s (w.nextDatagram s data)
    (w, frames ++ [.txenqflow s])

/-- `BaseStream::shutdown`; shutting down for reading changes the receive side only. -/
def shutdown (w : Peer) (s : StrmId) (reset write : Bool) : Peer × List Frame :=
  if reset then w.disconnect s
  else if write && (w.streams s).state = .connected && !(w.streams s).endwrite then
    (w, [.writeData s [] closeFlag])
  else (w, [])

/-! ## Calls still to be made -/

/-- The first of the streams connected to a signal that is still waiting attaches. -/
def wake (w : Peer) (waiting : List StrmId) (drop : Peer → StrmId → Peer) :
    List StrmId → (List StrmId → Frame) → Peer × List Frame
  | [], _ => (w, [])
  | s :: rest, signal =>
    if s ∈ waiting then
      let (w, frames) := (drop w s).tattach s
      (w, frames ++ [signal rest])
    else (w, [signal rest])

/-- A call that is still to be made. -/
def exec (w : Peer) : Frame → Peer × List Frame
  | .app => (w, [])
  | .tattach s => w.tattach s
  | .txenqflow s => w.txenqflow s true
  | .readyTransmit f => w.prodFlow f
  | .attachAcked f s rxseq => w.attachAcked f s rxseq
  | .attached s children => w.wake (w.streams s).listeners
      (fun w c => w.modStream s fun b => { b with listeners := b.listeners.filter (· ≠ c) })
      children (.attached s)
  | .linkUp s => (w, if (w.streams s).state = .connected then (w.streams s).callback else [])
  | .flowConnected waiters => w.wake w.waiters
      (fun w s => { w with waiters := w.waiters.filter (· ≠ s) }) waiters .flowConnected
  | .writeData s data endflags => w.writeSegment s data endflags
  | .endWrite s => (w.modStream s fun b => { b with endwrite := true }, [])
  | .waitService s => (w.modStream s fun b => { b with state := .waitService }).tattach s
  | .bindStream s => (w.modStream s fun b => { b with strm := true }, [])
  | .calcTransmitWindow s win => w.calcTransmitWindow s win
  | .rxData s outcome => w.rxOutcome s outcome
  | .serviceAccepted s => (w.modStream s fun b => { b with state := .connected }, [.app])

/-! ## Calls of the application -/

/-- The application has the stream in its hands. -/
def usable (w : Peer) (s : StrmId) : Bool := (w.streams s).live && (w.streams s).strm

/-- A call of the application. -/
def call (w : Peer) : Call → Option (Peer × List Frame)
  | .connectTo request =>
    let b := { BaseStream.new none 0 .fresh with toplev := true, strm := true }
    let s := StrmId.sub w.nextStream
    some (w.newStream b, [.writeData s request messageFlag, .waitService s])
  | .openSubstream s =>
    if w.usable s then
      let n := w.nextStream
      let (w, frames) := w.openSubstream s
      some (w, frames ++ [.bindStream (.sub n)])
    else none
  | .acceptSubstream s =>
    match w.usable s, (w.streams s).rsubs with
    | true, c :: rsubs =>
      let w := w.modStream s fun b => { b with rsubs := rsubs }
      some (w.modStream c fun b => { b with strm := true }, [])
    | _, _ => none
  | .acceptStream s =>
    if (w.streams s).live && !(w.streams s).strm && (w.streams s).state = .connected &&
        (w.streams s).parent.any fun p => p matches .root _ then
      some (w.modStream s fun b => { b with strm := true }, [])
    else none
  | .listen s mode =>
    if w.usable s then some (w.modStream s fun b => { b with listenMode := mode }, []) else none
  | .setPriority s newpri => if w.usable s then some (w.setPriority s newpri, []) else none
  | .writeData s data endflags =>
    if w.usable s && !(w.streams s).endwrite then some (w, [.writeData s data endflags]) else none
  | .writeDatagram s data reliable =>
    if w.usable s then some (w.writeDatagram s data reliable) else none
  | .shutdown s reset write => if w.usable s then some (w.shutdown s reset write) else none
  | .close s =>
    if w.usable s then
      some ((w.modStream s fun b => { b with strm := false }).shutdown s false true)
    else none

/-! ## Events -/

/-- The root stream of `f`, attached in both directions. -/
def rootStream (f : ℕ) : BaseStream :=
  { BaseStream.new none 0 .connected with
    tatt := Function.update (fun _ => none) 0 (some ⟨f, sidRoot, 1, true⟩)
    tcuratt := some 0
    ratt := Function.update (fun _ => none) 0 (some ⟨f, sidRoot, 1⟩)
    listenMode := 3 }

/-- The constructor of a flow. -/
def newFlow (w : Peer) : Peer :=
  let f := w.nextFlow
  { w with
    flows := Function.update w.flows f
      { StreamFlow.new with
        txsids := .singleton sidRoot (.root f, 0)
        rxsids := .singleton sidRoot (.root f, 0) }
    streams := Function.update w.streams (.root f) (rootStream f)
    nextFlow := f + 1 }

/-- The flow is ready to go. -/
def activateFlow (w : Peer) (f : ℕ) (nocc : Bool) (txChannelId rxChannelId : ℕ) : Peer :=
  w.modFlow f fun x =>
    { x with
      active := true
      started := true
      nocc := nocc
      txChannelId := txChannelId
      rxChannelId := rxChannelId }

/-- The root stream gets its name. -/
def nameRoot (w : Peer) (f chanId : ℕ) : Peer :=
  w.modStream (.root f) fun b => { b with usid := some ⟨0, chanId⟩ }

/-- `StreamFlow::start`. -/
def start (w : Peer) (f : ℕ) (initiator nocc : Bool) (txChannelId rxChannelId : ℕ) :
    Peer × List Frame :=
  let (w, frames) := (w.activateFlow f nocc txChannelId rxChannelId).readyTransmit f true
  let w := w.modFlow f fun x => { x with linkstat := .up }
  let (w, frames') :=
    (w.nameRoot f (if initiator then txChannelId else rxChannelId)).flowStarted f
  (w, frames ++ frames')

/-- `StreamPeer::primaryStatusChanged`. -/
def primaryStatusChanged (w : Peer) (status : LinkStatus) : Peer × List Frame :=
  match status with
  | .up => ({ w with stallcount := 0 }, [])
  | .stalled =>
    let w := { w with stallcount := w.stallcount + 1 }
    (w, if w.stallcount < stallMax then [] else [.app])
  | .down => (w, [.app])

/-- `StreamFlow::gotLinkStatusChanged` for a flow whose link went down. -/
def linkDown (w : Peer) (f : ℕ) : Peer × List Frame :=
  let (w, frames) := if w.flow = some f then w.clearPrimary else (w, [])
  let (w, frames') := w.stop f
  (w, frames ++ frames')

/-- `Flow::setLinkStatus` and the signal that it emits. -/
def setLinkStatus (w : Peer) (f : ℕ) (status : LinkStatus) : Peer × List Frame :=
  if (w.flows f).linkstat = status ∧ status ≠ .stalled then (w, [])
  else
    let w := w.modFlow f fun x => { x with linkstat := status }
    let (w, frames) := if status = .down then w.linkDown f else (w, [])
    let (w, frames') := if w.flow = some f then w.primaryStatusChanged status else (w, [])
    (w, frames ++ frames')

/-- The destructor of a flow, and of its root stream. -/
def destroyFlow (w : Peer) (f : ℕ) : Peer × List Frame :=
  let (w, frames) := w.stop f
  let (w, frames') := w.deleteStream (.root f)
  (w, frames ++ frames')

/-- An event. -/
def event (w : Peer) : Event → Option (Peer × List Frame)
  | .newFlow => some (w.newFlow, [])
  | .start f initiator nocc tx rx =>
    if f < w.nextFlow && !(w.flows f).started && (w.streams (.root f)).live then
      some (w.start f initiator nocc tx rx)
    else none
  | .channel f cwnd txfltcnt sockMay txseq =>
    if f < w.nextFlow && (w.flows f).txseq ≤ txseq then
      some (w.modFlow f fun x =>
        { x with cwnd := cwnd, txfltcnt := txfltcnt, sockMay := sockMay, txseq := txseq }, [])
    else none
  | .rehash f ackwait =>
    if ackwait.entries.Perm (w.flows f).ackwait.entries then
      some (w.modFlow f fun x => { x with ackwait := ackwait }, [])
    else none
  | .linkStatus f status => if (w.flows f).active then some (w.setLinkStatus f status) else none
  | .destroyFlow f =>
    if (w.streams (.root f)).live && w.flow ≠ some f then some (w.destroyFlow f) else none
  | .deleteStream n =>
    if (w.streams (.sub n)).live then some (w.deleteStream (.sub n)) else none
  | .acked f seq rxseq =>
    if (w.flows f).active && rxseq < maxPacketSeq then some (w.acked f seq rxseq) else none
  | .missed f seq => if (w.flows f).active then some (w.missed f seq) else none
  | .expire f seq => if (w.flows f).active then some (w.expire f seq, []) else none
  | .readyTransmit f forced =>
    if (w.flows f).active && (forced || (w.flows f).mayTransmit) then
      some (w.readyTransmit f forced)
    else none
  | .receive f rx => if (w.flows f).active then some (w.receive f rx) else none

end Peer

/-! ## Steps -/

/-- A peer in the middle of a run, with the calls still to be made, the next one first. -/
structure Exec where
  peer : Peer
  stack : List Frame

/-- A step: the next call is made, a callback returns or makes a call, an event happens. -/
inductive Label
  | run
  | back
  | call (c : Call)
  | event (e : Event)

namespace Exec

/-- The application may run: in a callback, or when nothing else does. -/
def idle (x : Exec) : Bool := x.stack.head?.all (· = .app)

/-- Go on with a new state and the calls to make first. -/
def resume (r : Peer × List Frame) (stack : List Frame) : Exec := ⟨r.1, r.2 ++ stack⟩

/-- One step; a failed assertion stops the run. -/
def step (x : Exec) (l : Label) : Option Exec :=
  if x.peer.fault then none
  else match l, x.stack with
    | .run, .app :: _ => none
    | .run, fr :: stack => some (resume (x.peer.exec fr) stack)
    | .back, .app :: stack => some ⟨x.peer, stack⟩
    | .call c, stack => if x.idle then (x.peer.call c).map (resume · stack) else none
    | .event e, [] => (x.peer.event e).map (resume · [])
    | _, _ => none

end Exec

/-- The runs of a peer. -/
def peerMachine : Transition.Machine Exec Label where
  init := ⟨.new, []⟩
  step := Exec.step

end Sst.Strm
