import Sst.Flow.State
import Sst.Stream.Write
import Mathlib.Data.List.AList
import Mathlib.Data.List.DropRight
import Mathlib.Data.Finset.Insert

/-!
# The streams and flows of a peer

The state of a `StreamPeer`: its flows with their stream id tables, its streams with their
attachment slots and transmit queues, and the table of unique stream ids.

* `TxAttachment`, `RxAttachment`: an attachment slot in use.
* `Packet`: a packet in a stream's transmit queue or in a flow's `ackwait` table.
* `BaseStream`, `StreamFlow`, `Peer`: the state.
* `Frame`: a call that is still to be made, or an application callback that runs.
* `Wire`: what a packet says on the network.

A `QHash` that the code iterates over is an association list with distinct keys; what it relies on
of the flow below is the number of packets in flight, the congestion window and the next sequence
number. The sizes of the receive buffers are left to the environment.
-/

namespace Sst.Strm

/-- A base stream: the root of a flow, or another one. -/
inductive StrmId
  | root (flow : ℕ)
  | sub (n : ℕ)
  deriving DecidableEq

/-- `UniqueStreamId`, if it is not null. -/
structure Usid where
  streamCtr : ℕ
  chanId : ℕ
  deriving DecidableEq

def maxSidSkip : ℕ := 16

def sidRoot : ℕ := 0

def stallMax : ℕ := 3

/-- The two slots of a stream, as numerals. -/
scoped instance instNeZeroSlots : NeZero 2 := ⟨two_ne_zero⟩

/-- `StreamTxAttachment` in use. -/
structure TxAttachment where
  flow : ℕ
  sid : ℕ
  sidseq : ℕ
  active : Bool
  deriving DecidableEq

def TxAttachment.isAcked (a : TxAttachment) : Bool := a.sidseq ≠ maxPacketSeq

/-- `StreamRxAttachment` in use. -/
structure RxAttachment where
  flow : ℕ
  sid : ℕ
  sidseq : ℕ
  deriving DecidableEq

inductive PacketType
  | invalid
  | init
  | reply
  | data
  | datagram
  | attach
  deriving DecidableEq

/-- `BaseStream::Packet`; `header` is the major type in its header, `begins` and `ends` are the
flags of a datagram, and `id` is the number of the segment among those written. -/
structure Packet where
  strm : StrmId
  type : PacketType
  tsn : ℤ
  header : PacketType
  flags : Flags
  begins : Bool
  ends : Bool
  payload : List UInt8
  late : Bool
  id : ℕ
  deriving DecidableEq

def Packet.payloadSize (p : Packet) : ℤ := p.payload.length

/-- What a packet says: the header and the body. -/
inductive Wire
  | init (sid rsid tsn : ℕ) (flags : Flags) (payload : List UInt8)
  | reply (sid rsid tsn : ℕ) (flags : Flags) (payload : List UInt8)
  | data (sid tsn : ℕ) (flags : Flags) (payload : List UInt8)
  | datagram (sid : ℕ) (begins ends : Bool) (payload : List UInt8)
  | ack (sid : ℕ)
  | attach (sid : ℕ) (slot : Fin 2) (usid : Option Usid) (pusid : Option (Option Usid))
  deriving DecidableEq

/-- `BaseStream::State`. -/
inductive StreamState
  | fresh
  | waitService
  | accepting
  | connected
  | disconnected
  deriving DecidableEq

/-! ## Streams -/

/-- The attachment slots of a stream. -/
structure Slots where
  tatt : Fin 2 → Option TxAttachment
  ratt : Fin 2 → Option RxAttachment
  tcuratt : Option (Fin 2)

/-- The transmit queue of a stream and its place in the queue of its flow; `stamp` is the time at
which it entered that queue. -/
structure Queueing where
  tqueue : List Packet
  tqflow : Bool
  priority : ℤ
  stamp : ℕ

/-- The byte transmit state; `written` counts the segments written, and `ackedIds` records those of
which a copy was acknowledged. -/
structure Sending where
  tasn : ℤ
  twin : ℤ
  tflt : ℤ
  twait : Finset ℤ
  twaitsize : ℤ
  endwrite : Bool
  written : List Segment
  ackedIds : Finset ℕ

/-- The names of a stream and of its parent; `live` is `peer != NULL`. -/
structure Naming where
  live : Bool
  usid : Option Usid
  pusid : Option Usid
  parent : Option StrmId
  toplev : Bool
  init : Bool

/-- `BaseStream`; `strm` tells whether it has a `Stream`, `listeners` are the substreams waiting for
its `attached()` signal. -/
structure BaseStream extends Slots, Queueing, Sending, Naming where
  state : StreamState
  strm : Bool
  listenMode : ℕ
  rsubs : List StrmId
  listeners : List StrmId

/-! ## Flows -/

/-- What a flow has sent: the stream, the packet, whether `mayTransmit` held at that moment, and
whether a `readyTransmit` that does not ask for it came first. -/
structure Sent where
  seq : ℕ
  strm : StrmId
  wire : Wire
  nocc : Bool
  may : Bool
  forced : Bool

/-- The stream id tables of a flow. -/
structure Sids where
  txsids : AList fun _ : ℕ => StrmId × Fin 2
  rxsids : AList fun _ : ℕ => StrmId × Fin 2

/-- The part of `Flow` that its streams use. -/
structure Channel where
  active : Bool
  linkstat : LinkStatus
  cwnd : BitVec 32
  txfltcnt : BitVec 32
  nocc : Bool
  sockMay : Bool
  txseq : ℕ
  txChannelId : ℕ
  rxChannelId : ℕ

/-- `StreamFlow`; `started` records that `start` was called, and `sent` what it sent, the latest
first. -/
structure StreamFlow extends Sids, Channel where
  txctr : ℕ
  txackctr : ℕ
  rxctr : ℕ
  tstreams : List StrmId
  ackwait : AList fun _ : ℕ => Packet
  started : Bool
  sent : List Sent

/-! ## The peer -/

/-- A data or datagram packet on its way: the stream charged for it, and its size. -/
structure Charge where
  flow : ℕ
  seq : ℕ
  strm : StrmId
  size : ℕ
  deriving DecidableEq

/-- `StreamPeer`: its primary flow, the streams waiting for its `flowConnected()` signal, and the
numbers of the next stream and flow. `clock` counts the entries into flow queues; `charges` are the
packets of which the flow has reported neither an acknowledgment nor a loss; `fault` is set when an
assertion fails that a stream finds a free stream id and a free slot. -/
structure Peer where
  flows : ℕ → StreamFlow
  streams : StrmId → BaseStream
  usids : Usid → Option StrmId
  flow : Option ℕ
  stallcount : ℕ
  waiters : List StrmId
  nextStream : ℕ
  nextFlow : ℕ
  clock : ℕ
  charges : List Charge
  fault : Bool

/-- What the receive buffers make of a segment: nothing to report, a notification, or the service
message that the stream waits for, which is right or wrong. -/
inductive RxOutcome
  | quiet
  | notify
  | service (ok : Bool)
  deriving DecidableEq

/-- A call that is still to be made; `app` is an application callback that runs. -/
inductive Frame
  | app
  | tattach (s : StrmId)
  | txenqflow (s : StrmId)
  | readyTransmit (f : ℕ)
  | attachAcked (f : ℕ) (s : StrmId) (rxseq : ℕ)
  | attached (s : StrmId) (children : List StrmId)
  | linkUp (s : StrmId)
  | flowConnected (waiters : List StrmId)
  | writeData (s : StrmId) (data : List UInt8) (endflags : Flags)
  | endWrite (s : StrmId)
  | waitService (s : StrmId)
  | bindStream (s : StrmId)
  | calcTransmitWindow (s : StrmId) (win : ℕ)
  | rxData (s : StrmId) (outcome : RxOutcome)
  | serviceAccepted (s : StrmId)
  deriving DecidableEq

/-! ## Initial states -/

/-- The constructor; the listen mode is inherited. -/
def BaseStream.new (parent : Option StrmId) (parentMode : ℕ) (state : StreamState) :
    BaseStream where
  tatt _ := none
  ratt _ := none
  tcuratt := none
  tqueue := []
  tqflow := false
  priority := 0
  stamp := 0
  tasn := 0
  twin := 0
  tflt := 0
  twait := ∅
  twaitsize := 0
  endwrite := false
  written := []
  ackedIds := ∅
  live := true
  usid := none
  pusid := none
  parent := parent
  toplev := false
  init := true
  state := state
  strm := false
  listenMode := if parentMode / 4 % 2 = 1 then parentMode else 0
  rsubs := []
  listeners := []

/-- A stream that does not exist yet. -/
def BaseStream.blank : BaseStream := { BaseStream.new none 0 .disconnected with live := false }

/-- A flow, without the attachments of its root stream. -/
def StreamFlow.new : StreamFlow where
  txsids := ∅
  rxsids := ∅
  active := false
  linkstat := .down
  cwnd := cwndMin
  txfltcnt := 0
  nocc := false
  sockMay := false
  txseq := 1
  txChannelId := 0
  rxChannelId := 0
  txctr := 1
  txackctr := 0
  rxctr := 0
  tstreams := []
  ackwait := ∅
  started := false
  sent := []

/-- The constructor. -/
def Peer.new : Peer where
  flows _ := .new
  streams _ := .blank
  usids _ := none
  flow := none
  stallcount := 0
  waiters := []
  nextStream := 0
  nextFlow := 0
  clock := 0
  charges := []
  fault := false

namespace BaseStream

/-- The current transmit attachment. -/
def curatt (b : BaseStream) : Option TxAttachment := b.tcuratt.bind b.tatt

def isListening (b : BaseStream) : Bool := b.listenMode ≠ 0

/-- A free attachment slot. -/
def freeSlot (b : BaseStream) : Option (Fin 2) :=
  if b.tatt 0 = none then some 0 else if b.tatt 1 = none then some 1 else none

/-- The callback of the application, if the stream has one. -/
def callback (b : BaseStream) : List Frame := if b.strm then [.app] else []

/-- Drop what was acknowledged from the head of the transmit queue. -/
def collect (b : BaseStream) : BaseStream :=
  { b with tqueue := b.tqueue.dropWhile fun p => p.type = .data && p.tsn ∉ b.twait }

/-- Insert a packet into the transmit queue, behind the last one that is not beyond it. -/
def insertPacket (b : BaseStream) (p : Packet) : BaseStream :=
  { b with
    tqueue := b.tqueue.rdropWhile (fun q => 0 < q.tsn - p.tsn) ++
      p :: b.tqueue.rtakeWhile fun q => 0 < q.tsn - p.tsn }

end BaseStream

namespace StreamFlow

/-- `Flow::mayTransmit`. -/
def mayTransmit (x : StreamFlow) : Bool := if x.nocc then x.sockMay else x.txfltcnt < x.cwnd

/-- A stream id in the table of the sending side. -/
def usesSid (x : StreamFlow) (ctr : ℕ) : Bool := (x.txsids.lookup (ctr % 2 ^ 16)).isSome

/-- The loop that looks for a free stream id behind `ctr`. -/
def scanSid (x : StreamFlow) : ℕ → ℕ → Option ℕ
  | 0, _ => none
  | maxsearch + 1, ctr =>
    if x.usesSid (ctr + 1) then x.scanSid maxsearch (ctr + 1) else some (ctr + 1)

/-- The counter value with which `tattach` attaches a stream. -/
def allocSid (x : StreamFlow) : Option ℕ :=
  if x.usesSid x.txctr then
    x.scanSid (min (Word.wrap 32 (0x7ff0 - (x.txctr - x.txackctr : ℤ))) maxSidSkip).toNat x.txctr
  else some x.txctr

/-- The counter of the peer from a 16-bit stream id. -/
def extrapolate (x : StreamFlow) (sid : ℕ) : ℕ :=
  ((x.rxctr + Word.wrap 16 (sid - Word.wrap 16 x.rxctr) : ℤ) % 2 ^ 64).toNat

end StreamFlow

namespace Peer

/-- Change one stream. -/
def modStream (w : Peer) (s : StrmId) (g : BaseStream → BaseStream) : Peer :=
  { w with streams := Function.update w.streams s (g (w.streams s)) }

/-- Change one flow. -/
def modFlow (w : Peer) (f : ℕ) (g : StreamFlow → StreamFlow) : Peer :=
  { w with flows := Function.update w.flows f (g (w.flows f)) }

section Update

variable (w : Peer) (s t : StrmId) (f k : ℕ) (g : BaseStream → BaseStream)
  (h : StreamFlow → StreamFlow)

theorem modStream_streams :
    (w.modStream s g).streams t = if t = s then g (w.streams s) else w.streams t :=
  Function.update_apply ..

theorem modFlow_flows : (w.modFlow f h).flows k = if k = f then h (w.flows f) else w.flows k :=
  Function.update_apply ..

@[simp] theorem modStream_self : (w.modStream s g).streams s = g (w.streams s) :=
  Function.update_self ..

@[simp] theorem modFlow_self : (w.modFlow f h).flows f = h (w.flows f) :=
  Function.update_self ..

@[simp] theorem modStream_flows : (w.modStream s g).flows = w.flows := rfl

@[simp] theorem modFlow_streams : (w.modFlow f h).streams = w.streams := rfl

@[simp] theorem modStream_usids : (w.modStream s g).usids = w.usids := rfl

@[simp] theorem modFlow_usids : (w.modFlow f h).usids = w.usids := rfl

@[simp] theorem modStream_flow : (w.modStream s g).flow = w.flow := rfl

@[simp] theorem modFlow_flow : (w.modFlow f h).flow = w.flow := rfl

end Update

/-- A stream's parent, if it still exists. -/
def parentOf (w : Peer) (s : StrmId) : Option StrmId :=
  (w.streams s).parent.filter fun p => (w.streams p).live

/-- Whether a stream is attached to `f` for transmission. -/
def onFlow (w : Peer) (s : StrmId) (f : ℕ) : Bool :=
  (w.streams s).curatt.any fun a => a.flow = f

end Peer

end Sst.Strm
