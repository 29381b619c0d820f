import Sst.Lib.Transition
import Sst.RegCli.State
import Mathlib.Logic.Function.Basic

/-!
# Sockets: flows, receivers and the dispatch of datagrams

A socket finds the receiver of a datagram by its first byte, a channel number: with the sender's
endpoint it is the key of a flow bound to the socket. A datagram for no flow may be a control
message, whose first four bytes are the magic value of a receiver.

* `SocketFlow`, `SocketHost`: the flows, the tables of the sockets and of the receivers.
* `SocketHost.bindTo`, `SocketHost.bind`: binding to a given channel, and to a free one.
* `SocketHost.unbind`, `SocketHost.unbound`: unbinding, before and after the virtual `stop`.
* `SocketHost.receive`: the dispatch of a datagram.
* `socketHost`: the runs.

A step is impossible where an assertion of the source fails, or where it would use an object that
was deleted.
-/

namespace Sst.Sock

open Transition
open Reg (Bytes)
open RegCli (Endpoint)

/-- An 8-bit channel number; channel 0 is kept for control messages. -/
abbrev Channel := UInt8

/-- The address of a socket, of a flow and of a receiver. -/
abbrev SocketId := ℕ

abbrev FlowId := ℕ

abbrev ReceiverId := ℕ

structure SocketFlow where
  sock : Option SocketId
  remoteep : Endpoint
  localchan : Channel
  remotechan : Channel
  active : Bool

namespace SocketFlow

/-- A new flow; its constructor leaves `localchan` uninitialised. -/
def new (localchan : Channel) : SocketFlow := ⟨none, .null, localchan, 0, false⟩

/-- Where a bound flow is entered. -/
def key (fl : SocketFlow) : Option (SocketId × Endpoint × Channel) :=
  fl.sock.map fun sock => (sock, fl.remoteep, fl.localchan)

end SocketFlow

/-- A host: the tables `flows` of its sockets, the table `receivers`, the flows, and the receivers
with their `mag`. Besides the fields of the classes: the calls of `unbind` whose `stop` has not
returned, the latest first, and which flows were last bound automatically. -/
structure SocketHost where
  flows : SocketId × Endpoint × Channel → Option FlowId
  receivers : BitVec 32 → Option ReceiverId
  flow : FlowId → Option SocketFlow
  mag : ReceiverId → Option (BitVec 32)
  unbinding : List FlowId
  automatic : FlowId → Bool

namespace SocketHost

/-- A host without flows and receivers. -/
def new : SocketHost :=
  ⟨fun _ => none, fun _ => none, fun _ => none, fun _ => none, [], fun _ => false⟩

/-- Replace the fields of a flow. -/
def setFlow (s : SocketHost) (f : FlowId) (fl : SocketFlow) : SocketHost :=
  { s with flow := Function.update s.flow f (some fl) }

/-- `Socket::bindFlow`. -/
def bindFlow (s : SocketHost) (sock : SocketId) (remoteep : Endpoint) (localchan : Channel)
    (f : FlowId) : Option SocketHost :=
  if s.flows (sock, remoteep, localchan) = none then
    some { s with flows := Function.update s.flows (sock, remoteep, localchan) (some f) }
  else none

/-- `SocketFlow::bind` to a given channel, which may be in use. -/
def bindTo (s : SocketHost) (f : FlowId) (sock : SocketId) (dst : Endpoint) (chan : Channel) :
    Option (Bool × SocketHost) :=
  match s.flow f with
  | none => none
  | some fl =>
    if fl.active = true ∨ fl.sock ≠ none then none
    else if s.flows (sock, dst, chan) ≠ none then some (false, s)
    else
      (s.bindFlow sock dst chan f).map fun s =>
        (true, { s.setFlow f { fl with remoteep := dst, localchan := chan, sock := some sock } with
          automatic := Function.update s.automatic f false })

/-- The search for a free channel: `chan` is tried next; the loop turns at most 255 times. -/
def freeChannel (taken : Channel → Bool) : ℕ → Channel → Channel
  | 0, _ => 0
  | fuel + 1, chan =>
    if taken chan then if chan + 1 = 0 then 0 else freeChannel taken fuel (chan + 1) else chan

/-- `SocketFlow::bind` to a free channel; channel 0 says that there is none. -/
def bind (s : SocketHost) (f : FlowId) (sock : SocketId) (dst : Endpoint) :
    Option (Channel × SocketHost) :=
  match s.flow f with
  | none => none
  | some fl =>
    if fl.active = true ∨ fl.sock ≠ none then none
    else
      let chan := freeChannel (fun c => (s.flows (sock, dst, c)).isSome) 255 1
      if chan = 0 then some (0, s)
      else
        (s.bindTo f sock dst chan).map fun (bound, t) =>
          if bound then (chan, { t with automatic := Function.update t.automatic f true })
          else (0, t)

/-- `SocketFlow::setRemoteChannel`. -/
def setRemoteChannel (s : SocketHost) (f : FlowId) (chan : Channel) : Option SocketHost :=
  (s.flow f).map fun fl => s.setFlow f { fl with remotechan := chan }

/-- `SocketFlow::start`. -/
def start (s : SocketHost) (f : FlowId) : Option SocketHost :=
  (s.flow f).bind fun fl =>
    if fl.remotechan = 0 then none else some (s.setFlow f { fl with active := true })

/-- `SocketFlow::stop`. -/
def stop (s : SocketHost) (f : FlowId) : Option SocketHost :=
  (s.flow f).map fun fl => s.setFlow f { fl with active := false }

/-- `SocketFlow::unbind` up to the call of the virtual `stop`. -/
def unbind (s : SocketHost) (f : FlowId) : Option SocketHost :=
  (s.flow f).map fun _ => { s with unbinding := f :: s.unbinding }

/-- The rest of `SocketFlow::unbind`. -/
def undo (s : SocketHost) (f : FlowId) : Option SocketHost :=
  match s.flow f with
  | none => none
  | some fl =>
    if fl.active = true then none
    else
      match fl.sock with
      | none => some s
      | some sock =>
        let p := (sock, fl.remoteep, fl.localchan)
        if s.flows p = some f then
          some ({ s with flows := Function.update s.flows p none }.setFlow f
            { fl with sock := none, localchan := 0 })
        else none

/-- The `stop` of the latest `unbind` returns. -/
def unbound (s : SocketHost) : Option SocketHost :=
  match s.unbinding with
  | [] => none
  | f :: fs => { s with unbinding := fs }.undo f

/-- A flow is made; `localchan` is what its memory holds. -/
def newFlow (s : SocketHost) (f : FlowId) (localchan : Channel) : Option SocketHost :=
  if s.flow f = none then some (s.setFlow f (.new localchan)) else none

/-- `SocketFlow::~SocketFlow`, in which `stop` is that of the base class. -/
def deleteFlow (s : SocketHost) (f : FlowId) : Option SocketHost :=
  if f ∈ s.unbinding then none
  else
    (s.stop f).bind fun s => (s.undo f).map fun s =>
      { s with flow := Function.update s.flow f none }

/-- A receiver is made. -/
def newReceiver (s : SocketHost) (r : ReceiverId) : Option SocketHost :=
  if s.mag r = none then some { s with mag := Function.update s.mag r (some 0) } else none

/-- `SocketReceiver::bind`. -/
def bindReceiver (s : SocketHost) (r : ReceiverId) (magic : BitVec 32) : Option SocketHost :=
  if s.mag r = some 0 ∧ magic ≤ 0xffffff#32 ∧ s.receivers magic = none then
    some { s with
      mag := Function.update s.mag r (some magic)
      receivers := Function.update s.receivers magic (some r) }
  else none

/-- `SocketReceiver::unbind`. -/
def unbindReceiver (s : SocketHost) (r : ReceiverId) : Option SocketHost :=
  match s.mag r with
  | none => none
  | some mag =>
    if mag = 0 then some s
    else if s.receivers mag = some r then
      some { s with
        receivers := Function.update s.receivers mag none
        mag := Function.update s.mag r (some 0) }
    else none

/-- `SocketReceiver::~SocketReceiver`. -/
def deleteReceiver (s : SocketHost) (r : ReceiverId) : Option SocketHost :=
  (s.unbindReceiver r).map fun s => { s with mag := Function.update s.mag r none }

/-- Where a datagram goes. -/
inductive Delivery
  | runt
  | flow (f : FlowId)
  | receiver (r : ReceiverId) (rs : Bytes)
  | unknown (magic : BitVec 32)
  deriving DecidableEq

/-- `Socket::receive`. -/
def receive (s : SocketHost) (sock : SocketId) (src : Endpoint) : Bytes → Delivery
  | chan :: b :: c :: d :: rs =>
    match s.flows (sock, src, chan) with
    | some f => .flow f
    | none =>
      let magic := Reg.Xdr.word chan b c d
      match s.receivers magic with
      | some r => .receiver r rs
      | none => .unknown magic
  | _ => .runt

/-- The calls; what a `stop` and a receiver of a datagram do is made of these as well. -/
inductive Op
  | newFlow (f : FlowId) (localchan : Channel)
  | deleteFlow (f : FlowId)
  | bind (f : FlowId) (sock : SocketId) (dst : Endpoint)
  | bindTo (f : FlowId) (sock : SocketId) (dst : Endpoint) (chan : Channel)
  | setRemoteChannel (f : FlowId) (chan : Channel)
  | start (f : FlowId)
  | stop (f : FlowId)
  | unbind (f : FlowId)
  | unbound
  | newReceiver (r : ReceiverId)
  | deleteReceiver (r : ReceiverId)
  | bindReceiver (r : ReceiverId) (magic : BitVec 32)
  | unbindReceiver (r : ReceiverId)

def exec (s : SocketHost) : Op → Option SocketHost
  | .newFlow f localchan => s.newFlow f localchan
  | .deleteFlow f => s.deleteFlow f
  | .bind f sock dst => (s.bind f sock dst).map Prod.snd
  | .bindTo f sock dst chan => (s.bindTo f sock dst chan).map Prod.snd
  | .setRemoteChannel f chan => s.setRemoteChannel f chan
  | .start f => s.start f
  | .stop f => s.stop f
  | .unbind f => s.unbind f
  | .unbound => s.unbound
  | .newReceiver r => s.newReceiver r
  | .deleteReceiver r => s.deleteReceiver r
  | .bindReceiver r magic => s.bindReceiver r magic
  | .unbindReceiver r => s.unbindReceiver r

end SocketHost

/-- The runs of a host's sockets. -/
def socketHost : Machine SocketHost SocketHost.Op := ⟨.new, SocketHost.exec⟩

end Sst.Sock
