import Sst.Flow.State
import Sst.Key.Agreement

/-!
# The initiators of a host

A host runs several initiators at once. Its tables find the initiator that a response is for, and
a stream peer starts some of them and gives up those that are not needed any more.

* `Signal`, `Attempt`: an initiator with its timer and with what it did.
* `KeyHost`: the initiators, the tables of the host, the stream peer, and the responders that the
  initiators talk to.
* `KeyHost.sendI1`, `KeyHost.cancel`, `KeyHost.completed`: what the entry points share.
-/

namespace Sst.Key

open Symbolic

/-! ## Data -/

/-- What an initiator does: it sends a message, sets the armor of its flow, starts the flow, emits
`completed`. -/
inductive Signal
  | sent (m : Message)
  | armed
  | started
  | completed (success : Bool)
  deriving DecidableEq

/-- The slot of an initiator: an address and one of the host's sockets. -/
abbrev SocketEndpoint := Endpoint × ℕ

/-- A `KeyInitiator` with its socket, whether its timer runs, whether the stream peer started it,
whether it is scheduled for deletion or deleted, whether `primaryStatusChanged` removed it, and what
it did, the latest first. -/
structure Attempt extends KeyInitiator where
  sock : ℕ
  txtimer : Bool
  owned : Bool
  doomed : Bool
  deleted : Bool
  removed : Bool
  log : List Signal
  deriving DecidableEq

/-- `remoteEndpoint`. -/
def Attempt.remoteEndpoint (x : Attempt) : SocketEndpoint := (x.sepr, x.sock)

/-- The object of the constructor, before it is registered. -/
def Attempt.new (i : KeyInitiator) (sock : ℕ) : Attempt where
  toKeyInitiator := i
  sock := sock
  txtimer := false
  owned := false
  doomed := false
  deleted := false
  removed := false
  log := []

/-- The initiators by their pointers, the tables of `KeyHostState`, the `initors` of a stream peer
and whether it has a working primary flow, and the responders. `nonces` are the random strings that
were drawn by an initiator or named to a responder. -/
structure KeyHost where
  h : Host
  objs : List Attempt
  initchks : Endpoint × UInt32 → Option ℕ
  initnhis : Nonce → Option ℕ
  initeps : Endpoint → List ℕ
  initors : List (SocketEndpoint × ℕ)
  up : Bool
  resp : ℕ → World
  nonces : List Nonce

namespace KeyHost

variable (w : KeyHost)

/-! ## Sending -/

/-- Change the fields of an initiator. -/
def modify (k : ℕ) (f : Attempt → Attempt) : KeyHost := { w with objs := w.objs.modify k f }

/-- A function of one initiator that only sends. -/
def lift (k : ℕ) (F : World → Option World) : Option KeyHost :=
  w.objs[k]?.bind fun x =>
    (F ⟨w.h, x.toKeyInitiator, [], ⟨0, fun _ => none⟩, ⟨[], []⟩, []⟩).map fun v =>
      { w with
        h := v.h
        objs := w.objs.set k
          { x with toKeyInitiator := v.i, log := (v.sentI.map .sent).reverse ++ x.log } }

def sendI1 (k : ℕ) (r : Rand) : Option KeyHost := w.lift k (·.sendI1 r)

def sendDhI2 (k : ℕ) : Option KeyHost := w.lift k (·.sendDhI2)

/-! ## Ending -/

/-- `KeyInitiator::cancel`. -/
def cancel (k : ℕ) : KeyHost :=
  match w.objs[k]? with
  | none => w
  | some x =>
    { w with
      initchks :=
        if x.methChk ∧ w.initchks (x.sepr, x.chkkey) = some k then
          Function.update w.initchks (x.sepr, x.chkkey) none
        else w.initchks
      initnhis :=
        if x.methAes ∧ w.initnhis x.nhi = some k then Function.update w.initnhis x.nhi none
        else w.initnhis
      initeps := Function.update w.initeps x.sepr ((w.initeps x.sepr).filter (· ≠ k))
      objs := w.objs.set k { x with registered := false } }

/-- Remove an initiator from the stream peer, and schedule it for deletion. -/
def release (k : ℕ) (x : Attempt) : KeyHost :=
  ({ w with initors := w.initors.filter (·.1 ≠ x.remoteEndpoint) }.cancel k).modify k
    fun x => { x with doomed := true }

/-- The signal `completed`: the stream peer releases its initiator. -/
def completed (k : ℕ) : KeyHost :=
  match w.objs[k]? with
  | none => w
  | some x => if x.owned then w.release k x else w

/-- The job is done: the flow of the initiator is set up and started. The flow of the stream peer
becomes its primary flow if it has none that works. -/
def finish (k : ℕ) (x : Attempt) (fl : Flow) (c : Chunk) : KeyHost :=
  { w with
    up := w.up || x.owned
    objs := w.objs.set k { x with
      toKeyInitiator := x.complete fl c
      txtimer := false
      log := .completed true :: .started :: .armed :: x.log } }.completed k

end KeyHost

end Sst.Key
