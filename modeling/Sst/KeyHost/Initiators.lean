import Sst.KeyHost.State
import Sst.Lib.Transition

/-!
# The entry points of the initiators

* `KeyHost.create`: the constructor; `KeyHost.initiate`: the stream peer calls it.
* `KeyHost.gotR0`, `gotChkR1`, `gotDhR1`, `gotDhR2`: the responses, each with its own lookup.
* `KeyHost.retransmit`, `KeyHost.delete`: the timer, and the destructor.
* `KeyHost.primaryStatusChanged`: the stream peer gives up the early initiators.
* `keyHost`: the machine of all runs.

A failed assertion of the code is `none`.
-/

namespace Sst.Key

open Symbolic

/-- What a new initiator is given: its address and socket, the channel of its flow, the target, a
checksum key that is not in use, and a random string. -/
structure Target where
  sepr : Endpoint
  sock : ℕ
  chan : Channel
  idr : Ident
  dhgroup : ℕ
  chkkey : UInt32
  nonce : ℕ

namespace KeyHost

variable (w : KeyHost)

/-! ## The constructor -/

def startTimer (k : ℕ) (w : KeyHost) : KeyHost := w.modify k fun x => { x with txtimer := true }

/-- The initiator enters the tables. -/
def register (x : Attempt) : KeyHost :=
  let k := w.objs.length
  { w with
    objs := w.objs ++ [x]
    initchks :=
      if x.methChk then Function.update w.initchks (x.sepr, x.chkkey) (some k) else w.initchks
    initnhis := if x.methAes then Function.update w.initnhis x.nhi (some k) else w.initnhis
    initeps := Function.update w.initeps x.sepr (k :: w.initeps x.sepr)
    nonces := x.ni :: w.nonces }

/-- `KeyInitiator::KeyInitiator`. An unknown identity method completes at once. -/
def create (t : Target) (r : Rand) : Option KeyHost :=
  let k := w.objs.length
  let x := Attempt.new (.new t.chan t.sepr t.idr t.dhgroup t.chkkey t.nonce) t.sock
  if x.state = .done then some { w with objs := w.objs ++ [{ x with log := [.completed false] }] }
  else if x.methChk ∧ w.initchks (t.sepr, t.chkkey) ≠ none then none
  else if x.methAes ∧ w.initnhis x.nhi ≠ none ∨ x.ni ∈ w.nonces then none
  else ((w.register x).sendI1 k r).map (startTimer k)

/-- `StreamPeer::initiate`. -/
def initiate (t : Target) (r : Rand) : Option KeyHost :=
  let k := w.objs.length
  if w.up then some w
  else if (w.initors.lookup (t.sepr, t.sock)).isSome then some w
  else
    (w.create t r).map fun w : KeyHost =>
      { w.modify k fun x => { x with owned := true } with
        initors := ((t.sepr, t.sock), k) :: w.initors }

/-! ## Responses -/

/-- `KeyInitiator::gotR0`, over the initiators of the endpoint. -/
def gotR0 (r : Rand) : List ℕ → KeyHost → Option KeyHost
  | [], w => some w
  | k :: ks, w =>
    match w.objs[k]? with
    | none => some w
    | some x => if x.state ≠ .i1 then some w else (w.sendI1 k r).bind (gotR0 r ks)

/-- The initiator that a table names. -/
def find (o : Option ℕ) : Option (ℕ × Attempt) := o.bind fun k => w.objs[k]?.map (k, ·)

def gotChkR1 (r1 : ChkR1) (src : Endpoint) (r : Rand) : Option KeyHost :=
  match w.find (w.initchks (src, r1.cki)) with
  | none => some w
  | some (k, x) =>
    if x.state = .done then some w
    else if r1.ckr = r1.cki ∨ r1.chanr = 0 then
      if r1.cookie = [] then some w
      else (w.modify k fun x => { x with cookie := r1.cookie }).sendI1 k r
    else
      let fl := x.fl.start (.checksum x.chkkey r1.ckr none) (.chk x.chkkey r1.ckr)
        (.chk r1.ckr x.chkkey) r1.chanr
      some (w.finish k x fl (.chkR1 r1))

def gotDhR1 (r1 : DhR1) (r : Rand) : Option KeyHost :=
  match w.find (w.initnhis r1.nhi) with
  | none => some w
  | some (k, x) =>
    if x.state = .done ∨ x.dhgroup ≠ r1.group then some w
    else if keygroupMax < r1.group ∨ r1.group < x.dhgroup then some w
    else if r1.keylen ≠ 128 / 8 ∧ r1.keylen ≠ 192 / 8 ∧ r1.keylen ≠ 256 / 8 then some w
    else if r1.keylen < x.keylen then some w
    else
      match w.h.getDHKey r1.group r with
      | (_, none) => none
      | (h, some hk) =>
        if x.dhi ≠ hk.pubkey then { w with h }.sendI1 k r
        else
          (({ w with h }.modify k fun x =>
            { x with keylen := r1.keylen, round := x.roundOf h hk r1 }).sendDhI2 k).map
              (startTimer k)

def gotDhR2 (r2 : DhR2) (r : Rand) : Option KeyHost :=
  match w.find (w.initnhis r2.nhi) with
  | none => some w
  | some (k, x) =>
    if x.state ≠ .i2 then some w
    else
      match x.round with
      | none => some w
      | some d =>
        match w.h.getDHKey x.dhgroup r with
        | (_, none) => none
        | (h, some hk) =>
          if x.dhi ≠ hk.pubkey then { w with h }.sendI1 k r
          else
            match x.flowR2 h hk d r2 with
            | none => some { w with h }
            | some fl => some ({ w with h }.finish k x fl (.dhR2 r2))

/-- `KeyResponder::receive` of a response; `order` is the order in which the initiators of the
endpoint are found. -/
def receive (m : Message) (src : Endpoint) (order : List ℕ) (r : Rand) : Option KeyHost :=
  match m with
  | [] => gotR0 r order w
  | .chkR1 d :: _ => w.gotChkR1 d src r
  | .dhR1 d :: _ => w.gotDhR1 d r
  | .dhR2 d :: _ => w.gotDhR2 d r
  | _ => some w

/-! ## Timer and deletion -/

/-- `KeyInitiator::retransmit`. -/
def retransmit (k : ℕ) (x : Attempt) (fail : Bool) (r : Rand) : Option KeyHost :=
  if fail then
    some ((w.modify k fun x => { x with
      state := .done
      txtimer := false
      log := .completed false :: x.log }).completed k)
  else
    match x.state with
    | .i1 => w.sendI1 k r
    | .i2 => w.sendDhI2 k
    | .done => some w

/-- `KeyInitiator::~KeyInitiator`. -/
def delete (k : ℕ) : KeyHost :=
  (w.cancel k).modify k fun x => { x with deleted := true, txtimer := false }

/-! ## The stream peer -/

/-- The stream peer gives up an initiator that is still early. -/
def giveUp (w : KeyHost) (k : ℕ) : KeyHost :=
  match w.objs[k]? with
  | none => w
  | some x =>
    if x.early then (w.release k x).modify k fun x => { x with removed := true } else w

/-- `StreamPeer::primaryStatusChanged`; what it initiates are operations of their own. -/
def primaryStatusChanged (status : LinkStatus) : KeyHost :=
  let w := { w with up := status = .up }
  if status = .up then (w.initors.map Prod.snd).foldl giveUp w else w

end KeyHost

/-! ## Runs -/

/-- What happens: initiators are created, responses arrive, timers expire, owners cancel and delete
initiators, the status of the primary flow changes, it is replaced or lost, host keys expire, and
messages and signals reach the responders. -/
inductive KeyHost.Op
  | create (t : Target) (r : Rand)
  | initiate (t : Target) (r : Rand)
  | receive (m : Message) (src : Endpoint) (order : List ℕ) (r : Rand)
  | timeout (k : ℕ) (fail : Bool) (r : Rand)
  | setInfo (k : ℕ) (ulpi : Bytes)
  | cancel (k : ℕ)
  | delete (k : ℕ)
  | primaryStatusChanged (status : LinkStatus)
  | primary (up : Bool)
  | hostKeyTimeout (group : ℕ)
  | deliver (j : ℕ) (m : Message) (src : Endpoint) (r : Rand) (a : Answer)
  | armorDestroyed (j : ℕ) (id : ArmorId)
  | responderKeyTimeout (j group : ℕ)

namespace KeyHost

/-- The chunks on which a responder may create a flow. -/
def Founding : Chunk → Prop
  | .chkI1 _ | .dhI2 _ => True
  | _ => False

/-- The random strings named in a message. -/
def nonceOf (m : Message) : List Nonce :=
  m.filterMap fun
    | .dhI2 d => some d.ni
    | _ => none

/-- The initiator has sent an I2 message. -/
def SentI2 (x : Attempt) : Prop := ∃ m d, .sent m ∈ x.log ∧ .dhI2 d ∈ m

/-- **Nobody guesses a random string**: a message that names the random string drawn by an initiator
is delivered only after the initiator has sent it. -/
def Fair (w : KeyHost) (m : Message) : Prop :=
  ∀ x ∈ w.objs, x.methAes = true → x.ni ∈ nonceOf m → SentI2 x

/-- The initiator exists and is not deleted. -/
def live (w : KeyHost) (k : ℕ) (P : Attempt → Bool) : Bool :=
  match w.objs[k]? with
  | none => false
  | some x => !x.deleted && P x

/-- A responder changes. -/
def onResp (w : KeyHost) (j : ℕ) (f : World → World) : KeyHost :=
  { w with resp := Function.update w.resp j (f (w.resp j)) }

def step (w : KeyHost) (target : Ident) : Op → Option KeyHost
  | .create t r => w.create t r
  | .initiate t r => w.initiate { t with idr := target, dhgroup := 0 } r
  | .receive m src order r =>
    if order.Perm (w.initeps src) then w.receive m src order r else none
  | .timeout k fail r =>
    if w.live k (·.txtimer) then w.objs[k]?.bind fun x => w.retransmit k x fail r else none
  | .setInfo k ulpi => some (w.modify k fun x => { x with ulpi })
  | .cancel k => if w.live k fun _ => true then some (w.cancel k) else none
  | .delete k => if w.live k fun x => x.doomed || !x.owned then some (w.delete k) else none
  | .primaryStatusChanged status => some (w.primaryStatusChanged status)
  | .primary up => some { w with up }
  | .hostKeyTimeout group => some { w with h := w.h.timeout group }
  | .deliver j m src r a =>
    some { w.onResp j (·.receiveR m src r a) with nonces := nonceOf m ++ w.nonces }
  | .armorDestroyed j id => some (w.onResp j (·.checksumArmorDestroyed id))
  | .responderKeyTimeout j group =>
    some (w.onResp j fun v => { v with rh := v.rh.timeout group })

/-- The messages delivered to the responders are fair. -/
def FairStep (w : KeyHost) (op : Op) : Prop :=
  ∀ j m src r a, op = .deliver j m src r a → w.Fair m

end KeyHost

/-- **The machine of all runs** of the initiators of a host and of a stream peer for `target`. -/
def keyHost (hostIdent : ℕ) (target : Ident) (c : ℕ → Config) :
    Transition.Machine KeyHost KeyHost.Op where
  init := {
    h := ⟨hostIdent, fun _ => none⟩
    objs := []
    initchks := fun _ => none
    initnhis := fun _ => none
    initeps := fun _ => []
    initors := []
    up := false
    resp := fun j => .new (c j)
    nonces := [] }
  step w op := w.step target op

end Sst.Key
