import Sst.Respond.Initiator

/-!
# The responder

* `newFlow`: a flow for an initiator.
* `gotChkI1`, `gotDhI1`, `gotDhI2`: the requests.
* `primary`, `receive`: the first recognized chunk of a message, and what is done with it.

A failed assertion is `none`.
-/

namespace Sst.Respond

open Reg (Bytes)
open Xdr (XdrStream KeyMessage)

variable {cr : Crypto}

/-- What a checksum armor is known by. The integers are taken as they are in memory. -/
def armorid (src : Endpoint) (i1 : ChkI1) : Bytes :=
  src.ident ++ (Armor.bytesOf 4 i1.cki).reverse ++ [i1.chani]

/-- The checksum key of the responder, which is made different from the initiator's. -/
def Answer.ckr (a : Answer cr) (cki : BitVec 32) : BitVec 32 :=
  if a.ck = cki then a.ck + 1 else a.ck

namespace World

variable (w : World cr)

/-- `Socket::bindFlow`. -/
def bindFlow (src : SocketEndpoint) (chan : Sock.Channel) : World cr :=
  { w with taken := Function.update w.taken src (Function.update (w.taken src) chan true) }

/-- `newFlow`, which may refuse. The identifier names a stream peer, and a flow is bound to the
first channel that is free; a flow that cannot be bound is deleted. -/
def newFlow (src : SocketEndpoint) (eidi : Bytes) (a : Answer cr) :
    Option (World cr × Option (Flow × Bytes)) :=
  match a.ulpr with
  | none => some (w, none)
  | some ulpr =>
    if eidi = [] then none
    else
      let chan := Sock.SocketHost.freeChannel (w.taken src) 255 1
      if chan = 0 then some (w, none) else some (w.bindFlow src chan, some (.bound chan, ulpr))

/-- The end of `gotChkI1`: the flow was made, and the response is sent. -/
def acceptChkI1 (i1 : ChkI1) (fl : Flow) (ulpr : Bytes) (src : SocketEndpoint) (a : Answer cr) :
    Option (World cr) := do
  let ckr := a.ckr i1.cki
  let armorid := armorid src.toEndpoint i1
  let txchanid ← calcChkChanId ckr i1.cki
  let rxchanid ← calcChkChanId i1.cki ckr
  let (w, _) ← w.send w.magic [.chkR1 ⟨i1.cki, ckr, fl.localchan, [], ulpr, []⟩] src
  let fl ← Flow.start { fl with
    armr := some (.checksum ckr i1.cki armorid)
    txchanid := txchanid
    rxchanid := rxchanid
    remotechan := i1.chani }
  return { w with chkflows := armorid :: w.chkflows, flows := (src, fl) :: w.flows }

/-- `KeyResponder::gotChkI1`. -/
def gotChkI1 (i1 : ChkI1) (src : SocketEndpoint) (a : Answer cr) : Option (World cr) :=
  if i1.chani = 0 then some w
  else if w.chkflows.contains (armorid src.toEndpoint i1) then some w
  else if a.accept = false then some w
  else do
    let (w, flow) ← w.newFlow src src.ident a
    let some (fl, ulpr) := flow | return w
    w.acceptChkI1 i1 fl ulpr src a

/-- `KeyResponder::gotDhI1`. -/
def gotDhI1 (i1 : DhI1) (src : SocketEndpoint) (a : Answer cr) : Option (World cr) :=
  match w.getDHKey a (i1.group.setWidth 8) with
  | (w, none) => some w
  | (w, some hk) =>
    if cr.dhSize hk.dh < i1.dhi.length then some w
    else if i1.keymin ≠ 128 / 8 ∧ i1.keymin ≠ 192 / 8 ∧ i1.keymin ≠ 256 / 8 then some w
    else
      let hhkr := calcDhCookie hk a.nonce i1.nhi src.toEndpoint
      (w.send w.magic [.dhR1 ⟨i1.group, i1.keymin, i1.nhi, a.nonce, hk.pubkey, hhkr, [], [], []⟩]
        src).map Prod.fst

/-- Remember the response to an I2 message. -/
def cacheR2 (group : BitVec 8) (hk : DHKey cr) (hhkr pkt : Bytes) : World cr :=
  let hk := { hk with r2cache := (hhkr, pkt) :: hk.r2cache }
  { w with dhkeys := Function.update w.dhkeys group (some hk) }

/-- The end of `gotDhI2`: the flow was made, and the response is sent. -/
def acceptDhI2 (i2 : DhI2) (kii : KeyIdentI) (hk : DHKey cr) (master : Bytes) (fl : Flow)
    (ulpr : Bytes) (src : SocketEndpoint) (a : Answer cr) : Option (World cr) := do
  let nhi := sha256 cr i2.ni
  let sighash ← calcSigHash cr ⟨i2.group, i2.keylen, nhi, i2.nr, i2.dhi, i2.dhr, kii.eidi⟩
  let sigr ← w.hostIdent.sign cr sighash
  let plain ← write (KeyIdentR.items ⟨fl.localchan, w.hostIdent.id cr, w.hostIdent.k.key false,
    sigr, ulpr⟩)
  let encidr ← sealIdent cr master nhi i2.nr a.ivec plain
  let (w, r2pkt) ← w.send w.magic [.dhR2 ⟨nhi, encidr⟩] src
  let w := w.cacheR2 (i2.group.setWidth 8) hk i2.hhkr r2pkt
  let armr ← Armor.newAes (calcKey cr master i2.nr nhi 'E' (128 / 8))
    (calcKey cr master i2.nr nhi 'A' (256 / 8)) (calcKey cr master nhi i2.nr 'E' (128 / 8))
    (calcKey cr master nhi i2.nr 'A' (256 / 8))
  let fl ← Flow.start { fl with
    armr := some armr
    txchanid := calcKey cr master i2.nr nhi 'I' (128 / 8)
    rxchanid := calcKey cr master nhi i2.nr 'I' (128 / 8)
    remotechan := kii.chani }
  return { w with flows := (src, fl) :: w.flows }

/-- `gotDhI2` from the decoded identity block on. -/
def gotIdentI (i2 : DhI2) (kii : KeyIdentI) (hk : DHKey cr) (master : Bytes)
    (src : SocketEndpoint) (a : Answer cr) : Option (World cr) :=
  if kii.chani = 0 then some w
  else if a.accept = false then some w
  else if kii.eidr ≠ [] ∧ kii.eidr ≠ w.hostIdent.id cr then some w
  else do
    let (ok, identi) ← setKeyOf (newIdent cr kii.eidi) kii.idpki
    if !ok then return w
    let sighash ← calcSigHash cr
      ⟨i2.group, i2.keylen, sha256 cr i2.ni, i2.nr, i2.dhi, i2.dhr, kii.eidr⟩
    let ok ← verify identi sighash kii.sigi
    if !ok then return w
    let (w, flow) ← w.newFlow src kii.eidi a
    let some (fl, ulpr) := flow | return w
    w.acceptDhI2 i2 kii hk master fl ulpr src a

/-- `KeyResponder::gotDhI2`. -/
def gotDhI2 (i2 : DhI2) (src : SocketEndpoint) (a : Answer cr) : Option (World cr) :=
  let nhi := sha256 cr i2.ni
  let (w, hk) := w.getDHKey a (i2.group.setWidth 8)
  match hk.filter fun hk => i2.dhr = hk.pubkey with
  | none => w.gotDhI1 ⟨i2.group, i2.keylen, nhi, i2.dhi, []⟩ src a
  | some hk =>
    match hk.r2cache.lookup i2.hhkr with
    | some r2pkt => some (w.post src r2pkt)
    | none =>
      if i2.hhkr ≠ calcDhCookie hk i2.nr nhi src.toEndpoint then some w
      else do
        let master ← hk.calcKey i2.dhi
        let some plain ← openIdent cr master nhi i2.nr i2.idi | return w
        let some kii := KeyIdentI.read.decode plain | return w
        w.gotIdentI i2 kii hk master src a

end World

/-- The chunks that are processed. -/
def Chunk.Primary : Chunk → Bool
  | chkI1 _ | chkR1 _ | dhI1 _ | dhI2 _ | dhR1 _ | dhR2 _ => true
  | packet _ | other _ => false

/-- The first recognized primary chunk of a message that can be decoded. -/
def primary (pkt : Bytes) : Option (Option Chunk) :=
  let (msg, rs) := KeyMessage.decode Chunk.codec (.new pkt fun _ => 0)
  if rs.st ≠ .ok then none
  else some ((msg.chunks.filterMap Xdr.XdrOption.i).find? Chunk.Primary)

/-- `KeyResponder::receive`. -/
def World.receive (w : World cr) (pkt : Bytes) (src : SocketEndpoint) (a : Answer cr) :
    Option (World cr) :=
  match primary pkt with
  | none => some w
  | some (some (.chkI1 d)) => w.gotChkI1 d src a
  | some (some (.chkR1 d)) => w.gotChkR1 d src.toEndpoint a
  | some (some (.dhI1 d)) => w.gotDhI1 d src a
  | some (some (.dhI2 d)) => w.gotDhI2 d src a
  | some (some (.dhR1 d)) => w.gotDhR1 d a
  | some (some (.dhR2 d)) => w.gotDhR2 d a
  | some _ => w.gotR0 src.toEndpoint a

end Sst.Respond
