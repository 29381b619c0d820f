import Sst.Respond.State

/-!
# The responses that are handed to an initiator

The functions of `Key.World` again, over the bytes of the wire and any cryptographic library: what
is decoded may be anything, and the assertions that it can reach are kept.

* `sendI1`, `sendDhI2`: the messages of an initiator.
* `gotR0`, `gotChkR1`, `gotDhR1`, `gotDhR2`: the messages for one.

A failed assertion is `none`.
-/

namespace Sst.Respond

open Reg (Bytes)

variable {cr : Crypto}

namespace KeyInitiator

/-- The chunk of an I1 message for checksum security. -/
def chunkChkI1 (i : KeyInitiator) : List Chunk :=
  if i.methChk then [.chkI1 ⟨i.chkkey, i.fl.localchan, i.cookie, i.ulpi, []⟩] else []

/-- The current public key of the host is used, and the response to an older one is forgotten. -/
def renew (i : KeyInitiator) (hk : DHKey cr) : KeyInitiator :=
  { i with dhi := hk.pubkey, round := none, dhi_le := hk.pubkey_le }

/-- An I2 message is sent. -/
def expectR2 (i : KeyInitiator) (d : Round) : KeyInitiator :=
  { i with state := .i2, round := some d }

/-- The job is done: the flow is set up and started. -/
def complete (i : KeyInitiator) (fl : Flow) : KeyInitiator := { i with fl := fl, state := .done }

end KeyInitiator

namespace World

variable (w : World cr)

/-- `KeyInitiator::sendI1` for the initiator `i`, which is the `k`-th. -/
def sendI1 (i : KeyInitiator) (k : ℕ) (a : Answer cr) : Option (World cr) :=
  let i := { i with state := .i1 }
  if i.methAes then
    match w.getDHKey a i.dhgroup with
    | (_, none) => none
    | (w, some hk) =>
      let i := i.renew hk
      ((w.setInitor k i).send i.magic (i.chunkChkI1 ++
        [.dhI1 ⟨i.dhgroup.setWidth 32, 128 / 8, i.nhi, i.dhi, []⟩]) i.sepr).map Prod.fst
  else if i.chunkChkI1 = [] then none
  else ((w.setInitor k i).send i.magic i.chunkChkI1 i.sepr).map Prod.fst

/-- `KeyInitiator::sendDhI2` with the sealed identity block. -/
def sendDhI2 (i : KeyInitiator) (k : ℕ) (d : Round) (encidi : Bytes) : Option (World cr) :=
  ((w.setInitor k (i.expectR2 d)).send i.magic [.dhI2 ⟨i.dhgroup.setWidth 32,
    i.keylen.setWidth 32, i.ni, d.nr, i.dhi, d.dhr, d.hhkr, encidi⟩] i.sepr).map Prod.fst

/-- The loop of `gotR0` over initiators, which ends at the first that has no I1 outstanding. -/
def resend (a : Answer cr) : List ℕ → World cr → Option (World cr)
  | [], w => some w
  | k :: ks, w =>
    match w.initors[k]? with
    | none => some w
    | some i =>
      if i.state ≠ .i1 then some w else (w.sendI1 i k a).bind (resend a ks)

/-- `KeyInitiator::gotR0`. -/
def gotR0 (src : Endpoint) (a : Answer cr) : Option (World cr) :=
  let eps := w.initors.zipIdx.filter fun x => x.1.registered && x.1.sepr.toEndpoint = src
  w.resend a (eps.map Prod.snd).reverse

/-- `KeyInitiator::gotChkR1`. -/
def gotChkR1 (r1 : ChkR1) (src : Endpoint) (a : Answer cr) : Option (World cr) :=
  match w.find fun i => i.methChk && (i.sepr.toEndpoint = src) && (i.chkkey = r1.cki) with
  | none => some w
  | some (i, k) =>
    if i.state = .done then some w
    else if i.chkkey ≠ r1.cki then none
    else if r1.ckr = r1.cki ∨ r1.chanr = 0 then
      if r1.cookie = [] then some w else w.sendI1 { i with cookie := r1.cookie } k a
    else do
      let txchanid ← calcChkChanId i.chkkey r1.ckr
      let rxchanid ← calcChkChanId r1.ckr i.chkkey
      let fl ← Flow.start { i.fl with
        armr := some (.checksum i.chkkey r1.ckr [])
        txchanid := txchanid
        rxchanid := rxchanid
        remotechan := r1.chanr }
      return w.setInitor k (i.complete fl)

/-- The end of `gotDhR1`: the response is kept, and the host's identity is sealed. -/
def answerDhR1 (i : KeyInitiator) (k : ℕ) (hk : DHKey cr) (r1 : DhR1) (a : Answer cr) :
    Option (World cr) :=
  -- writing the parameters that are signed asserts these bounds
  if h : r1.nr.length = 32 ∧ r1.dhr.length ≤ 384 then do
    let master ← hk.calcKey r1.dhr
    let sighash ← calcSigHash cr
      ⟨i.dhgroup.setWidth 32, i.keylen.setWidth 32, i.nhi, r1.nr, i.dhi, r1.dhr, []⟩
    let sigi ← w.hostIdent.sign cr sighash
    let plain ← write (KeyIdentI.items
      ⟨i.fl.localchan, w.hostIdent.id cr, [], w.hostIdent.k.key false, sigi, i.ulpi⟩)
    let encidi ← sealIdent cr master i.nhi r1.nr a.ivec plain
    w.sendDhI2 i k ⟨r1.nr, r1.dhr, r1.hhkr, master, h.1, h.2⟩ encidi
  else none

/-- `KeyInitiator::gotDhR1`. The group is that of the initiator once it was looked up, so that the
branches for another group are not taken. -/
def gotDhR1 (r1 : DhR1) (a : Answer cr) : Option (World cr) :=
  match w.find fun i => i.methAes && (i.nhi = r1.nhi) with
  | none => some w
  | some (i, k) =>
    if i.state = .done ∨ i.dhgroup.setWidth 32 ≠ r1.group then some w
    else if i.nhi ≠ r1.nhi then none
    else if (3#32).slt r1.group then some w
    else if ¬ AesKeySize r1.keylen.toNat ∨ r1.keylen.slt (i.keylen.setWidth 32) then some w
    else
      match w.getDHKey a i.dhgroup with
      | (_, none) => none
      | (w, some hk) =>
        if i.dhi ≠ hk.pubkey then w.sendI1 i k a
        else w.answerDhR1 { i with keylen := r1.keylen.setWidth 8 } k hk r1 a

/-- The end of `gotDhR2`: the flow is set up and started. -/
def acceptDhR2 (i : KeyInitiator) (k : ℕ) (d : Round) (kir : KeyIdentR) : Option (World cr) := do
  let armr ← Armor.newAes (calcKey cr d.master i.nhi d.nr 'E' (128 / 8))
    (calcKey cr d.master i.nhi d.nr 'A' (256 / 8)) (calcKey cr d.master d.nr i.nhi 'E' (128 / 8))
    (calcKey cr d.master d.nr i.nhi 'A' (256 / 8))
  let fl ← Flow.start { i.fl with
    armr := some armr
    txchanid := calcKey cr d.master i.nhi d.nr 'I' (128 / 8)
    rxchanid := calcKey cr d.master d.nr i.nhi 'I' (128 / 8)
    remotechan := kir.chanr }
  return w.setInitor k (i.complete fl)

/-- `gotDhR2` from the decoded identity block on. -/
def gotIdentR (i : KeyInitiator) (k : ℕ) (d : Round) (kir : KeyIdentR) : Option (World cr) :=
  if kir.chanr = 0 ∨ kir.eidr = [] then some w
  else if i.idr ≠ [] ∧ kir.eidr ≠ i.idr then some w
  else do
    let (ok, identr) ← setKeyOf (newIdent cr kir.eidr) kir.idpkr
    if !ok then return w
    let sighash ← calcSigHash cr ⟨i.dhgroup.setWidth 32, i.keylen.setWidth 32, i.nhi, d.nr, i.dhi,
      d.dhr, w.hostIdent.id cr⟩
    let ok ← verify identr sighash kir.sigr
    if !ok then return w
    w.acceptDhR2 i k d kir

/-- `KeyInitiator::gotDhR2`. -/
def gotDhR2 (r2 : DhR2) (a : Answer cr) : Option (World cr) :=
  match w.find fun i => i.methAes && (i.nhi = r2.nhi) with
  | none => some w
  | some (i, k) =>
    if i.state ≠ .i2 then some w
    else
      match i.round with
      | none => some w
      | some d =>
        if d.master = [] then some w
        else if i.nhi ≠ r2.nhi then none
        else
          match w.getDHKey a i.dhgroup with
          | (_, none) => none
          | (w, some hk) =>
            if i.dhi ≠ hk.pubkey then w.sendI1 i k a
            else do
              let some plain ← openIdent cr d.master i.nhi d.nr r2.idr | return w
              let some kir := KeyIdentR.read.decode plain | return w
              w.gotIdentR i k d kir

end World

end Sst.Respond
