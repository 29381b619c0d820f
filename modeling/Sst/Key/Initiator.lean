import Sst.Key.State

/-!
# The initiator

* `sendI1`, `sendDhI2`: the two messages of an initiator.
* `gotChkR1`, `gotDhR1`, `gotDhR2`: the responses.
* `retransmit`, `cancel`: the timer and the end.

A failed assertion of the code is `none`.
-/

namespace Sst.Key

open Symbolic

namespace KeyInitiator

/-- The constructor up to its call of `sendI1`. The flow is bound to `chan`, and `chkkey` is a
checksum key that no other initiator uses. -/
def new (chan : Channel) (sepr : Endpoint) (idr : Ident) (dhgroup : ℕ) (chkkey : UInt32)
    (nonce : ℕ) : KeyInitiator where
  fl := .bound chan
  registered := idr ≠ .null
  sepr := sepr
  idr := idr
  ulpi := []
  methChk := match idr with | .ip _ => true | _ => false
  methAes := match idr with | .key _ => true | _ => false
  chkkey := chkkey
  cookie := []
  dhgroup := if dhgroup = 0 then 1 else dhgroup
  keylen := 128 / 8
  state := if idr = .null then .done else .i1
  early := true
  ni := .random nonce
  nhi := .hash (.random nonce)
  dhi := none
  round := none
  accepted := none

/-- The chunk of an I1 message for checksum security. -/
def chkI1 (i : KeyInitiator) : Message :=
  if i.methChk then [.chkI1 ⟨i.chkkey, i.fl.localchan, i.cookie, i.ulpi⟩] else []

/-- The identity block of an I2 message. -/
def identI (i : KeyInitiator) (hi : ℕ) (params : KeyParams) : KeyIdentI where
  chani := i.fl.localchan
  eidi := .key hi
  eidr := .null
  idpki := hi
  sigi := ⟨hi, params⟩
  ulpi := i.ulpi

/-- What the initiator keeps of an R1 response, with its own identity sealed. -/
def roundOf (i : KeyInitiator) (h : Host) (hk : DHKey) (r1 : DhR1) : Round :=
  let master := hk.calcKey r1.dhr
  let params : KeyParams := ⟨i.dhgroup, r1.keylen, i.nhi, r1.nr, hk.pubkey, r1.dhr, .null⟩
  let enckey := calcKey master i.nhi r1.nr '1' (256 / 8)
  let mackey := calcKey master i.nhi r1.nr '2' (256 / 8)
  ⟨r1.nr, r1.dhr, r1.hhkr, master, ⟨enckey, mackey, i.identI h.hostIdent params⟩⟩

/-- The flow that `gotDhR2` starts, if the response passes its checks. -/
def flowR2 (i : KeyInitiator) (h : Host) (hk : DHKey) (d : Round) (r2 : DhR2) :
    Option Flow :=
  if ¬ r2.idr.verify (calcKey d.master i.nhi d.nr '2' (256 / 8)) then none
  else
    match r2.idr.decrypt (calcKey d.master i.nhi d.nr '1' (256 / 8)) with
    | none => none
    | some kir =>
      let params : KeyParams :=
        ⟨i.dhgroup, i.keylen, i.nhi, d.nr, hk.pubkey, d.dhr, .key h.hostIdent⟩
      if kir.chanr = 0 ∨ kir.eidr = .null then none
      else if i.idr ≠ .null ∧ kir.eidr ≠ i.idr then none
      else if ¬ kir.eidr.setKey kir.idpkr then none
      else if ¬ kir.sigr.verify kir.idpkr params then none
      else
        some (i.fl.start
          (.aes (calcKey d.master i.nhi d.nr 'E' (128 / 8))
            (calcKey d.master i.nhi d.nr 'A' (256 / 8))
            (calcKey d.master d.nr i.nhi 'E' (128 / 8))
            (calcKey d.master d.nr i.nhi 'A' (256 / 8)))
          (.key (calcKey d.master i.nhi d.nr 'I' (128 / 8)))
          (.key (calcKey d.master d.nr i.nhi 'I' (128 / 8))) kir.chanr)

theorem flowR2_eq_some {i : KeyInitiator} {h : Host} {hk : DHKey} {d : Round} {r2 : DhR2}
    {fl : Flow} (hf : i.flowR2 h hk d r2 = some fl) :
    ∃ kir, r2.idr.verify (calcKey d.master i.nhi d.nr '2' (256 / 8)) = true ∧
      r2.idr.decrypt (calcKey d.master i.nhi d.nr '1' (256 / 8)) = some kir ∧
      fl = i.fl.start
        (.aes (calcKey d.master i.nhi d.nr 'E' (128 / 8))
          (calcKey d.master i.nhi d.nr 'A' (256 / 8))
          (calcKey d.master d.nr i.nhi 'E' (128 / 8))
          (calcKey d.master d.nr i.nhi 'A' (256 / 8)))
        (.key (calcKey d.master i.nhi d.nr 'I' (128 / 8)))
        (.key (calcKey d.master d.nr i.nhi 'I' (128 / 8))) kir.chanr := by
  unfold flowR2 at hf
  obtain ⟨hmac, hf⟩ := Option.ite_none_left_eq_some.mp hf
  split at hf
  · cases hf
  · rename_i kir hkir
    dsimp only at hf
    split_ifs at hf
    cases hf
    exact ⟨kir, not_not.mp hmac, hkir, rfl⟩

/-- The job is done: the flow is started. -/
def complete (i : KeyInitiator) (fl : Flow) (c : Chunk) : KeyInitiator :=
  { i with fl, state := .done, accepted := some c }

end KeyInitiator

namespace World

def sendI1 (w : World) (r : Rand) : Option World :=
  let i := { w.i with state := .i1, early := w.i.early && !w.i.methChk }
  if i.methAes then
    match w.h.getDHKey i.dhgroup r with
    | (_, none) => none
    | (h, some hk) =>
      some ({ w with h, i := { i with dhi := hk.pubkey, round := none } }.postI
        (i.chkI1 ++ [Chunk.dhI1 ⟨i.dhgroup, 128 / 8, i.nhi, hk.pubkey⟩]))
  else if i.chkI1 = [] then none
  else some ({ w with i }.postI i.chkI1)

def sendDhI2 (w : World) : Option World :=
  match w.i.dhi, w.i.round with
  | some dhi, some d =>
    some ({ w with i := { w.i with state := .i2, early := false } }.postI
      [.dhI2 ⟨w.i.dhgroup, w.i.keylen, w.i.ni, d.nr, dhi, d.dhr, d.hhkr, d.encidi⟩])
  | _, _ => none

def gotR0 (w : World) (src : Endpoint) (r : Rand) : Option World :=
  if w.i.registered ∧ src = w.i.sepr ∧ w.i.state = .i1 then w.sendI1 r else some w

def gotChkR1 (w : World) (r1 : ChkR1) (src : Endpoint) (r : Rand) : Option World :=
  let i := w.i
  if ¬ (i.registered ∧ i.methChk ∧ src = i.sepr ∧ r1.cki = i.chkkey) then some w
  else if i.state = .done then some w
  else if r1.ckr = r1.cki ∨ r1.chanr = 0 then
    if r1.cookie = [] then some w
    else { w with i := { i with cookie := r1.cookie } }.sendI1 r
  else
    let fl := i.fl.start (.checksum i.chkkey r1.ckr none) (.chk i.chkkey r1.ckr)
      (.chk r1.ckr i.chkkey) r1.chanr
    some { w with i := i.complete fl (.chkR1 r1) }

def gotDhR1 (w : World) (r1 : DhR1) (r : Rand) : Option World :=
  let i := w.i
  if ¬ (i.registered ∧ i.methAes ∧ r1.nhi = i.nhi) ∨ i.state = .done ∨ i.dhgroup ≠ r1.group then
    some w
  else if keygroupMax < r1.group ∨ r1.group < i.dhgroup then some w
  else if r1.keylen ≠ 128 / 8 ∧ r1.keylen ≠ 192 / 8 ∧ r1.keylen ≠ 256 / 8 then some w
  else if r1.keylen < i.keylen then some w
  else if i.dhgroup ≠ r1.group then
    { w with i := { i with dhgroup := r1.group } }.sendI1 r
  else
    match w.h.getDHKey r1.group r with
    | (_, none) => none
    | (h, some hk) =>
      if i.dhi ≠ hk.pubkey then { w with h }.sendI1 r
      else
        { w with h, i := { i with keylen := r1.keylen, round := i.roundOf h hk r1 } }.sendDhI2

def gotDhR2 (w : World) (r2 : DhR2) (r : Rand) : Option World :=
  let i := w.i
  if ¬ (i.registered ∧ i.methAes ∧ r2.nhi = i.nhi) ∨ i.state ≠ .i2 then some w
  else
    match i.round with
    | none => some w
    | some d =>
      match w.h.getDHKey i.dhgroup r with
      | (_, none) => none
      | (h, some hk) =>
        if i.dhi ≠ hk.pubkey then { w with h }.sendI1 r
        else
          match i.flowR2 h hk d r2 with
          | none => some { w with h }
          | some fl => some { w with h, i := i.complete fl (.dhR2 r2) }

def retransmit (w : World) (fail : Bool) (r : Rand) : Option World :=
  if fail then some { w with i := { w.i with state := .done } }
  else
    match w.i.state with
    | .i1 => w.sendI1 r
    | .i2 => w.sendDhI2
    | .done => some w

def cancel (w : World) : World := { w with i := { w.i with registered := false } }

end World

end Sst.Key
