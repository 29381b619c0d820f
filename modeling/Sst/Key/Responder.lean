import Sst.Key.State

/-!
# The responder

* `gotChkI1`: the checksum negotiation in one round.
* `gotDhI1`, `gotDhI2`: the Diffie-Hellman negotiation in two rounds.

What the application decides and the keyed hash of the clock are given by an `Answer`.
-/

namespace Sst.Key

open Symbolic

/-- The result of `checkInitiator`, the channel of the flow from `newFlow` with the information for
the initiator, and the result of `calcChkKey`. -/
structure Answer where
  accept : Bool
  flow : Option (Channel × Bytes)
  ck : UInt32

/-- The identity block of an R2 message. -/
def identR (chan : Channel) (hi : ℕ) (params : KeyParams) (ulpr : Bytes) : KeyIdentR where
  chanr := chan
  eidr := .key hi
  idpkr := hi
  sigr := ⟨hi, params⟩
  ulpr := ulpr

namespace World

def gotChkI1 (w : World) (i1 : ChkI1) (src : Endpoint) (a : Answer) : World :=
  let armorid : ArmorId := ⟨.ip src, i1.cki, i1.chani⟩
  if i1.chani = 0 then w
  else if armorid ∈ w.r.chkflows then w
  else if ¬ a.accept then w
  else
    match a.flow with
    | none => w
    | some (chan, ulpr) =>
      let ckr := if a.ck = i1.cki then a.ck + 1 else a.ck
      let answer := .chkR1 ⟨i1.cki, ckr, chan, [], ulpr⟩
      let fl := (Flow.bound chan).start (.checksum ckr i1.cki (some armorid)) (.chk ckr i1.cki)
        (.chk i1.cki ckr) i1.chani
      { w with r := ⟨armorid :: w.r.chkflows, ⟨fl, answer⟩ :: w.r.created⟩ }.postR [answer]

def checksumArmorDestroyed (w : World) (armorid : ArmorId) : World :=
  { w with r := { w.r with chkflows := w.r.chkflows.filter (· ≠ armorid) } }

/-- The public key of the initiator may not be larger than the group. -/
def gotDhI1 (w : World) (i1 : DhI1) (src : Endpoint) (r : Rand) : World :=
  match w.rh.getDHKey i1.group r with
  | (_, none) => w
  | (rh, some hk) =>
    let w := { w with rh }
    if i1.group < i1.dhi.group then w
    else if i1.keymin ≠ 128 / 8 ∧ i1.keymin ≠ 192 / 8 ∧ i1.keymin ≠ 256 / 8 then w
    else
      let nr := .random r.nonce
      w.postR [.dhR1 ⟨i1.group, i1.keymin, i1.nhi, nr, hk.pubkey,
        ⟨hk.hkr, hk.pubkey, nr, i1.nhi, src⟩⟩]

/-- Remember a response. -/
def cacheR2 (w : World) (group : ℕ) (hk : DHKey) (hhkr : Cookie) (m : Message) : World :=
  let hk : DHKey := { hk with r2cache := (hhkr, m) :: hk.r2cache }
  { w with rh := { w.rh with dhkeys := Function.update w.rh.dhkeys group (some hk) } }

/-- Create the flow of an accepted I2 message and answer it. -/
def acceptDhI2 (w : World) (i2 : DhI2) (kii : KeyIdentI) (hk : DHKey) (chan : Channel)
    (ulpr : Bytes) : World :=
  let nhi := .hash i2.ni
  let master := hk.calcKey i2.dhi
  let params : KeyParams := ⟨i2.group, i2.keylen, nhi, i2.nr, i2.dhi, i2.dhr, kii.eidi⟩
  let idr := ⟨calcKey master nhi i2.nr '1' (256 / 8), calcKey master nhi i2.nr '2' (256 / 8),
    identR chan w.rh.hostIdent params ulpr⟩
  let answer := .dhR2 ⟨nhi, idr⟩
  let fl := (Flow.bound chan).start
    (.aes (calcKey master i2.nr nhi 'E' (128 / 8)) (calcKey master i2.nr nhi 'A' (256 / 8))
      (calcKey master nhi i2.nr 'E' (128 / 8)) (calcKey master nhi i2.nr 'A' (256 / 8)))
    (.key (calcKey master i2.nr nhi 'I' (128 / 8)))
    (.key (calcKey master nhi i2.nr 'I' (128 / 8))) kii.chani
  ({ w with r := { w.r with created := ⟨fl, answer⟩ :: w.r.created } }.postR [answer]).cacheR2
    i2.group hk i2.hhkr [answer]

def gotDhI2 (w : World) (i2 : DhI2) (src : Endpoint) (r : Rand) (a : Answer) : World :=
  let nhi := .hash i2.ni
  let (rh, hk) := w.rh.getDHKey i2.group r
  let w := { w with rh }
  match hk.filter fun hk => i2.dhr = hk.pubkey with
  | none => w.gotDhI1 ⟨i2.group, i2.keylen, nhi, i2.dhi⟩ src r
  | some hk =>
    match hk.r2cache.lookup i2.hhkr with
    | some m => w.postR m
    | none =>
      if i2.hhkr ≠ ⟨hk.hkr, hk.pubkey, i2.nr, nhi, src⟩ then w
      else
        let master := hk.calcKey i2.dhi
        if ¬ i2.idi.verify (calcKey master nhi i2.nr '2' (256 / 8)) then w
        else
          match i2.idi.decrypt (calcKey master nhi i2.nr '1' (256 / 8)) with
          | none => w
          | some kii =>
            let params : KeyParams :=
              ⟨i2.group, i2.keylen, nhi, i2.nr, i2.dhi, i2.dhr, kii.eidr⟩
            if kii.chani = 0 then w
            else if ¬ a.accept then w
            else if kii.eidr ≠ .null ∧ kii.eidr ≠ .key w.rh.hostIdent then w
            else if ¬ kii.eidi.setKey kii.idpki then w
            else if ¬ kii.sigi.verify kii.idpki params then w
            else
              match a.flow with
              | none => w
              | some (chan, ulpr) => w.acceptDhI2 i2 kii hk chan ulpr

def sendR0 (w : World) : World := w.postR []

end World

end Sst.Key
