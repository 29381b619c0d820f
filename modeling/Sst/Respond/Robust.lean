import Sst.Respond.Outcome

/-!
# No message makes the responder fail, but for an identity without a name

* `gotChkI1_outcome`, `gotDhI1_outcome`: the requests in one and in two rounds.
* `Opened`: an I2 message with a valid challenge, whose identity block is authentic and was decoded.
* `gotIdentI_outcome`, `gotIdentI_anonymous`: an identity block, with an identifier and without.
* **`responder_robust`**: when `receive` does what it should.
-/

namespace Sst.Respond

open Reg (Bytes)

variable {cr : Crypto}

namespace World

/-! ## The first requests -/

/-- **A flow for an initiator with an identifier** is refused, or bound to a channel that is
free. -/
theorem newFlow_spec (w : World cr) (src : SocketEndpoint) {eidi : Bytes} (h : eidi ≠ [])
    (a : Answer cr) : w.newFlow src eidi a = some (w, none) ∨
      ∃ chan ulpr, w.taken src chan = false ∧
        w.newFlow src eidi a = some (w.bindFlow src chan, some (.bound chan, ulpr)) := by
  unfold newFlow
  cases a.ulpr with
  | none => exact .inl rfl
  | some ulpr =>
    dsimp only
    rw [if_neg h]
    rcases @Sock.SocketHost.freeChannel_spec (w.taken src) 255 1 (by decide) (by decide) with
      ⟨hzero, -⟩ | ⟨hchan, hfree⟩
    · rw [if_pos hzero]
      exact .inl rfl
    · rw [if_neg hchan]
      exact .inr ⟨_, ulpr, hfree, rfl⟩

theorem created_outcome {w w' : World cr} {src : SocketEndpoint} {chan : Sock.Channel}
    {fl : Flow} {pkt : Bytes} (hfree : w.taken src chan = false) (hfl : fl.Started)
    (hchan : fl.localchan = chan)
    (htaken : w'.taken = (w.bindFlow src chan).taken) (hflows : w'.flows = (src, fl) :: w.flows)
    (hinitors : w'.initors = w.initors) (hsent : w'.sent = w.sent ++ [(src, pkt)]) :
    Outcome w w' := by
  subst hchan
  exact .created src fl pkt hfl hfree htaken hflows hinitors hsent

theorem ident_ne_nil (ep : Endpoint) : ep.ident ≠ [] := by
  unfold Endpoint.ident
  cases ep.addr with
  | ip4 addr => exact List.cons_ne_nil _ _
  | ip6 addr => exact List.cons_ne_nil _ _

theorem ckr_ne (a : Answer cr) (cki : BitVec 32) : a.ckr cki ≠ cki := by
  unfold Answer.ckr
  split_ifs with h
  · rw [h]
    intro hne
    have hone : BitVec.toNat (1 : BitVec 32) = 1 := rfl
    have hnat := congrArg BitVec.toNat hne
    rw [BitVec.toNat_add, hone] at hnat
    omega
  · exact h

theorem acceptChkI1_outcome {w : World cr} {i1 : ChkI1} (hchani : i1.chani ≠ 0)
    {src : SocketEndpoint} {chan : Sock.Channel} (hfree : w.taken src chan = false) (ulpr : Bytes)
    (a : Answer cr) :
    ∃ w', (w.bindFlow src chan).acceptChkI1 i1 (.bound chan) ulpr src a = some w' ∧
      Outcome w w' := by
  have hne := ckr_ne a i1.cki
  have hfit : Fit (Chunk.chkR1
      ⟨i1.cki, a.ckr i1.cki, (Flow.bound chan).localchan, [], ulpr, []⟩).items :=
    .word (.word (.word (.word (.bytes (.bytes (.bytes .nil))))))
  obtain ⟨pkt, hsend⟩ := (w.bindFlow src chan).send_eq (w.bindFlow src chan).magic
    (List.forall_mem_singleton.mpr hfit) src
  obtain ⟨fl, hfl, hstarted, hchan⟩ := start_spec { Flow.bound chan with
    armr := some (.checksum (a.ckr i1.cki) i1.cki (armorid src.toEndpoint i1))
    txchanid := Reg.Xdr.writeWord (a.ckr i1.cki) ++ Reg.Xdr.writeWord i1.cki
    rxchanid := Reg.Xdr.writeWord i1.cki ++ Reg.Xdr.writeWord (a.ckr i1.cki)
    remotechan := i1.chani } (Option.some_ne_none _) hchani
  obtain ⟨v, hv⟩ : ∃ v, v = (w.bindFlow src chan).post src pkt := ⟨_, rfl⟩
  refine ⟨{ v with
    chkflows := armorid src.toEndpoint i1 :: v.chkflows
    flows := (src, fl) :: v.flows }, ?_, ?_⟩
  · rw [← hv] at hsend
    rw [acceptChkI1, bind_of_eq (calcChkChanId_eq hne), bind_of_eq (calcChkChanId_eq hne.symm),
      bind_of_eq hsend]
    dsimp only
    rw [bind_of_eq hfl]
    rfl
  · subst hv
    exact created_outcome hfree hstarted hchan rfl rfl rfl rfl

theorem gotChkI1_outcome (w : World cr) (i1 : ChkI1) (src : SocketEndpoint) (a : Answer cr) :
    ∃ w', w.gotChkI1 i1 src a = some w' ∧ Outcome w w' := by
  have hself : ∃ w', some w = some w' ∧ Outcome w w' := ⟨w, rfl, (Renewed.refl w).ignored⟩
  unfold gotChkI1
  split_ifs with hchani hdup haccept
  · exact hself
  · exact hself
  · exact hself
  · rcases w.newFlow_spec src (ident_ne_nil src.toEndpoint) a with
      hflow | ⟨chan, ulpr, hfree, hflow⟩
    · rw [bind_of_eq hflow]
      exact hself
    · rw [bind_of_eq hflow]
      exact acceptChkI1_outcome hchani hfree ulpr a

theorem gotDhI1_outcome (w : World cr) {i1 : DhI1} (hnhi : i1.nhi.length = 32)
    (src : SocketEndpoint) (a : Answer cr) : ∃ w', w.gotDhI1 i1 src a = some w' ∧ Outcome w w' := by
  obtain ⟨hrenewed, -⟩ := w.getDHKey_spec a (i1.group.setWidth 8)
  unfold gotDhI1
  generalize w.getDHKey a (i1.group.setWidth 8) = r at hrenewed
  obtain ⟨v, okey⟩ := r
  have hkept : ∃ w', some v = some w' ∧ Outcome w w' := ⟨v, rfl, hrenewed.ignored⟩
  cases okey with
  | none => exact hkept
  | some hk =>
    dsimp only
    split_ifs
    · exact hkept
    · exact hkept
    · have hhkr : (calcDhCookie hk a.nonce i1.nhi src.toEndpoint).length ≤ 256 := by
        rw [calcDhCookie, Armor.HMAC.length_final]
        decide
      have hfit : Fit (Chunk.dhR1 ⟨i1.group, i1.keymin, i1.nhi, a.nonce, hk.pubkey,
          calcDhCookie hk a.nonce i1.nhi src.toEndpoint, [], [], []⟩).items :=
        .word (.word (.word (.cons hnhi (.cons a.nonce_length (.cons hk.pubkey_le (.cons hhkr
          (.cons (Nat.zero_le _) (.bytes (.bytes .nil)))))))))
      obtain ⟨pkt, hsend⟩ := v.send_eq v.magic (List.forall_mem_singleton.mpr hfit) src
      rw [hsend, Option.map_some]
      exact ⟨_, rfl, hrenewed.outcome (.answered (.post v src pkt) [(src, pkt)]
        (List.cons_ne_nil _ _) rfl)⟩

/-! ## The second request -/

theorem bounds_of_fit {i2 : DhI2} (h : Fit (Chunk.dhI2 i2).items) :
    i2.nr.length = 32 ∧ i2.dhi.length ≤ 384 ∧ i2.dhr.length ≤ 384 := by
  simp only [Chunk.items, DhI2.items, Fit, List.forall_mem_cons] at h
  exact ⟨h.2.2.2.2.1, h.2.2.2.2.2.1, h.2.2.2.2.2.2.1⟩

theorem acceptDhI2_outcome {w : World cr} {i2 : DhI2} (hi2 : Fit (Chunk.dhI2 i2).items)
    {kii : KeyIdentI} (hchani : kii.chani ≠ 0) (heidi : kii.eidi.length ≤ 256) (hk : DHKey cr)
    (master : Bytes) {src : SocketEndpoint} {chan : Sock.Channel}
    (hfree : w.taken src chan = false) (ulpr : Bytes) (a : Answer cr) :
    ∃ w', (w.bindFlow src chan).acceptDhI2 i2 kii hk master (.bound chan) ulpr src a = some w' ∧
      Outcome w w' := by
  obtain ⟨hnr, hdhi, hdhr⟩ := bounds_of_fit hi2
  obtain ⟨u, hu⟩ : ∃ u, u = w.bindFlow src chan := ⟨_, rfl⟩
  have hparams : Fit (KeyParams.items
      ⟨i2.group, i2.keylen, sha256 cr i2.ni, i2.nr, i2.dhi, i2.dhr, kii.eidi⟩) :=
    .word (.word (.cons (length_sha256 _) (.cons hnr (.cons hdhi (.cons hdhr (.cons heidi .nil))))))
  obtain ⟨sighash, hsighash, hlen⟩ := exists_calcSigHash cr hparams
  obtain ⟨sigr, hsigr⟩ := u.hostIdent.exists_sign cr hlen
  have hplain : Fit (KeyIdentR.items ⟨(Flow.bound chan).localchan, u.hostIdent.id cr,
      u.hostIdent.k.key false, sigr, ulpr⟩) :=
    .word (.cons (u.hostIdent.length_id_le cr) (.bytes (.bytes (.bytes .nil))))
  obtain ⟨encidr, hseal⟩ := exists_sealIdent cr master (sha256 cr i2.ni) i2.nr a.ivec
    ((KeyIdentR.items ⟨(Flow.bound chan).localchan, u.hostIdent.id cr, u.hostIdent.k.key false,
      sigr, ulpr⟩).flatMap Item.encode)
  have hfit : Fit (Chunk.dhR2 ⟨sha256 cr i2.ni, encidr⟩).items :=
    .word (.cons (length_sha256 _) (.bytes .nil))
  obtain ⟨pkt, hsend⟩ := u.send_eq u.magic
    (List.forall_mem_singleton.mpr hfit) src
  obtain ⟨armr, harmr⟩ := newAes_calcKey cr master i2.nr (sha256 cr i2.ni)
  obtain ⟨fl, hfl, hstarted, hchan⟩ := start_spec { Flow.bound chan with
    armr := some armr
    txchanid := calcKey cr master i2.nr (sha256 cr i2.ni) 'I' (128 / 8)
    rxchanid := calcKey cr master (sha256 cr i2.ni) i2.nr 'I' (128 / 8)
    remotechan := kii.chani } (Option.some_ne_none _) hchani
  obtain ⟨v, hv⟩ : ∃ v, v = (u.post src pkt).cacheR2 (i2.group.setWidth 8) hk
    i2.hhkr pkt := ⟨_, rfl⟩
  refine ⟨{ v with flows := (src, fl) :: v.flows }, ?_, ?_⟩
  · rw [← hu, acceptDhI2, bind_of_eq hsighash, bind_of_eq hsigr, bind_of_eq (write_eq hplain),
      bind_of_eq hseal, bind_of_eq hsend]
    dsimp only
    rw [← hv, bind_of_eq harmr, bind_of_eq hfl]
    rfl
  · subst hv hu
    exact created_outcome hfree hstarted hchan rfl rfl rfl rfl

/-- An identity block that passes the checks before its identity is verified. -/
def Admitted (w : World cr) (kii : KeyIdentI) (a : Answer cr) : Prop :=
  kii.chani ≠ 0 ∧ a.accept = true ∧ (kii.eidr = [] ∨ kii.eidr = w.hostIdent.id cr)

/-- **The assertion of `IdentData::setKey` fails** for an initiator without an identifier. -/
theorem gotIdentI_anonymous {w : World cr} {kii : KeyIdentI} {a : Answer cr}
    (h : w.Admitted kii a) (heidi : kii.eidi = []) (i2 : DhI2) (hk : DHKey cr) (master : Bytes)
    (src : SocketEndpoint) : w.gotIdentI i2 kii hk master src a = none := by
  obtain ⟨hchani, haccept, heidr⟩ := h
  have hne : ¬(kii.eidr ≠ [] ∧ kii.eidr ≠ w.hostIdent.id cr) := fun ⟨h1, h2⟩ => heidr.elim h1 h2
  have hset : setKeyOf (newIdent cr kii.eidi) kii.idpki = none := if_pos heidi
  rw [gotIdentI, if_neg hchani, if_neg (Bool.not_eq_false _ ▸ haccept), if_neg hne, hset]
  rfl

/-- **Any other identity block** is rejected, or the flow is started. -/
theorem gotIdentI_outcome (w : World cr) {i2 : DhI2} (hi2 : Fit (Chunk.dhI2 i2).items)
    {kii : KeyIdentI} (hkii : Fit kii.items) {a : Answer cr}
    (h : ¬(w.Admitted kii a ∧ kii.eidi = [])) (hk : DHKey cr) (master : Bytes)
    (src : SocketEndpoint) :
    ∃ w', w.gotIdentI i2 kii hk master src a = some w' ∧ Outcome w w' := by
  have hself : ∃ w', some w = some w' ∧ Outcome w w' := ⟨w, rfl, (Renewed.refl w).ignored⟩
  obtain ⟨hnr, hdhi, hdhr⟩ := bounds_of_fit hi2
  obtain ⟨heidi, heidr⟩ : kii.eidi.length ≤ 256 ∧ kii.eidr.length ≤ 256 := by
    simp only [KeyIdentI.items, Fit, List.forall_mem_cons] at hkii
    exact ⟨hkii.2.1, hkii.2.2.1⟩
  unfold gotIdentI
  split_ifs with hchani haccept hother
  · exact hself
  · exact hself
  · exact hself
  · have hadmitted : w.Admitted kii a := by
      refine ⟨hchani, Bool.eq_true_of_not_eq_false haccept, ?_⟩
      by_cases hnil : kii.eidr = []
      · exact .inl hnil
      · exact .inr (Decidable.byContradiction fun hne => hother ⟨hnil, hne⟩)
    have hname : kii.eidi ≠ [] := fun hnil => h ⟨hadmitted, hnil⟩
    obtain ⟨ok, identi, hset, hverify⟩ := exists_setKeyOf cr hname kii.idpki
    have hparams : Fit (KeyParams.items
        ⟨i2.group, i2.keylen, sha256 cr i2.ni, i2.nr, i2.dhi, i2.dhr, kii.eidr⟩) :=
      .word (.word (.cons (length_sha256 _) (.cons hnr (.cons hdhi (.cons hdhr
        (.cons heidr .nil))))))
    obtain ⟨sighash, hsighash, hlen⟩ := exists_calcSigHash cr hparams
    rw [bind_of_eq hset]
    cases ok with
    | false => exact hself
    | true =>
      obtain ⟨ok, hok⟩ := hverify rfl sighash kii.sigi hlen
      simp only [Bool.not_true, Bool.false_eq_true, if_false]
      rw [bind_of_eq hsighash, bind_of_eq hok]
      cases ok with
      | false => exact hself
      | true =>
        simp only [Bool.not_true, Bool.false_eq_true, if_false]
        rcases w.newFlow_spec src hname a with hflow | ⟨chan, ulpr, hfree, hflow⟩
        · rw [bind_of_eq hflow]
          exact hself
        · rw [bind_of_eq hflow]
          exact acceptDhI2_outcome hi2 hchani heidi hk master hfree ulpr a

/-- The message repeats the current public key and a challenge that was not answered yet, and its
identity block is authentic and can be decoded. -/
structure Opened (w : World cr) (i2 : DhI2) (src : SocketEndpoint) (a : Answer cr) (hk : DHKey cr)
    (master : Bytes) (kii : KeyIdentI) : Prop where
  key : (w.getDHKey a (i2.group.setWidth 8)).2 = some hk
  dhr : i2.dhr = hk.pubkey
  unanswered : hk.r2cache.lookup i2.hhkr = none
  hhkr : i2.hhkr = calcDhCookie hk i2.nr (sha256 cr i2.ni) src.toEndpoint
  secret : hk.calcKey i2.dhi = some master
  ident : ∃ plain, openIdent cr master (sha256 cr i2.ni) i2.nr i2.idi = some (some plain) ∧
    KeyIdentI.read.decode plain = some kii

/-- **The identity block is processed** once it was opened. -/
theorem gotDhI2_eq {w : World cr} {i2 : DhI2} {src : SocketEndpoint} {a : Answer cr}
    {hk : DHKey cr} {master : Bytes} {kii : KeyIdentI} (h : w.Opened i2 src a hk master kii) :
    w.gotDhI2 i2 src a =
      (w.getDHKey a (i2.group.setWidth 8)).1.gotIdentI i2 kii hk master src a := by
  obtain ⟨plain, hopen, hdecode⟩ := h.ident
  have hfilter : (some hk).filter (fun hk => decide (i2.dhr = hk.pubkey)) = some hk := by
    rw [Option.filter_some, if_pos (decide_eq_true h.dhr)]
  unfold gotDhI2
  dsimp only
  rw [h.key, hfilter]
  dsimp only
  rw [h.unanswered]
  dsimp only
  rw [if_neg (not_not_intro h.hhkr), bind_of_eq h.secret, bind_of_eq hopen]
  dsimp only
  rw [hdecode]

/-- **A message that is not opened** is ignored or answered. -/
theorem gotDhI2_outcome (w : World cr) {i2 : DhI2} {src : SocketEndpoint} {a : Answer cr}
    (h : ∀ hk master kii, ¬w.Opened i2 src a hk master kii) :
    ∃ w', w.gotDhI2 i2 src a = some w' ∧ Outcome w w' := by
  obtain ⟨hrenewed, -⟩ := w.getDHKey_spec a (i2.group.setWidth 8)
  obtain ⟨⟨v, okey⟩, hget⟩ : ∃ r, w.getDHKey a (i2.group.setWidth 8) = r := ⟨_, rfl⟩
  have hkept : ∃ w', some v = some w' ∧ Outcome w w' := by
    rw [hget] at hrenewed
    exact ⟨v, rfl, hrenewed.ignored⟩
  rw [hget] at hrenewed
  unfold gotDhI2
  dsimp only
  rw [hget]
  dsimp only
  split
  · have hnhi : (DhI1.mk i2.group i2.keylen (sha256 cr i2.ni) i2.dhi []).nhi.length = 32 :=
      length_sha256 i2.ni
    obtain ⟨w', hw', hout⟩ := v.gotDhI1_outcome hnhi src a
    exact ⟨w', hw', hrenewed.outcome hout⟩
  · rename_i hk hfilter
    obtain ⟨hkey, hdhr⟩ := Option.filter_eq_some_iff.mp hfilter
    split
    · exact ⟨_, rfl, hrenewed.outcome (.answered (.post v src _) [(src, _)] (List.cons_ne_nil _ _)
        rfl)⟩
    · rename_i hlookup
      split_ifs with hhhkr
      · exact hkept
      · obtain ⟨master, hmaster⟩ := hk.exists_calcKey i2.dhi
        obtain ⟨oplain, hopen⟩ := exists_openIdent cr master (sha256 cr i2.ni) i2.nr i2.idi
        rw [bind_of_eq hmaster, bind_of_eq hopen]
        cases oplain with
        | none => exact hkept
        | some plain =>
          dsimp only
          cases hdecode : KeyIdentI.read.decode plain with
          | none => exact hkept
          | some kii =>
            refine absurd ⟨?_, of_decide_eq_true hdhr, hlookup, not_not.mp hhhkr, hmaster, plain,
              hopen, hdecode⟩ (h hk master kii)
            rw [hget]
            exact hkey

end World

/-! ## All messages -/

/-- An I2 message whose identity block is authentic and admitted, and in which the initiator's
identifier is empty. -/
def Anonymous (w : World cr) (pkt : Bytes) (src : SocketEndpoint) (a : Answer cr) : Prop :=
  ∃ i2 hk master kii, primary pkt = some (some (.dhI2 i2)) ∧ w.Opened i2 src a hk master kii ∧
    w.Admitted kii a ∧ kii.eidi = []

theorem fit_of_primary {pkt : Bytes} {c : Chunk} (h : primary pkt = some (some c)) :
    Fit c.items := by
  simp only [primary] at h
  split_ifs at h
  obtain ⟨o, ho, hc⟩ := List.mem_filterMap.mp (List.mem_of_find?_eq_some (Option.some.inj h))
  exact fit_of_mem_decode ho hc

/-- **Responder robustness.** On any datagram, in any state of the host and whatever the application
and the environment decide, `receive` ignores or answers the message, creates a flow or completes
that of an initiator, and no assertion fails, exactly if the message is not an I2 message with a
valid challenge and an authentic identity block in which the initiator's identifier is empty. -/
theorem responder_robust (cr : Crypto) (w : World cr) (pkt : Bytes) (src : SocketEndpoint)
    (a : Answer cr) :
    (∃ w', w.receive pkt src a = some w' ∧ Outcome w w') ↔ ¬Anonymous w pkt src a := by
  constructor
  · rintro ⟨w', hw', -⟩ ⟨i2, hk, master, kii, hprimary, hopened, hadmitted, heidi⟩
    have hrenewed := (w.getDHKey_spec a (i2.group.setWidth 8)).1
    have hadmitted' : (w.getDHKey a (i2.group.setWidth 8)).1.Admitted kii a := by
      rw [World.Admitted, hrenewed.hostIdent]
      exact hadmitted
    rw [World.receive, hprimary] at hw'
    dsimp only at hw'
    rw [World.gotDhI2_eq hopened, World.gotIdentI_anonymous hadmitted' heidi] at hw'
    cases hw'
  · intro h
    unfold World.receive
    split
    · exact ⟨w, rfl, (Renewed.refl w).ignored⟩
    · exact w.gotChkI1_outcome _ src a
    · exact w.gotChkR1_outcome _ src.toEndpoint a
    · rename_i i1 hprimary
      have hfit := fit_of_primary hprimary
      simp only [Chunk.items, DhI1.items, Fit, List.forall_mem_cons] at hfit
      exact w.gotDhI1_outcome hfit.2.2.2.1 src a
    · rename_i i2 hprimary
      have hfit := fit_of_primary hprimary
      have hrenewed := (w.getDHKey_spec a (i2.group.setWidth 8)).1
      by_cases hopened : ∃ hk master kii, w.Opened i2 src a hk master kii
      · obtain ⟨hk, master, kii, hopened⟩ := hopened
        obtain ⟨plain, -, hdecode⟩ := hopened.ident
        have hnot : ¬((w.getDHKey a (i2.group.setWidth 8)).1.Admitted kii a ∧ kii.eidi = []) := by
          rintro ⟨hadmitted, heidi⟩
          rw [World.Admitted, hrenewed.hostIdent] at hadmitted
          exact h ⟨i2, hk, master, kii, hprimary, hopened, hadmitted, heidi⟩
        obtain ⟨w', hw', hout⟩ := World.gotIdentI_outcome _ hfit (KeyIdentI.reads.decode hdecode)
          hnot hk master src
        rw [World.gotDhI2_eq hopened]
        exact ⟨w', hw', hrenewed.outcome hout⟩
      · exact w.gotDhI2_outcome fun hk master kii ho => hopened ⟨hk, master, kii, ho⟩
    · rename_i r1 hprimary
      exact w.gotDhR1_outcome (fit_of_primary hprimary) a
    · exact w.gotDhR2_outcome _ a
    · exact w.gotR0_outcome src.toEndpoint a

/-! ## An initiator without an identifier -/

/-- A library whose cipher is the identity and whose hashes are zero. -/
def zeroCrypto : Crypto where
  AesKey := Unit
  setEncryptKey _ := ()
  setDecryptKey _ := ()
  encrypt _ b i := .ofBitVec (b.extractLsb' (8 * (15 - i)) 8)
  Ctx := Unit
  init := ()
  update _ _ := ()
  final _ _ := 0
  decrypt _ b i := .ofBitVec (b.extractLsb' (8 * (15 - i)) 8)
  rsaSign _ _ := []
  rsaVerify _ _ _ := true
  dsaSign _ _ := (0, 0)
  dsaVerify _ _ _ := true
  Dh := Unit
  dhSize _ := 128
  computeKey _ _ := none
  computeKey_le _ _ _ h := by cases h

def zeroKey : DHKey zeroCrypto := ⟨(), [7], List.replicate 32 0, [], by decide⟩

/-- A host with one Diffie-Hellman key. -/
def keyedHost : World zeroCrypto where
  magic := 0x4e6b78#32
  hostIdent := ⟨.rsa160, (⟨.privateKey, 0, 0, 0, 0, 0, 0, 0, 0⟩ : RSAKey), rfl⟩
  dhkeys g := if g = 1 then some zeroKey else none
  taken _ _ := false
  initors := []
  flows := []
  chkflows := []
  sent := []

def acceptAll : Answer zeroCrypto where
  accept := true
  ulpr := some []
  ck := 0
  gen _ := zeroKey
  nonce := List.replicate 32 0
  ivec := List.replicate 16 0
  gen_r2cache _ := rfl
  nonce_length := by decide

/-- Channel 1 and five empty fields, encrypted in two blocks after the initialization vector, and
the keyed hash. -/
def namelessI2 : DhI2 where
  group := 1
  keylen := 16
  ni := List.replicate 32 0
  nr := List.replicate 32 0
  dhi := [9]
  dhr := [7]
  hhkr := List.replicate 16 0
  idi := List.replicate 16 0 ++ [0, 0, 0, 1] ++ List.replicate 12 0 ++ [0, 0, 0, 1] ++
    List.replicate 12 0 ++ List.replicate 16 0

/-- The challenge and the hash are right, and the assertion of `IdentData::setKey` fails. -/
theorem responder_robust_nameless : ∃ pkt, packet 0x4e6b78#32 [.dhI2 namelessI2] = some pkt ∧
    keyedHost.receive pkt ⟨⟨.ip4 0x0a000001#32, 5000⟩, 0⟩ acceptAll = none := by
  refine ⟨_, if_pos (by decide +kernel), Option.isNone_iff_eq_none.mp ?_⟩
  decide +kernel

end Sst.Respond
