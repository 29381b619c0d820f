import Sst.Respond.Responder
import Sst.Sock.Demux

/-!
# What processing a message may do

* `Quiet`: nothing is left behind: no flow, no cached response, no channel that is taken.
* `Outcome`: a message is ignored or answered, a flow is created, or an initiator's is completed.
* `getDHKey_spec`, `sendI1_spec`, `resend_spec`: what the shared functions do.
* `gotR0_outcome`, `gotChkR1_outcome`, `gotDhR1_outcome`, `gotDhR2_outcome`: the initiator's
  handlers fail on no message.
-/

namespace Sst.Respond

open Reg (Bytes)
open Xdr (KeyMessage)

variable {cr : Crypto}

/-- The response that is cached for a challenge under the key of a group. -/
def World.cached (w : World cr) (g : BitVec 8) (hhkr : Bytes) : Option Bytes :=
  (w.dhkeys g).bind fun hk => hk.r2cache.lookup hhkr

/-- The responder's flows, its cached responses and the channels that are taken are as before. -/
structure Quiet (w w' : World cr) : Prop where
  flows : w'.flows = w.flows
  chkflows : w'.chkflows = w.chkflows
  taken : w'.taken = w.taken
  cached : ∀ g hhkr, w'.cached g hhkr = w.cached g hhkr

namespace Quiet

theorem refl (w : World cr) : Quiet w w := ⟨rfl, rfl, rfl, fun _ _ => rfl⟩

theorem trans {w w' w'' : World cr} (h : Quiet w w') (h' : Quiet w' w'') : Quiet w w'' :=
  ⟨h'.flows.trans h.flows, h'.chkflows.trans h.chkflows, h'.taken.trans h.taken,
    fun g hhkr => (h'.cached g hhkr).trans (h.cached g hhkr)⟩

theorem post (w : World cr) (dst : SocketEndpoint) (pkt : Bytes) : Quiet w (w.post dst pkt) :=
  ⟨rfl, rfl, rfl, fun _ _ => rfl⟩

theorem setInitor (w : World cr) (k : ℕ) (i : KeyInitiator) : Quiet w (w.setInitor k i) :=
  ⟨rfl, rfl, rfl, fun _ _ => rfl⟩

end Quiet

/-- The flow is set up and started. -/
structure Flow.Started (fl : Flow) : Prop where
  active : fl.active = true
  armr : fl.armr ≠ none
  remotechan : fl.remotechan ≠ 0

/-- What processing a message may do to a host: the message is ignored; it is answered; a flow is
created, on a channel that was free, and the message is answered; a flow of an initiator is
completed. -/
inductive Outcome (w w' : World cr) : Prop
  | ignored (quiet : Quiet w w') (initors : w'.initors = w.initors) (sent : w'.sent = w.sent)
  | answered (quiet : Quiet w w') (pkts : List (SocketEndpoint × Bytes)) (ne : pkts ≠ [])
      (sent : w'.sent = w.sent ++ pkts)
  | created (src : SocketEndpoint) (fl : Flow) (pkt : Bytes) (started : fl.Started)
      (free : w.taken src fl.localchan = false)
      (taken : w'.taken = (w.bindFlow src fl.localchan).taken)
      (flows : w'.flows = (src, fl) :: w.flows) (initors : w'.initors = w.initors)
      (sent : w'.sent = w.sent ++ [(src, pkt)])
  | completed (quiet : Quiet w w') (k : ℕ) (i : KeyInitiator) (fl : Flow) (started : fl.Started)
      (initor : w.initors[k]? = some i) (initors : w'.initors = w.initors.set k (i.complete fl))
      (sent : w'.sent = w.sent)

/-- The world is as before, but for Diffie-Hellman keys that were made. -/
structure Renewed (w w' : World cr) : Prop extends Quiet w w' where
  initors : w'.initors = w.initors
  sent : w'.sent = w.sent
  magic : w'.magic = w.magic
  hostIdent : w'.hostIdent = w.hostIdent

namespace Renewed

theorem refl (w : World cr) : Renewed w w := ⟨.refl w, rfl, rfl, rfl, rfl⟩

theorem ignored {w w' : World cr} (h : Renewed w w') : Outcome w w' :=
  .ignored h.toQuiet h.initors h.sent

theorem outcome {w w' w'' : World cr} (h : Renewed w w') (h' : Outcome w' w'') :
    Outcome w w'' := by
  cases h' with
  | ignored quiet initors sent =>
    exact .ignored (h.toQuiet.trans quiet) (initors.trans h.initors) (sent.trans h.sent)
  | answered quiet pkts ne sent =>
    exact .answered (h.toQuiet.trans quiet) pkts ne (by rw [sent, h.sent])
  | created src fl pkt started free taken flows initors sent =>
    refine .created src fl pkt started ?_ ?_ ?_ (initors.trans h.initors) ?_
    · rw [← h.taken, free]
    · rw [taken, World.bindFlow, World.bindFlow, h.taken]
    · rw [flows, h.flows]
    · rw [sent, h.sent]
  | completed quiet k i fl started initor initors sent =>
    refine .completed (h.toQuiet.trans quiet) k i fl started ?_ ?_ (sent.trans h.sent)
    · rw [← h.initors, initor]
    · rw [initors, h.initors]

end Renewed

/-! ## The shared functions -/

namespace World

variable (w : World cr) (a : Answer cr)

/-- **A key is made** if there is none and the group is known; it has no cached responses. -/
theorem getDHKey_spec (g : BitVec 8) :
    Renewed w (w.getDHKey a g).1 ∧ (KeyGroup g → ∃ hk, (w.getDHKey a g).2 = some hk) := by
  unfold getDHKey
  split_ifs with hmax hgroup
  · refine ⟨.refl w, fun hg => ?_⟩
    rcases hg with rfl | rfl <;> exact absurd hmax (by decide)
  · split
    · exact ⟨.refl w, fun _ => ⟨_, rfl⟩⟩
    · rename_i hnone
      refine ⟨⟨⟨rfl, rfl, rfl, fun g' hhkr => ?_⟩, rfl, rfl, rfl, rfl⟩, fun _ => ⟨_, rfl⟩⟩
      rcases eq_or_ne g' g with rfl | hne
      · simp only [cached, Function.update_self, hnone, Option.bind_some, Option.bind_none,
          a.gen_r2cache]
        rfl
      · simp only [cached, Function.update_of_ne hne]
  · split
    · exact ⟨.refl w, fun _ => ⟨_, rfl⟩⟩
    · exact ⟨.refl w, fun hg => absurd hg hgroup⟩

variable {w a}

/-- **A message whose fields fit is sent.** -/
theorem send_eq (w : World cr) (magic : BitVec 32) {chunks : List Chunk}
    (h : ∀ c ∈ chunks, Fit c.items) (dst : SocketEndpoint) :
    ∃ pkt, w.send magic chunks dst = some (w.post dst pkt, pkt) := by
  refine ⟨KeyMessage.encode Chunk.codec ⟨magic, chunks.map fun c => ⟨some c, []⟩⟩, ?_⟩
  rw [send, packet, if_pos h]
  rfl

theorem fit_chunkChkI1 (i : KeyInitiator) : ∀ c ∈ i.chunkChkI1, Fit c.items := by
  intro c hc
  rw [KeyInitiator.chunkChkI1] at hc
  split_ifs at hc
  · obtain rfl := List.mem_singleton.mp hc
    exact .word (.word (.word (.bytes (.bytes (.bytes .nil)))))
  · exact absurd hc List.not_mem_nil

/-- **An initiator sends its I1 message.** -/
theorem sendI1_spec (w : World cr) (i : KeyInitiator) (k : ℕ) (a : Answer cr) :
    ∃ w' pkt, w.sendI1 i k a = some w' ∧ Quiet w w' ∧ w'.sent = w.sent ++ [(i.sepr, pkt)] := by
  unfold sendI1
  dsimp only
  by_cases haes : i.methAes = true
  · obtain ⟨hrenewed, hgroup⟩ := w.getDHKey_spec a i.dhgroup
    obtain ⟨hk, hkey⟩ := hgroup (i.group haes)
    rw [if_pos haes]
    generalize hget : w.getDHKey a i.dhgroup = r at hrenewed hkey
    obtain ⟨v, okey⟩ := r
    obtain rfl : okey = some hk := hkey
    dsimp only
    obtain ⟨i', hi'⟩ : ∃ i', i' = { i with state := .i1 }.renew hk := ⟨_, rfl⟩
    have hfit : ∀ c ∈ i'.chunkChkI1 ++
        [Chunk.dhI1 ⟨i'.dhgroup.setWidth 32, 128 / 8, i'.nhi, i'.dhi, []⟩], Fit c.items := by
      intro c hc
      rcases List.mem_append.mp hc with hc | hc
      · exact fit_chunkChkI1 i' c hc
      · obtain rfl := List.mem_singleton.mp hc
        exact .word (.word (.word (.cons i'.nhi_length (.cons i'.dhi_le (.cons (Nat.zero_le _)
          .nil)))))
    obtain ⟨pkt, hsend⟩ := send_eq (v.setInitor k i') i'.magic hfit i'.sepr
    have hsepr : i'.sepr = i.sepr := by rw [hi']; rfl
    rw [← hi', hsend, Option.map_some]
    refine ⟨_, pkt, rfl, hrenewed.toQuiet.trans ((Quiet.setInitor v k i').trans (.post _ _ _)), ?_⟩
    rw [hsepr]
    exact congrArg (· ++ [(i.sepr, pkt)]) hrenewed.sent
  · have hchk : i.methChk = true := i.method.resolve_right haes
    rw [if_neg haes, if_neg]
    · obtain ⟨pkt, hsend⟩ := send_eq (w.setInitor k { i with state := .i1 }) i.magic
        (fit_chunkChkI1 { i with state := .i1 }) i.sepr
      rw [hsend, Option.map_some]
      exact ⟨_, pkt, rfl, (Quiet.setInitor w k _).trans (.post _ _ _), rfl⟩
    · rw [KeyInitiator.chunkChkI1, if_pos hchk]
      exact List.cons_ne_nil _ _

/-- **A loop over initiators** sends messages, or leaves the world as it is. -/
theorem resend_spec (a : Answer cr) (ks : List ℕ) (w : World cr) :
    ∃ w' pkts, w.resend a ks = some w' ∧ Quiet w w' ∧ w'.sent = w.sent ++ pkts ∧
      (pkts = [] → w' = w) := by
  induction ks generalizing w with
  | nil => exact ⟨w, [], rfl, .refl w, (List.append_nil _).symm, fun _ => rfl⟩
  | cons k ks ih =>
    have hself : ∃ w' pkts, some w = some w' ∧ Quiet w w' ∧ w'.sent = w.sent ++ pkts ∧
        (pkts = [] → w' = w) := ⟨w, [], rfl, .refl w, (List.append_nil _).symm, fun _ => rfl⟩
    rw [resend]
    cases w.initors[k]? with
    | none => exact hself
    | some i =>
      dsimp only
      split_ifs
      · exact hself
      · obtain ⟨v, pkt, hv, hquiet, hsent⟩ := w.sendI1_spec i k a
        obtain ⟨w', pkts, hw', hquiet', hsent', -⟩ := ih v
        rw [hv, Option.bind_some]
        refine ⟨w', (i.sepr, pkt) :: pkts, hw', hquiet.trans hquiet', ?_, fun h => ?_⟩
        · rw [hsent', hsent, List.append_assoc]
          rfl
        · cases h

theorem gotR0_outcome (w : World cr) (src : Endpoint) (a : Answer cr) :
    ∃ w', w.gotR0 src a = some w' ∧ Outcome w w' := by
  obtain ⟨w', pkts, hw', hquiet, hsent, hnil⟩ := resend_spec a
    ((w.initors.zipIdx.filter fun x => x.1.registered && x.1.sepr.toEndpoint = src).map
      Prod.snd).reverse w
  refine ⟨w', hw', ?_⟩
  by_cases h : pkts = []
  · rw [hnil h]
    exact (Renewed.refl w).ignored
  · exact .answered hquiet pkts h hsent

/-! ## Responses for an initiator -/

theorem find_spec {w : World cr} {p : KeyInitiator → Bool} {i : KeyInitiator} {k : ℕ}
    (h : w.find p = some (i, k)) : p i = true ∧ w.initors[k]? = some i := by
  have hmem := List.mem_of_find?_eq_some h
  have hp := List.find?_some h
  exact ⟨(Bool.and_eq_true_iff.mp hp).2, List.mk_mem_zipIdx_iff_getElem?.mp hmem⟩

theorem sendI1_outcome (w : World cr) (i : KeyInitiator) (k : ℕ) (a : Answer cr) :
    ∃ w', w.sendI1 i k a = some w' ∧ Outcome w w' := by
  obtain ⟨w', pkt, hw', hquiet, hsent⟩ := w.sendI1_spec i k a
  exact ⟨w', hw', .answered hquiet _ (List.cons_ne_nil _ _) hsent⟩

theorem complete_outcome {w : World cr} {i : KeyInitiator} {k : ℕ} {fl : Flow}
    (hi : w.initors[k]? = some i) (hfl : fl.Started) :
    Outcome w (w.setInitor k (i.complete fl)) :=
  .completed (.setInitor w k _) k i fl hfl hi rfl rfl

/-- **A flow with its armor and its remote channel starts.** -/
theorem start_spec (fl : Flow) (harmr : fl.armr ≠ none) (hchan : fl.remotechan ≠ 0) :
    ∃ fl', fl.start = some fl' ∧ fl'.Started ∧ fl'.localchan = fl.localchan := by
  have hnot : ¬(fl.armr = none ∨ fl.remotechan = 0) := fun h => h.elim harmr hchan
  exact ⟨{ fl with active := true }, if_neg hnot, ⟨rfl, harmr, hchan⟩, rfl⟩

theorem calcChkChanId_eq {localck remoteck : BitVec 32} (h : localck ≠ remoteck) :
    calcChkChanId localck remoteck =
      some (Reg.Xdr.writeWord localck ++ Reg.Xdr.writeWord remoteck) := if_neg h

theorem gotChkR1_outcome (w : World cr) (r1 : ChkR1) (src : Endpoint) (a : Answer cr) :
    ∃ w', w.gotChkR1 r1 src a = some w' ∧ Outcome w w' := by
  have hself : ∃ w', some w = some w' ∧ Outcome w w' := ⟨w, rfl, (Renewed.refl w).ignored⟩
  unfold gotChkR1
  split
  · exact hself
  · rename_i i k hfind
    obtain ⟨hp, hi⟩ := find_spec hfind
    have hkey : i.chkkey = r1.cki := of_decide_eq_true (Bool.and_eq_true_iff.mp hp).2
    rw [if_neg (not_not_intro hkey)]
    split_ifs with hdone hagain hcookie
    · exact hself
    · exact hself
    · exact w.sendI1_outcome _ k a
    · have hne : i.chkkey ≠ r1.ckr := fun h => hagain (.inl (h ▸ hkey))
      obtain ⟨fl, hfl, hstarted, -⟩ := start_spec { i.fl with
        armr := some (.checksum i.chkkey r1.ckr [])
        txchanid := Reg.Xdr.writeWord i.chkkey ++ Reg.Xdr.writeWord r1.ckr
        rxchanid := Reg.Xdr.writeWord r1.ckr ++ Reg.Xdr.writeWord i.chkkey
        remotechan := r1.chanr } (Option.some_ne_none _) fun h => hagain (.inr h)
      refine ⟨_, ?_, complete_outcome hi hstarted⟩
      rw [bind_of_eq (calcChkChanId_eq hne), bind_of_eq (calcChkChanId_eq hne.symm), bind_of_eq hfl]
      rfl

theorem sendDhI2_outcome (w : World cr) (i : KeyInitiator) (k : ℕ) (d : Round) (encidi : Bytes)
    (hhhkr : d.hhkr.length ≤ 256) :
    ∃ w', w.sendDhI2 i k d encidi = some w' ∧ Outcome w w' := by
  have hfit : Fit (Chunk.dhI2 ⟨i.dhgroup.setWidth 32, i.keylen.setWidth 32, i.ni, d.nr, i.dhi,
      d.dhr, d.hhkr, encidi⟩).items :=
    .word (.word (.word (.cons i.ni_length (.cons d.nr_length (.cons i.dhi_le (.cons d.dhr_le
      (.cons hhhkr (.bytes .nil))))))))
  obtain ⟨pkt, hsend⟩ := send_eq (w.setInitor k (i.expectR2 d)) i.magic
    (List.forall_mem_singleton.mpr hfit) i.sepr
  refine ⟨(w.setInitor k (i.expectR2 d)).post i.sepr pkt, ?_, ?_⟩
  · rw [sendDhI2, hsend, Option.map_some]
  · exact .answered ((Quiet.setInitor w k _).trans (.post _ _ _)) [(i.sepr, pkt)]
      (List.cons_ne_nil _ _) rfl

/-- **An R1 response** is answered. -/
theorem answerDhR1_outcome (w : World cr) (i : KeyInitiator) (k : ℕ) (hk : DHKey cr) {r1 : DhR1}
    (hr1 : Fit (Chunk.dhR1 r1).items) (a : Answer cr) :
    ∃ w', w.answerDhR1 i k hk r1 a = some w' ∧ Outcome w w' := by
  obtain ⟨hnr, hdhr, hhkr⟩ : r1.nr.length = 32 ∧ r1.dhr.length ≤ 384 ∧ r1.hhkr.length ≤ 256 := by
    simp only [Chunk.items, DhR1.items, Fit, List.forall_mem_cons] at hr1
    exact ⟨hr1.2.2.2.2.1, hr1.2.2.2.2.2.1, hr1.2.2.2.2.2.2.1⟩
  have hparams : Fit (KeyParams.items
      ⟨i.dhgroup.setWidth 32, i.keylen.setWidth 32, i.nhi, r1.nr, i.dhi, r1.dhr, []⟩) :=
    .word (.word (.cons i.nhi_length (.cons hnr (.cons i.dhi_le (.cons hdhr
      (.cons (Nat.zero_le _) .nil))))))
  obtain ⟨master, hmaster⟩ := hk.exists_calcKey r1.dhr
  obtain ⟨sighash, hsighash, hlen⟩ := exists_calcSigHash cr hparams
  obtain ⟨sigi, hsigi⟩ := w.hostIdent.exists_sign cr hlen
  have hplain : Fit (KeyIdentI.items
      ⟨i.fl.localchan, w.hostIdent.id cr, [], w.hostIdent.k.key false, sigi, i.ulpi⟩) :=
    .word (.cons (w.hostIdent.length_id_le cr) (.cons (Nat.zero_le _)
      (.bytes (.bytes (.bytes .nil)))))
  obtain ⟨encidi, hseal⟩ := exists_sealIdent cr master i.nhi r1.nr a.ivec
    ((KeyIdentI.items ⟨i.fl.localchan, w.hostIdent.id cr, [], w.hostIdent.k.key false, sigi,
      i.ulpi⟩).flatMap Item.encode)
  obtain ⟨w', hw', hout⟩ := w.sendDhI2_outcome i k ⟨r1.nr, r1.dhr, r1.hhkr, master, hnr, hdhr⟩
    encidi hhkr
  refine ⟨w', ?_, hout⟩
  rw [answerDhR1, dif_pos ⟨hnr, hdhr⟩, bind_of_eq hmaster, bind_of_eq hsighash, bind_of_eq hsigi,
    bind_of_eq (write_eq hplain), bind_of_eq hseal, hw']

theorem gotDhR1_outcome (w : World cr) {r1 : DhR1} (hr1 : Fit (Chunk.dhR1 r1).items)
    (a : Answer cr) : ∃ w', w.gotDhR1 r1 a = some w' ∧ Outcome w w' := by
  have hself : ∃ w', some w = some w' ∧ Outcome w w' := ⟨w, rfl, (Renewed.refl w).ignored⟩
  unfold gotDhR1
  split
  · exact hself
  · rename_i i k hfind
    obtain ⟨haes, hnhi⟩ := Bool.and_eq_true_iff.mp (find_spec hfind).1
    obtain ⟨hrenewed, hgroup⟩ := w.getDHKey_spec a i.dhgroup
    obtain ⟨hk, hkey⟩ := hgroup (i.group haes)
    generalize w.getDHKey a i.dhgroup = r at hrenewed hkey
    obtain ⟨v, okey⟩ := r
    obtain rfl : okey = some hk := hkey
    rw [if_neg (not_not_intro (of_decide_eq_true hnhi))]
    dsimp only
    split_ifs
    · exact hself
    · exact hself
    · exact hself
    · obtain ⟨w', hw', hout⟩ := v.sendI1_outcome i k a
      exact ⟨w', hw', hrenewed.outcome hout⟩
    · obtain ⟨w', hw', hout⟩ := v.answerDhR1_outcome { i with keylen := r1.keylen.setWidth 8 } k hk
        hr1 a
      exact ⟨w', hw', hrenewed.outcome hout⟩

theorem newAes_calcKey (cr : Crypto) (master n₁ n₂ : Bytes) : ∃ armr,
    Armor.newAes (calcKey cr master n₁ n₂ 'E' (128 / 8)) (calcKey cr master n₁ n₂ 'A' (256 / 8))
      (calcKey cr master n₂ n₁ 'E' (128 / 8)) (calcKey cr master n₂ n₁ 'A' (256 / 8)) =
        some armr :=
  ⟨_, if_pos ⟨aesKeySize_calcKey _ _ _ _ (.inl rfl), aesKeySize_calcKey _ _ _ _ (.inl rfl),
    length_calcKey _ _ _ _ (by decide), length_calcKey _ _ _ _ (by decide)⟩⟩

theorem acceptDhR2_outcome {w : World cr} {i : KeyInitiator} {k : ℕ} (hi : w.initors[k]? = some i)
    (d : Round) {kir : KeyIdentR} (hchan : kir.chanr ≠ 0) :
    ∃ w', w.acceptDhR2 i k d kir = some w' ∧ Outcome w w' := by
  obtain ⟨armr, harmr⟩ := newAes_calcKey cr d.master i.nhi d.nr
  obtain ⟨fl, hfl, hstarted, -⟩ := start_spec { i.fl with
    armr := some armr
    txchanid := calcKey cr d.master i.nhi d.nr 'I' (128 / 8)
    rxchanid := calcKey cr d.master d.nr i.nhi 'I' (128 / 8)
    remotechan := kir.chanr } (Option.some_ne_none _) hchan
  refine ⟨_, ?_, complete_outcome hi hstarted⟩
  rw [acceptDhR2, bind_of_eq harmr, bind_of_eq hfl]
  rfl

/-- **An identity block of a responder** is rejected, or the flow is started. An empty identifier is
rejected. -/
theorem gotIdentR_outcome {w : World cr} {i : KeyInitiator} {k : ℕ} (hi : w.initors[k]? = some i)
    (d : Round) (kir : KeyIdentR) : ∃ w', w.gotIdentR i k d kir = some w' ∧ Outcome w w' := by
  have hself : ∃ w', some w = some w' ∧ Outcome w w' := ⟨w, rfl, (Renewed.refl w).ignored⟩
  unfold gotIdentR
  split_ifs with hinfo hidr
  · exact hself
  · exact hself
  · obtain ⟨hchan, heidr⟩ := not_or.mp hinfo
    obtain ⟨ok, identr, hset, hverify⟩ := exists_setKeyOf cr heidr kir.idpkr
    have hparams : Fit (KeyParams.items ⟨i.dhgroup.setWidth 32, i.keylen.setWidth 32, i.nhi, d.nr,
        i.dhi, d.dhr, w.hostIdent.id cr⟩) :=
      .word (.word (.cons i.nhi_length (.cons d.nr_length (.cons i.dhi_le (.cons d.dhr_le
        (.cons (w.hostIdent.length_id_le cr) .nil))))))
    obtain ⟨sighash, hsighash, hlen⟩ := exists_calcSigHash cr hparams
    rw [bind_of_eq hset]
    cases ok with
    | false => exact hself
    | true =>
      obtain ⟨ok, hok⟩ := hverify rfl sighash kir.sigr hlen
      change ∃ w', (do
        let sighash ← calcSigHash cr _
        let ok ← verify identr sighash kir.sigr
        if !ok then return w
        w.acceptDhR2 i k d kir) = some w' ∧ Outcome w w'
      rw [bind_of_eq hsighash, bind_of_eq hok]
      cases ok with
      | false => exact hself
      | true => exact acceptDhR2_outcome hi d hchan

theorem gotDhR2_outcome (w : World cr) (r2 : DhR2) (a : Answer cr) :
    ∃ w', w.gotDhR2 r2 a = some w' ∧ Outcome w w' := by
  have hself : ∃ w', some w = some w' ∧ Outcome w w' := ⟨w, rfl, (Renewed.refl w).ignored⟩
  unfold gotDhR2
  split
  · exact hself
  · rename_i i k hfind
    obtain ⟨hp, hi⟩ := find_spec hfind
    obtain ⟨haes, hnhi⟩ := Bool.and_eq_true_iff.mp hp
    obtain ⟨hrenewed, hgroup⟩ := w.getDHKey_spec a i.dhgroup
    obtain ⟨hk, hkey⟩ := hgroup (i.group haes)
    generalize w.getDHKey a i.dhgroup = r at hrenewed hkey
    obtain ⟨v, okey⟩ := r
    obtain rfl : okey = some hk := hkey
    have hkept : ∃ w', some v = some w' ∧ Outcome w w' := ⟨v, rfl, hrenewed.ignored⟩
    have hiv : v.initors[k]? = some i := (congrArg (·[k]?) hrenewed.initors).trans hi
    by_cases hstate : i.state ≠ .i2
    · rw [if_pos hstate]
      exact hself
    · rw [if_neg hstate]
      split
      · exact hself
      · rename_i d _
        rw [if_neg (not_not_intro (of_decide_eq_true hnhi))]
        dsimp only
        split_ifs
        · exact hself
        · obtain ⟨w', hw', hout⟩ := v.sendI1_outcome i k a
          exact ⟨w', hw', hrenewed.outcome hout⟩
        · obtain ⟨oplain, hplain⟩ := exists_openIdent cr d.master i.nhi d.nr r2.idr
          rw [bind_of_eq hplain]
          cases oplain with
          | none => exact hkept
          | some plain =>
            dsimp only
            cases KeyIdentR.read.decode plain with
            | none => exact hkept
            | some kir =>
              obtain ⟨w', hw', hout⟩ := gotIdentR_outcome hiv d kir
              exact ⟨w', hw', hrenewed.outcome hout⟩

end World

end Sst.Respond
