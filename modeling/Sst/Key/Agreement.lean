import Sst.Key.Initiator
import Sst.Key.Responder
import Sst.Lib.Transition

/-!
# Key agreement

An initiator and a responder over a network that loses, duplicates, delays and reorders messages:
every message sent may be delivered any number of times, from any address.

* `Session`: what an exchange settles, with the flow of each side.
* `Session.Answers`: the chunk that ends the exchange.
* **`Session.Answers.unique`**: the chunk determines the session.
* `Inv`: the flows created and the responses sent are those of sessions.
* **`key_agreement`**: the initiator and the responder start mirrored flows.
-/

namespace Sst.Key

open Symbolic Transition

/-! ## Sessions -/

/-- What an exchange settles: two checksum keys, or a master secret with two nonces. -/
inductive Session
  | chk (cki ckr : UInt32)
  | dh (master : Master) (nhi nr : Nonce)

namespace Session

/-- The armor and the channel ids of the side that sends under the first key. -/
def armor (id : Option ArmorId) : Session → Armor × ChannelId × ChannelId
  | chk k₁ k₂ => (.checksum k₁ k₂ id, .chk k₁ k₂, .chk k₂ k₁)
  | dh m n₁ n₂ =>
    (.aes (calcKey m n₁ n₂ 'E' (128 / 8)) (calcKey m n₁ n₂ 'A' (256 / 8))
      (calcKey m n₂ n₁ 'E' (128 / 8)) (calcKey m n₂ n₁ 'A' (256 / 8)),
      .key (calcKey m n₁ n₂ 'I' (128 / 8)), .key (calcKey m n₂ n₁ 'I' (128 / 8)))

/-- The session as the responder sees it. -/
def swap : Session → Session
  | chk cki ckr => chk ckr cki
  | dh m nhi nr => dh m nr nhi

/-- The flow of the side that sends under the first key. -/
def flow (s : Session) (id : Option ArmorId) (chan remotechan : Channel) : Flow :=
  (Flow.bound chan).start (s.armor id).1 (s.armor id).2.1 (s.armor id).2.2 remotechan

/-- The two directions differ. -/
def Directed : Session → Prop
  | chk cki ckr => cki ≠ ckr
  | dh _ nhi nr => nhi ≠ nr

/-- The chunk in which a responder with the local channel `chanr` answers. -/
inductive Answers : Session → Channel → Chunk → Prop
  | chk (cki ckr : UInt32) (chanr : Channel) (cookie ulpr : Bytes) :
    Answers (chk cki ckr) chanr (.chkR1 ⟨cki, ckr, chanr, cookie, ulpr⟩)
  | dh (m : Master) (nhi nr : Nonce) (kir : KeyIdentR) :
    Answers (dh m nhi nr) kir.chanr (.dhR2 ⟨nhi, ⟨calcKey m nhi nr '1' (256 / 8),
      calcKey m nhi nr '2' (256 / 8), kir⟩⟩)

/-- **The chunk determines the session and the responder's channel.** -/
theorem Answers.unique {s t : Session} {a b : Channel} {c : Chunk} (h : s.Answers a c)
    (h' : t.Answers b c) : s = t ∧ a = b := by
  cases h <;> cases h' <;> exact ⟨rfl, rfl⟩

end Session

/-! ## Mirrored flows -/

namespace Armor

/-- One side sends with the keys with which the other receives. -/
def Mirrored : Armor → Armor → Prop
  | checksum tx rx _, checksum tx' rx' _ => tx = rx' ∧ rx = tx'
  | aes txenc txmac rxenc rxmac, aes txenc' txmac' rxenc' rxmac' =>
    (txenc = rxenc' ∧ txmac = rxmac') ∧ rxenc = txenc' ∧ rxmac = txmac'
  | _, _ => False

/-- The two directions have different keys. -/
def Directed : Armor → Prop
  | checksum tx rx _ => tx ≠ rx
  | aes txenc txmac rxenc rxmac => txenc ≠ rxenc ∧ txmac ≠ rxmac

end Armor

/-- Two flows with mirrored parameters and different directions. -/
structure Flow.Mirrored (a b : Flow) : Prop where
  armor : ∃ x ∈ a.armr, ∃ y ∈ b.armr, x.Mirrored y ∧ x.Directed
  tx : ∃ c, a.txchanid = some c ∧ b.rxchanid = some c
  rx : ∃ c, a.rxchanid = some c ∧ b.txchanid = some c
  ids : a.txchanid ≠ a.rxchanid
  remote : a.remotechan = b.localchan
  back : b.remotechan = a.localchan

theorem Session.mirrored {s : Session} (hs : s.Directed) (id id' : Option ArmorId)
    (a b : Channel) : (s.flow id a b).Mirrored (s.swap.flow id' b a) := by
  cases s with
  | chk cki ckr =>
    have hne : cki ≠ ckr := hs
    exact ⟨⟨_, rfl, _, rfl, ⟨rfl, rfl⟩, hne⟩, ⟨_, rfl, rfl⟩, ⟨_, rfl, rfl⟩,
      fun h => hne (by injection h with h; injection h), rfl, rfl⟩
  | dh m nhi nr =>
    have hne : ∀ w l, calcKey m nhi nr w l ≠ calcKey m nr nhi w l := fun w l h =>
      hs (DerivedKey.mk.inj h).2.1
    exact ⟨⟨_, rfl, _, rfl, ⟨⟨rfl, rfl⟩, rfl, rfl⟩, hne _ _, hne _ _⟩, ⟨_, rfl, rfl⟩,
      ⟨_, rfl, rfl⟩, fun h => hne 'I' (128 / 8) (by injection h with h; injection h), rfl, rfl⟩

/-! ## The machine -/

/-- The initiator, its target, and the keys of the hosts. -/
structure Config where
  hosti : ℕ
  hostr : ℕ
  chan : Channel
  sepr : Endpoint
  idr : Ident
  dhgroup : ℕ
  chkkey : UInt32
  nonce : ℕ

/-- Before the first message. -/
def World.new (c : Config) : World where
  h := ⟨c.hosti, fun _ => none⟩
  i := .new c.chan c.sepr c.idr c.dhgroup c.chkkey c.nonce
  sentI := []
  rh := ⟨c.hostr, fun _ => none⟩
  r := ⟨[], []⟩
  sentR := []

/-- A step: a delivery of the message with a number, a timeout, or a call. -/
inductive Op
  | deliverI (n : ℕ) (src : Endpoint) (r : Rand)
  | deliverR (n : ℕ) (src : Endpoint) (r : Rand) (a : Answer)
  | retransmit (fail : Bool) (r : Rand)
  | setInfo (ulpi : Bytes)
  | cancel
  | sendR0
  | checksumArmorDestroyed (id : ArmorId)
  | timeoutI (group : ℕ)
  | timeoutR (group : ℕ)

namespace World

/-- `receive` at the initiator's host. -/
def receiveI (w : World) (m : Message) (src : Endpoint) (r : Rand) : Option World :=
  match m with
  | [] => w.gotR0 src r
  | .chkR1 d :: _ => w.gotChkR1 d src r
  | .dhR1 d :: _ => w.gotDhR1 d r
  | .dhR2 d :: _ => w.gotDhR2 d r
  | _ => some w

/-- `receive` at the responder's host. -/
def receiveR (w : World) (m : Message) (src : Endpoint) (r : Rand) (a : Answer) : World :=
  match m with
  | .chkI1 d :: _ => w.gotChkI1 d src a
  | .dhI1 d :: _ => w.gotDhI1 d src r
  | .dhI2 d :: _ => w.gotDhI2 d src r a
  | _ => w

def step (w : World) : Op → Option World
  | .deliverI n src r => w.sentR[n]?.bind fun m => w.receiveI m src r
  | .deliverR n src r a => w.sentI[n]?.map fun m => w.receiveR m src r a
  | .retransmit fail r => w.retransmit fail r
  | .setInfo ulpi => some { w with i := { w.i with ulpi } }
  | .cancel => some w.cancel
  | .sendR0 => some w.sendR0
  | .checksumArmorDestroyed id => some (w.checksumArmorDestroyed id)
  | .timeoutI group => some { w with h := w.h.timeout group }
  | .timeoutR group => some { w with rh := w.rh.timeout group }

end World

/-- The negotiation. -/
def negotiation (c : Config) : Machine World Op := ⟨.new c, World.step⟩

/-! ## The invariant -/

/-- A chunk of an initiator names its channel. -/
def SentI (chan : Channel) : Chunk → Prop
  | .chkI1 d => d.chani = chan
  | .dhI2 d => d.idi.body.chani = chan
  | _ => True

/-- A chunk of a responder has a random nonce, or it is the answer of a created flow. -/
def SentR (created : List Created) : Chunk → Prop
  | .dhR1 d => ∃ n, d.nr = .random n
  | .chkR1 d => ∃ e ∈ created, e.answer = .chkR1 d
  | .dhR2 d => ∃ e ∈ created, e.answer = .dhR2 d
  | _ => True

/-- A created flow is the responder's flow of the session that its answer ends. -/
def Created.OfSession (chan : Channel) (e : Created) : Prop :=
  ∃ s id chanr, Session.Answers s chanr e.answer ∧ e.flow = s.swap.flow id chanr chan

/-- The initiator's own state; when it has completed, its flow is that of the session that the
accepted chunk ends. -/
structure OwnInv (created : List Created) (i : KeyInitiator) : Prop where
  hashed : i.nhi = .hash i.ni
  nonce : ∀ d, i.round = some d → ∃ n, d.nr = .random n
  sealed : ∀ d, i.round = some d → d.encidi.body.chani = i.fl.localchan
  answered : ∀ c, i.accepted = some c → ∃ e ∈ created, e.answer = c
  session : ∀ c, i.accepted = some c → ∃ s chanr, Session.Answers s chanr c ∧ s.Directed ∧
    i.fl = s.flow none i.fl.localchan chanr

/-- The flows created and the messages sent are those of sessions. -/
structure Inv (w : World) : Prop where
  own : OwnInv w.r.created w.i
  sentI : ∀ m ∈ w.sentI, ∀ c ∈ m, SentI w.i.fl.localchan c
  sentR : ∀ m ∈ w.sentR, ∀ c ∈ m, SentR w.r.created c
  cached : ∀ group hk, w.rh.dhkeys group = some hk → ∀ e ∈ hk.r2cache, ∀ c ∈ e.2,
    SentR w.r.created c
  created : ∀ e ∈ w.r.created, e.OfSession w.i.fl.localchan

theorem SentR.mono {l : List Created} {c : Chunk} (h : SentR l c) (x : Created) :
    SentR (x :: l) c := by
  cases c with
  | chkR1 d =>
    obtain ⟨e, he, h⟩ := h
    exact ⟨e, List.mem_cons_of_mem _ he, h⟩
  | dhR2 d =>
    obtain ⟨e, he, h⟩ := h
    exact ⟨e, List.mem_cons_of_mem _ he, h⟩
  | _ => exact h

theorem OwnInv.mono {l : List Created} {i : KeyInitiator} (h : OwnInv l i) (x : Created) :
    OwnInv (x :: l) i :=
  ⟨h.hashed, h.nonce, h.sealed, fun c hc =>
    let ⟨e, he, h⟩ := h.answered c hc
    ⟨e, List.mem_cons_of_mem _ he, h⟩, h.session⟩

theorem OwnInv.congr {l : List Created} {i i' : KeyInitiator} (h : OwnInv l i) (hni : i'.ni = i.ni)
    (hnhi : i'.nhi = i.nhi) (hfl : i'.fl = i.fl) (ha : i'.accepted = i.accepted)
    (hr : i'.round = i.round ∨ i'.round = none) : OwnInv l i' := by
  have hround : ∀ d, i'.round = some d → i.round = some d := by
    intro d hd
    rcases hr with hr | hr
    · rwa [← hr]
    · rw [hr] at hd
      cases hd
  refine ⟨?_, fun d hd => h.nonce d (hround d hd), fun d hd => ?_, ?_, ?_⟩
  · rw [hnhi, hni]
    exact h.hashed
  · rw [hfl]
    exact h.sealed d (hround d hd)
  · rw [ha]
    exact h.answered
  · rw [ha, hfl]
    exact h.session

theorem Inv.new (c : Config) : Inv (.new c) where
  own := ⟨rfl, fun _ h => (nomatch h), fun _ h => (nomatch h), fun _ h => (nomatch h),
    fun _ h => (nomatch h)⟩
  sentI m hm := absurd hm List.not_mem_nil
  sentR m hm := absurd hm List.not_mem_nil
  cached g hk h := by cases h
  created e he := absurd he List.not_mem_nil

namespace Inv

variable {w : World}

/-! ## What keeps the invariant -/

theorem setI (hw : Inv w) {i : KeyInitiator} (hchan : i.fl.localchan = w.i.fl.localchan)
    (hi : OwnInv w.r.created i) (h : Host) : Inv { w with h, i } :=
  ⟨hi, fun m hm c hc => hchan.symm ▸ hw.sentI m hm c hc, hw.sentR, hw.cached,
    fun e he => hchan.symm ▸ hw.created e he⟩

theorem setH (hw : Inv w) (h : Host) : Inv { w with h } :=
  ⟨hw.own, hw.sentI, hw.sentR, hw.cached, hw.created⟩

theorem postI (hw : Inv w) {m : Message} (hm : ∀ c ∈ m, SentI w.i.fl.localchan c) :
    Inv (w.postI m) where
  own := hw.own
  sentI := by
    intro m' hm' c hc
    rcases List.mem_append.1 hm' with h | h
    · exact hw.sentI m' h c hc
    · rw [List.mem_singleton.1 h] at hc
      exact hm c hc
  sentR := hw.sentR
  cached := hw.cached
  created := hw.created

theorem postR (hw : Inv w) {m : Message} (hm : ∀ c ∈ m, SentR w.r.created c) :
    Inv (w.postR m) where
  own := hw.own
  sentI := hw.sentI
  sentR := by
    intro m' hm' c hc
    rcases List.mem_append.1 hm' with h | h
    · exact hw.sentR m' h c hc
    · rw [List.mem_singleton.1 h] at hc
      exact hm c hc
  cached := hw.cached
  created := hw.created

theorem create (hw : Inv w) {e : Created} (he : e.OfSession w.i.fl.localchan)
    (flows : List ArmorId) : Inv { w with r := ⟨flows, e :: w.r.created⟩ } where
  own := hw.own.mono e
  sentI := hw.sentI
  sentR m hm c hc := (hw.sentR m hm c hc).mono e
  cached g hk h x hx c hc := (hw.cached g hk h x hx c hc).mono e
  created := by
    intro x hx
    rcases List.mem_cons.1 hx with rfl | hx
    · exact he
    · exact hw.created x hx

theorem setRh (hw : Inv w) {rh : Host} (hc : ∀ group hk, rh.dhkeys group = some hk →
    ∀ e ∈ hk.r2cache, ∀ c ∈ e.2, SentR w.r.created c) : Inv { w with rh } :=
  ⟨hw.own, hw.sentI, hw.sentR, hc, hw.created⟩

end Inv

theorem Host.getDHKey_keys {h h' : Host} {group : ℕ} {r : Rand} {o : Option DHKey}
    (he : h.getDHKey group r = (h', o)) :
    (∀ g hk, h'.dhkeys g = some hk → h.dhkeys g = some hk ∨ hk.r2cache = []) ∧
      ∀ hk, o = some hk → h'.dhkeys group = some hk := by
  unfold Host.getDHKey at he
  split at he
  · cases he
    exact ⟨fun g hk h => .inl h, nofun⟩
  · split at he
    · rename_i hk hg
      cases he
      exact ⟨fun g hk h => .inl h, fun k hk => by cases hk; exact hg⟩
    · split at he
      · cases he
        exact ⟨fun g hk h => .inl h, nofun⟩
      · cases he
        refine ⟨fun g hk hg => ?_, fun hk hk' => ?_⟩
        · dsimp only at hg
          rw [Function.update_apply] at hg
          split at hg
          · cases hg
            exact .inr rfl
          · exact .inl hg
        · dsimp only
          rw [Function.update_self]
          exact hk'

/-! ## The initiator keeps the invariant -/

namespace Inv

variable {w w' : World} {r : Rand} {src : Endpoint}

theorem sentI_chkI1 (i : KeyInitiator) : ∀ c ∈ i.chkI1, SentI i.fl.localchan c := by
  intro c hc
  unfold KeyInitiator.chkI1 at hc
  split at hc
  · rw [List.mem_singleton.1 hc]
    rfl
  · cases hc

theorem sendI1 (hw : Inv w) (h : w.sendI1 r = some w') : Inv w' := by
  unfold World.sendI1 at h
  dsimp only at h
  split at h
  · split at h
    · cases h
    · cases h
      refine Inv.postI (Inv.setI hw ?_ (hw.own.congr ?_ ?_ ?_ ?_ (.inr ?_)) _) ?_
      iterate 6 rfl
      intro c hc
      rcases List.mem_append.1 hc with hc | hc
      · exact sentI_chkI1 _ c hc
      · rw [List.mem_singleton.1 hc]
        trivial
  · split at h
    · cases h
    · cases h
      refine Inv.postI (Inv.setI hw ?_ (hw.own.congr ?_ ?_ ?_ ?_ (.inl ?_)) _) (sentI_chkI1 _)
      iterate 6 rfl

theorem sendDhI2 (hw : Inv w) (h : w.sendDhI2 = some w') : Inv w' := by
  unfold World.sendDhI2 at h
  split at h
  · rename_i dhi d hd hr
    cases h
    refine Inv.postI (Inv.setI hw ?_ (hw.own.congr ?_ ?_ ?_ ?_ (.inl ?_)) _) fun c hc => ?_
    iterate 6 rfl
    rw [List.mem_singleton.1 hc]
    exact hw.own.sealed d hr
  · cases h

theorem gotR0 (hw : Inv w) (h : w.gotR0 src r = some w') : Inv w' := by
  unfold World.gotR0 at h
  split at h
  · exact hw.sendI1 h
  · cases h
    exact hw

theorem complete (hw : Inv w) {s : Session} {chanr : Channel} {c : Chunk} {fl : Flow}
    (hc : ∃ e ∈ w.r.created, e.answer = c) (ha : s.Answers chanr c) (hd : s.Directed)
    (hfl : fl = s.flow none w.i.fl.localchan chanr) : Inv { w with i := w.i.complete fl c } := by
  have hl : fl.localchan = w.i.fl.localchan := by rw [hfl]; rfl
  have ho : OwnInv w.r.created (w.i.complete fl c) := by
    refine ⟨hw.own.hashed, hw.own.nonce, fun d h => ?_, fun c' h => ?_, fun c' h => ?_⟩
    · exact (hw.own.sealed d h).trans hl.symm
    · cases h
      exact hc
    · cases h
      exact ⟨s, chanr, ha, hd, hfl.trans (congrArg (s.flow none · chanr) hl.symm)⟩
  exact Inv.setI hw hl ho w.h

theorem gotChkR1 (hw : Inv w) {d : ChkR1} (hd : SentR w.r.created (.chkR1 d))
    (h : w.gotChkR1 d src r = some w') : Inv w' := by
  unfold World.gotChkR1 at h
  dsimp only at h
  split at h
  · cases h
    exact hw
  · rename_i hreg
    split at h
    · cases h
      exact hw
    · split at h
      · split at h
        · cases h
          exact hw
        · refine Inv.sendI1 (Inv.setI hw ?_ (hw.own.congr ?_ ?_ ?_ ?_ (.inl ?_)) w.h) h
          iterate 6 rfl
      · rename_i hne
        cases h
        have hk : d.cki = w.i.chkkey := (not_not.1 hreg).2.2.2
        obtain ⟨cki, ckr, chanr, cookie, ulpr⟩ := d
        subst hk
        exact hw.complete hd (.chk _ ckr chanr cookie ulpr)
          (fun e => hne (.inl e.symm)) rfl

theorem gotDhR1 (hw : Inv w) {d : DhR1} (hd : SentR w.r.created (.dhR1 d))
    (h : w.gotDhR1 d r = some w') : Inv w' := by
  unfold World.gotDhR1 at h
  dsimp only at h
  iterate 4
    split at h
    · cases h
      exact hw
  split at h
  · refine Inv.sendI1 (Inv.setI hw ?_ (hw.own.congr ?_ ?_ ?_ ?_ (.inl ?_)) w.h) h
    iterate 6 rfl
  · split at h
    · cases h
    · split at h
      · exact (hw.setH _).sendI1 h
      · refine Inv.sendDhI2 (Inv.setI hw ?_ ?_ _) h
        · rfl
        · refine ⟨hw.own.hashed, fun e he => ?_, fun e he => ?_, hw.own.answered, hw.own.session⟩
          · cases he
            exact hd
          · cases he
            rfl

theorem gotDhR2 (hw : Inv w) {d : DhR2} (hd : SentR w.r.created (.dhR2 d))
    (h : w.gotDhR2 d r = some w') : Inv w' := by
  unfold World.gotDhR2 at h
  dsimp only at h
  split at h
  · cases h
    exact hw
  · rename_i hreg
    have hnhi : d.nhi = w.i.nhi := (not_not.1 (not_or.1 hreg).1).2.2
    split at h
    · cases h
      exact hw
    · rename_i e he
      obtain ⟨n, hn⟩ := hw.own.nonce e he
      split at h
      · cases h
      · split at h
        · exact (hw.setH _).sendI1 h
        · split at h
          · cases h
            exact hw.setH _
          · rename_i hfl
            cases h
            obtain ⟨kir, hmac, hkir, rfl⟩ := KeyInitiator.flowR2_eq_some hfl
            obtain ⟨henc, hbody⟩ := Sealed.decrypt_eq_some.1 hkir
            have hmac := (Sealed.verify_iff _ _).1 hmac
            -- the seal names the initiator's own secret and nonces
            have ha : Session.Answers (.dh e.master w.i.nhi e.nr) kir.chanr (.dhR2 d) := by
              obtain ⟨nhi, enckey, mackey, body⟩ := d
              cases hnhi
              cases henc
              cases hmac
              cases hbody
              exact .dh _ _ _ _
            refine Inv.complete (hw.setH _) hd ha ?_ rfl
            rw [hw.own.hashed, hn]
            exact (Nonce.random_ne_hash _ _).symm

theorem retransmit (hw : Inv w) {fail : Bool} (h : w.retransmit fail r = some w') : Inv w' := by
  unfold World.retransmit at h
  split at h
  · cases h
    refine Inv.setI hw ?_ (hw.own.congr ?_ ?_ ?_ ?_ (.inl ?_)) _
    iterate 6 rfl
  · split at h
    · exact hw.sendI1 h
    · exact hw.sendDhI2 h
    · cases h
      exact hw

/-! ## The responder keeps the invariant -/

theorem gotChkI1 (hw : Inv w) {d : ChkI1} (hd : SentI w.i.fl.localchan (.chkI1 d)) (a : Answer) :
    Inv (w.gotChkI1 d src a) := by
  unfold World.gotChkI1
  dsimp only
  iterate 3
    split
    · exact hw
  split
  · exact hw
  · rename_i chan ulpr _
    have hd : d.chani = w.i.fl.localchan := hd
    refine Inv.postR (Inv.create hw ?_ _) fun c hc => ?_
    · rw [← hd]
      exact ⟨.chk d.cki _, some ⟨.ip src, d.cki, d.chani⟩, chan, .chk _ _ _ _ ulpr, rfl⟩
    · rw [List.mem_singleton.1 hc]
      exact ⟨_, List.mem_cons_self, rfl⟩

theorem lookup (hw : Inv w) {group : ℕ} {rh : Host} {o : Option DHKey}
    (he : w.rh.getDHKey group r = (rh, o)) : Inv { w with rh } := by
  refine hw.setRh fun g hk hg e hx => ?_
  rcases (Host.getDHKey_keys he).1 g hk hg with hg | hg
  · exact hw.cached g hk hg e hx
  · rw [hg] at hx
    cases hx

theorem gotDhI1 (hw : Inv w) (d : DhI1) : Inv (w.gotDhI1 d src r) := by
  unfold World.gotDhI1
  split
  · exact hw
  · rename_i rh hk he
    have hw := hw.lookup he
    dsimp only
    split
    · exact hw
    · split
      · exact hw
      · refine hw.postR fun c hc => ?_
        rw [List.mem_singleton.1 hc]
        exact ⟨r.nonce, rfl⟩

theorem cacheR2 (hw : Inv w) {group : ℕ} {hk : DHKey} (hg : w.rh.dhkeys group = some hk)
    (hhkr : Cookie) {m : Message} (hm : ∀ c ∈ m, SentR w.r.created c) :
    Inv (w.cacheR2 group hk hhkr m) := by
  refine hw.setRh fun g k hk' e he c hc => ?_
  dsimp only at hk'
  rw [Function.update_apply] at hk'
  split at hk'
  · cases hk'
    rcases List.mem_cons.1 he with rfl | he
    · exact hm c hc
    · exact hw.cached group hk hg e he c hc
  · exact hw.cached g k hk' e he c hc

theorem acceptDhI2 (hw : Inv w) {d : DhI2} {kii : KeyIdentI} {hk : DHKey}
    (hg : w.rh.dhkeys d.group = some hk) (hchan : kii.chani = w.i.fl.localchan) (chan : Channel)
    (ulpr : Bytes) : Inv (w.acceptDhI2 d kii hk chan ulpr) := by
  unfold World.acceptDhI2
  dsimp only
  refine Inv.cacheR2 (Inv.postR (Inv.create hw ?_ _) ?_) hg _ ?_
  · rw [← hchan]
    exact ⟨.dh (hk.calcKey d.dhi) (.hash d.ni) d.nr, none, _, .dh _ _ _ (identR chan _ _ ulpr), rfl⟩
  · intro c hc
    rw [List.mem_singleton.1 hc]
    exact ⟨_, List.mem_cons_self, rfl⟩
  · intro c hc
    rw [List.mem_singleton.1 hc]
    exact ⟨_, List.mem_cons_self, rfl⟩

theorem gotDhI2 (hw : Inv w) {d : DhI2} (hd : SentI w.i.fl.localchan (.dhI2 d)) (a : Answer) :
    Inv (w.gotDhI2 d src r a) := by
  unfold World.gotDhI2
  dsimp only
  have hw := hw.lookup (Prod.mk.eta (p := w.rh.getDHKey d.group r)).symm
  split
  · exact hw.gotDhI1 _
  · rename_i hk hf
    have hg := (Host.getDHKey_keys (Prod.mk.eta (p := w.rh.getDHKey d.group r)).symm).2 hk
      (Option.filter_eq_some_iff.1 hf).1
    split
    · rename_i m hm
      obtain ⟨l₁, l₂, hl, -⟩ := List.lookup_eq_some_iff.1 hm
      refine hw.postR fun c hc => hw.cached d.group hk hg (d.hhkr, m) ?_ c hc
      rw [hl]
      exact List.mem_append_right _ List.mem_cons_self
    · split
      · exact hw
      · split
        · exact hw
        · split
          · exact hw
          · rename_i kii hkii
            iterate 5
              split
              · exact hw
            split
            · exact hw
            · refine hw.acceptDhI2 hg ?_ _ _
              rw [← (Sealed.decrypt_eq_some.1 hkii).2]
              exact hd

/-! ## Runs -/

theorem receiveI (hw : Inv w) {m : Message} (hm : ∀ c ∈ m, SentR w.r.created c)
    (h : w.receiveI m src r = some w') : Inv w' := by
  unfold World.receiveI at h
  split at h
  · exact hw.gotR0 h
  · exact hw.gotChkR1 (hm _ List.mem_cons_self) h
  · exact hw.gotDhR1 (hm _ List.mem_cons_self) h
  · exact hw.gotDhR2 (hm _ List.mem_cons_self) h
  · cases h
    exact hw

theorem receiveR (hw : Inv w) {m : Message} (hm : ∀ c ∈ m, SentI w.i.fl.localchan c)
    (a : Answer) : Inv (w.receiveR m src r a) := by
  unfold World.receiveR
  split
  · exact hw.gotChkI1 (hm _ List.mem_cons_self) a
  · exact hw.gotDhI1 _
  · exact hw.gotDhI2 (hm _ List.mem_cons_self) a
  · exact hw

/-- **Every step keeps the invariant.** -/
theorem step (hw : Inv w) {op : Op} (h : w.step op = some w') : Inv w' := by
  cases op with
  | deliverI n src r =>
    obtain ⟨m, hm, h⟩ := Option.bind_eq_some_iff.1 h
    exact hw.receiveI (hw.sentR m (List.mem_of_getElem? hm)) h
  | deliverR n src r a =>
    obtain ⟨m, hm, rfl⟩ := Option.map_eq_some_iff.1 h
    exact hw.receiveR (hw.sentI m (List.mem_of_getElem? hm)) a
  | retransmit fail r => exact hw.retransmit h
  | sendR0 =>
    cases h
    exact hw.postR fun c hc => absurd hc List.not_mem_nil
  | checksumArmorDestroyed id =>
    cases h
    exact ⟨hw.own, hw.sentI, hw.sentR, hw.cached, hw.created⟩
  | timeoutI group =>
    cases h
    exact hw.setH _
  | timeoutR group =>
    cases h
    refine hw.setRh fun g hk hg => hw.cached g hk ?_
    dsimp only [Host.timeout] at hg
    rw [Function.update_apply] at hg
    split at hg
    · cases hg
    · exact hg
  | setInfo ulpi =>
    cases h
    refine Inv.setI hw ?_ (hw.own.congr ?_ ?_ ?_ ?_ (.inl ?_)) _
    iterate 6 rfl
  | cancel =>
    cases h
    refine Inv.setI hw ?_ (hw.own.congr ?_ ?_ ?_ ?_ (.inl ?_)) _
    iterate 6 rfl

theorem reach {c : Config} {w : World} (h : (negotiation c).Reach Machine.always w) : Inv w :=
  h.invariant (Inv.new c) fun _ _ _ _ hw _ hs => hw.step hs

end Inv

/-- **When the initiator completes with a chunk, the responder created a flow with that answer,
and each flow with that answer mirrors the initiator's.** -/
theorem key_agreement {c : Config} {w : World} (h : (negotiation c).Reach Machine.always w)
    {chunk : Chunk} (hc : w.i.accepted = some chunk) :
    (∃ e ∈ w.r.created, e.answer = chunk) ∧
      ∀ e ∈ w.r.created, e.answer = chunk → w.i.fl.Mirrored e.flow := by
  have hw := Inv.reach h
  refine ⟨hw.own.answered chunk hc, fun e he hec => ?_⟩
  obtain ⟨s, chanr, hs, hd, hfl⟩ := hw.own.session chunk hc
  obtain ⟨t, id, chanr', ht, hflr⟩ := hw.created e he
  rw [hec] at ht
  obtain ⟨rfl, rfl⟩ := hs.unique ht
  rw [hfl, hflr]
  exact Session.mirrored hd none id _ _

/-- An initiator on channel 1 that wants host 2. -/
def toHost2 : Config := ⟨1, 2, 1, 7, .key 2, 0, 0, 5⟩

/-- Two R1 responses are sent; the second one is used. -/
def twoRounds : List Op :=
  [.retransmit false ⟨11, 0, 0⟩, .deliverR 0 8 ⟨12, 13, 14⟩ ⟨true, some (3, []), 0⟩,
    .deliverR 0 8 ⟨0, 0, 15⟩ ⟨true, some (3, []), 0⟩, .deliverI 1 7 ⟨0, 0, 0⟩,
    .deliverR 1 8 ⟨0, 0, 0⟩ ⟨true, some (3, []), 0⟩, .deliverI 2 7 ⟨0, 0, 0⟩]

theorem key_agreement_twoRounds : ∃ (w : World) (chunk : Chunk), w.i.accepted = some chunk ∧
    (∃ e ∈ w.r.created, e.answer = chunk) ∧
      ∀ e ∈ w.r.created, e.answer = chunk → w.i.fl.Mirrored e.flow := by
  have h : (((negotiation toHost2).run (.new toHost2) twoRounds).bind (·.i.accepted)).isSome := by
    decide +kernel
  obtain ⟨chunk, h⟩ := Option.isSome_iff_exists.1 h
  obtain ⟨w, hr, hc⟩ := Option.bind_eq_some_iff.1 h
  exact ⟨w, chunk, hc, key_agreement (Machine.reach_of_run hr) hc⟩

end Sst.Key
