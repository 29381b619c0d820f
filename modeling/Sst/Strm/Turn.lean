import Sst.Strm.Steps

/-!
# A turn to transmit

A stream at the head of the line of its flow sends at most one packet, and gets in line again if it
has more.

* `SendsOnce`: at most one transmission, and the stream's own acts around it.
* **`Peer.readyTransmit_turn`**: what `readyTransmit` does is a pick and one such sequence.
-/

namespace Sst.Strm

/-- A transmission of the stream `s` on the flow `f`. -/
def Act.Sends (f : ℕ) (s : StrmId) (forced : Bool) : Act → Prop
  | .sendData f' s' _ _ _ _ _ forced' | .sendDatagram f' s' _ _ _ forced'
  | .sendAttach f' s' _ _ forced' => f' = f ∧ s' = s ∧ forced' = forced
  | _ => False

/-- A packet that names a stream bears a position that fits in 16 bits. -/
def Act.Short : Act → Prop
  | .sendData _ _ _ p _ type _ _ => type ≠ .data → p.tsn ≤ 0xffff
  | _ => True

/-- The stream `s` sends at most one packet. -/
def SendsOnce (f : ℕ) (s : StrmId) (forced : Bool) (w w' : Peer) : Prop :=
  ∃ w₁ w₂, Steps (Act.For s) w w₁ ∧
    (w₁ = w₂ ∨ ∃ a : Act, a.Sends f s forced ∧ w₁.Admits a ∧ w₁.apply a = w₂) ∧
    Steps (Act.For s) w₂ w'

/-- What a stream with its turn leads to. -/
def TakesTurn (f : ℕ) (s : StrmId) (forced : Bool) (w : Peer) (r : Peer × List Frame) : Prop :=
  SendsOnce f s forced w r.1 ∧ ∀ fr ∈ r.2, fr.Sound

/-- A transmission of the stream `s` on the flow `f`; a packet that names a stream bears a position
of 16 bits. -/
def Act.SendsShort (f : ℕ) (s : StrmId) (forced : Bool) (a : Act) : Prop :=
  a.Sends f s forced ∧ a.Short

/-- What a stream with its turn leads to, with the position that it sends. -/
def TakesShortTurn (f : ℕ) (s : StrmId) (forced : Bool) (w : Peer) (r : Peer × List Frame) : Prop :=
  (∃ w₁ w₂, Steps (Act.For s) w w₁ ∧
    (w₁ = w₂ ∨ ∃ a : Act, a.SendsShort f s forced ∧ w₁.Admits a ∧ w₁.apply a = w₂) ∧
    Steps (Act.For s) w₂ r.1) ∧ ∀ fr ∈ r.2, fr.Sound

namespace TakesShortTurn

variable {f : ℕ} {s : StrmId} {forced : Bool} {w w' : Peer} {r : Peer × List Frame}

theorem turn (h : TakesShortTurn f s forced w r) : TakesTurn f s forced w r := by
  obtain ⟨⟨w₁, w₂, h1, h2, h3⟩, hfr⟩ := h
  exact ⟨⟨w₁, w₂, h1, h2.imp_right fun ⟨a, ha, hadm, hw⟩ => ⟨a, ha.1, hadm, hw⟩, h3⟩, hfr⟩

theorem idle (h : Leads (Act.For s) w r) : TakesShortTurn f s forced w r :=
  ⟨⟨w, w, .refl, .inl rfl, h.steps⟩, h.frames⟩

theorem sent {a : Act} (ha : a.SendsShort f s forced) (hw : w.Admits a)
    (h : Leads (Act.For s) (w.apply a) r) : TakesShortTurn f s forced w r :=
  ⟨⟨w, w.apply a, .refl, .inr ⟨a, ha, hw, rfl⟩, h.steps⟩, h.frames⟩

theorem after (h : Steps (Act.For s) w w') (h' : TakesShortTurn f s forced w' r) :
    TakesShortTurn f s forced w r := by
  obtain ⟨⟨w₁, w₂, h1, h2, h3⟩, hfr⟩ := h'
  exact ⟨⟨w₁, w₂, h.trans h1, h2, h3⟩, hfr⟩

theorem append {frames : List Frame} (h : TakesShortTurn f s forced w r)
    (h' : ∀ fr ∈ frames, fr.Sound) : TakesShortTurn f s forced w (r.1, r.2 ++ frames) :=
  ⟨h.1, fun fr hfr => (List.mem_append.mp hfr).elim (h.2 fr) (h' fr)⟩

end TakesShortTurn

namespace Peer

variable {w : Peer} {f n : ℕ} {s q t : StrmId} {i : Fin 2} {a : TxAttachment} {p : Packet}
  {rest : List Packet} {type : PacketType} {wire : Wire} {forced : Bool}

/-! ## What a transmission keeps -/

theorem startflight_streams (w : Peer) (f n : ℕ) (s t : StrmId) :
    (w.startflight f s n).streams t = if t = s then
      { w.streams s with tflt := Word.wrap 32 ((w.streams s).tflt + n) } else w.streams t :=
  modStream_streams w s t fun b => { b with tflt := Word.wrap 32 (b.tflt + n) }

theorem setQueue_streams (w : Peer) (s t : StrmId) (rest : List Packet) :
    (w.setQueue s rest).streams t =
      if t = s then { w.streams s with tqueue := rest } else w.streams t :=
  modStream_streams w s t fun b => { b with tqueue := rest }

@[simp] theorem startflight_flows (w : Peer) (f n : ℕ) (s : StrmId) :
    (w.startflight f s n).flows = w.flows := rfl

@[simp] theorem setQueue_flows (w : Peer) (s : StrmId) (rest : List Packet) :
    (w.setQueue s rest).flows = w.flows := rfl

@[simp] theorem awaitAck_streams (w : Peer) (f : ℕ) (p : Packet) :
    (w.awaitAck f p).streams = w.streams := rfl

@[simp] theorem flowTransmit_streams (w : Peer) (f : ℕ) (s : StrmId) (wire : Wire)
    (forced : Bool) : (w.flowTransmit f s wire forced).streams = w.streams := rfl

theorem startflight_slots (w : Peer) (f n : ℕ) (s t : StrmId) :
    ((w.startflight f s n).streams t).toSlots = (w.streams t).toSlots := by
  rw [startflight_streams]
  split_ifs with h
  · rw [h]
  · rfl

theorem setQueue_slots (w : Peer) (s t : StrmId) (rest : List Packet) :
    ((w.setQueue s rest).streams t).toSlots = (w.streams t).toSlots := by
  rw [setQueue_streams]
  split_ifs with h
  · rw [h]
  · rfl

theorem sends_slots {act : Act} (h : act.Sends f s forced) (t : StrmId) :
    ((w.apply act).streams t).toSlots = (w.streams t).toSlots := by
  cases act with
  | sendData => exact (setQueue_slots ..).trans (startflight_slots ..)
  | sendDatagram f' => exact (startflight_slots _ f' ..).trans (setQueue_slots ..)
  | sendAttach => rfl
  | _ => exact h.elim

/-! ## The kinds of packets -/

theorem queued_turn {act : Act} (hatt : w.Attached s f i a) (h : act.SendsShort f s forced)
    (hw : w.Admits act) : TakesShortTurn f s forced w ((w.apply act).queueOn f s) :=
  .sent h hw (queueOn_for ⟨i, a, hatt.of_slots (sends_slots h.1 s)⟩)

theorem txData_turn (hatt : w.Attached s f i a) (hshort : type ≠ .data → p.tsn ≤ 0xffff)
    (hw : w.Admits (.sendData f s q p rest type wire forced)) :
    TakesShortTurn f s forced w (((w.startflight f q p.payload.length).setQueue s rest).txData f s
      { p with header := type } wire forced) := by
  unfold txData
  dsimp only
  split
  · exact .sent (a := .sendData f s q p rest type wire forced) ⟨⟨rfl, rfl, rfl⟩, hshort⟩ hw
      (.callback .refl _)
  · have hsend : (Act.sendData f s q p rest type wire forced).SendsShort f s forced :=
      ⟨⟨rfl, rfl, rfl⟩, hshort⟩
    exact queued_turn hatt hsend hw

theorem txAttach_turn (hsub : ∃ n, s = .sub n) (hatt : w.Attached s f i a)
    (ht : w.Turn f forced) : TakesShortTurn f s forced w (w.txAttach f s a i forced) :=
  .sent (a := .sendAttach f s _ _ forced) ⟨⟨rfl, rfl, rfl⟩, trivial⟩
    ⟨hsub, i, a, hatt, ht, rfl, rfl, rfl⟩ .stay

theorem txDatagram_turn (hatt : w.Attached s f i a) (ht : w.Turn f forced)
    (hq : (w.streams s).tqueue = p :: rest) (htype : p.type = .datagram) (hends : p.ends = true) :
    TakesShortTurn f s forced w (w.txDatagram f s a forced) := by
  have hf : w.txFragments f s a forced (w.streams s).tqueue =
      w.apply (.sendDatagram f s p rest (.datagram a.sid p.begins p.ends p.payload) forced) := by
    rw [hq, txFragments, if_pos hends]
    rfl
  unfold txDatagram
  rw [hf]
  exact queued_turn hatt ⟨⟨rfl, rfl, rfl⟩, trivial⟩ ⟨i, a, hatt, hq, htype, ht, rfl⟩

theorem transmitAttach_turn (hsub : ∃ n, s = .sub n) (hatt : w.Attached s f i a)
    (ht : w.Turn f forced) (hq : (w.streams s).tqueue = p :: rest) (htype : p.type = .data)
    (hack : a.isAcked = false) (hshort : p.tsn ≤ 0xffff) :
    TakesShortTurn f s forced w (w.transmitAttach f s p rest a i forced) := by
  unfold transmitAttach
  -- The parent of a top-level stream is the root of the flow that it is attached to.
  have hadopt : ∃ w', Steps (Act.For s) w w' ∧ w'.Attached s f i a ∧ w'.Turn f forced ∧
      (w'.streams s).tqueue = p :: rest ∧
      (if (w.streams s).toplev then
        w.modStream s fun b => { b with parent := some (.root f) } else w) = w' := by
    split
    · rename_i htop
      refine ⟨_, .single (a := .adopt f s) rfl ⟨htop, .inr ⟨i, a, hatt⟩⟩, ?_, ht, ?_, rfl⟩
      · refine hatt.of_slots ?_
        rw [apply, modStream_self]
      · rw [apply, modStream_self]
        exact hq
    · exact ⟨w, .refl, hatt, ht, hq, rfl⟩
  obtain ⟨w', hsteps, hatt', ht', hq', heq⟩ := hadopt
  rw [heq]
  refine .after hsteps ?_
  dsimp only
  split
  · rename_i q pa hpa
    exact txData_turn hatt' (fun _ => hshort)
      ⟨i, a, hatt', hq', htype, ht', .inl ⟨rfl, hack, pa, hpa, rfl⟩⟩
  split
  · exact txAttach_turn hsub hatt' ht'
  split
  · rename_i ra hra
    exact txData_turn hatt' (fun _ => hshort)
      ⟨i, a, hatt', hq', htype, ht', .inr (.inl ⟨rfl, rfl, hack, ra, hra, rfl⟩)⟩
  · exact txAttach_turn hsub hatt' ht'

theorem transmitHead_turn (hsub : ∃ n, s = .sub n) (hatt : w.Attached s f i a)
    (ht : w.Turn f forced)
    (hown : ∀ p ∈ (w.streams s).tqueue, p.type = .data ∨ p.type = .datagram ∧ p.ends = true) :
    TakesShortTurn f s forced w (w.transmitHead f s a i forced) := by
  unfold transmitHead
  split
  · exact .idle (.callback .refl _)
  rename_i p rest hq
  have hp := hown p (by rw [hq]; exact List.mem_cons_self)
  split
  · rename_i hack
    split
    · rename_i htype
      obtain hp | ⟨-, hends⟩ := hp
      · rw [hp] at htype
        cases htype
      · exact txDatagram_turn hatt ht hq htype hends
    · rename_i htype
      exact txData_turn hatt (fun h => absurd rfl h) ⟨i, a, hatt, hq,
        hp.resolve_right fun h => htype h.1, ht, .inr (.inr ⟨rfl, rfl, hack, rfl⟩)⟩
  · rename_i hack
    split
    · rename_i h
      simp only [Bool.and_eq_true, decide_eq_true_eq] at h
      exact transmitAttach_turn hsub hatt ht hq h.1 (Bool.eq_false_iff.mpr hack) h.2
    · exact txAttach_turn hsub hatt ht

/-! ## The turn -/

theorem pick_streams (w : Peer) (f : ℕ) (s t : StrmId) (rest : List StrmId) :
    (w.apply (.pick f s rest)).streams t =
      if t = s then { w.streams s with tqflow := false }.collect else w.streams t := by
  rw [apply, modStream_streams]
  rfl

theorem pick_flows (w : Peer) (f k : ℕ) (s : StrmId) (rest : List StrmId) :
    (w.apply (.pick f s rest)).flows k =
      if k = f then { w.flows f with tstreams := rest } else w.flows k :=
  modFlow_flows w f k fun x => { x with tstreams := rest }

/-- **A turn.** What `readyTransmit` does on a flow with streams in line is to pick the first, which
sends at most one packet. -/
theorem readyTransmit_turn {rest : List StrmId} (hrest : (w.flows f).tstreams = s :: rest)
    (hsub : ∃ n, s = .sub n) (hatt : w.Attached s f i a) (ht : w.Turn f forced)
    (hown : ∀ p ∈ (w.streams s).tqueue, p.type = .data ∨ p.type = .datagram ∧ p.ends = true) :
    TakesShortTurn f s forced (w.apply (.pick f s rest)) (w.readyTransmit f forced) := by
  have hs := pick_streams w f s s rest
  rw [if_pos rfl] at hs
  have hatt' : (w.apply (.pick f s rest)).Attached s f i a := hatt.of_slots (by rw [hs]; rfl)
  have ht' : (w.apply (.pick f s rest)).Turn f forced := by
    have hm : ((w.apply (.pick f s rest)).flows f).mayTransmit = (w.flows f).mayTransmit := by
      rw [pick_flows, if_pos rfl]
      rfl
    unfold Turn
    rwa [hm]
  have hown' : ∀ p ∈ ((w.apply (.pick f s rest)).streams s).tqueue,
      p.type = .data ∨ p.type = .datagram ∧ p.ends = true := by
    rw [hs]
    exact fun p hp => hown p ((List.dropWhile_suffix _).subset hp)
  have hturn := transmitHead_turn hsub hatt' ht' hown'
  obtain ⟨hcur, hslot, -⟩ := hatt'
  have heq : (w.modFlow f fun x => { x with tstreams := rest }).transmit f s forced =
      (w.apply (.pick f s rest)).transmitHead f s a i forced := by
    have hcuratt : ((w.apply (.pick f s rest)).streams s).curatt = some a :=
      curatt_eq.mpr ⟨i, hcur, hslot⟩
    have hpick : (w.modFlow f fun x => { x with tstreams := rest }).modStream s (fun b =>
        { b with tqflow := false }.collect) = w.apply (.pick f s rest) := rfl
    unfold transmit
    rw [hpick]
    dsimp only
    rw [hcur, hcuratt]
  unfold readyTransmit
  rw [hrest]
  dsimp only
  rw [heq]
  refine hturn.append fun fr hfr => ?_
  rw [List.mem_singleton.mp hfr]
  trivial

end Peer

end Sst.Strm
