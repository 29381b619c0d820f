import Sst.Strm.Act

/-!
# Functions as sequences of acts

What each function of a peer does is a sequence of elementary acts, and the calls that it leaves to
be made write to no root stream.

* `Frame.Sound`: a call that may be left.
* `Leads P w r`: from `w` a function leads to the state and the calls `r` by acts that meet `P`.
* **`Peer.tattach_leads`**, `txenqflow_leads`: attaching and queueing.
-/

namespace Sst.Strm

/-- A call that writes to no root stream, and makes no root stream the application's. -/
def Frame.Sound : Frame → Prop
  | .writeData s .. | .bindStream s => ∃ n, s = .sub n
  | _ => True

theorem BaseStream.callback_sound (b : BaseStream) : ∀ fr ∈ b.callback, fr.Sound := by
  intro fr h
  unfold callback at h
  split_ifs at h
  · rw [List.mem_singleton.mp h]
    trivial
  · cases h

/-- From `w` a function leads to `r` by acts that meet `P`. -/
structure Leads (P : Act → Prop) (w : Peer) (r : Peer × List Frame) : Prop where
  steps : Steps P w r.1
  frames : ∀ fr ∈ r.2, fr.Sound

namespace Leads

variable {P Q : Act → Prop} {w w' : Peer} {r r' : Peer × List Frame}

theorem silent (h : Steps P w w') : Leads P w (w', []) :=
  ⟨h, fun _ hfr => (nomatch hfr)⟩

theorem stay : Leads P w (w, []) := silent .refl

theorem callback (h : Steps P w w') (b : BaseStream) : Leads P w (w', b.callback) :=
  ⟨h, b.callback_sound⟩

theorem after (h : Steps P w w') (h' : Leads P w' r) : Leads P w r :=
  ⟨h.trans h'.steps, h'.frames⟩

theorem seq (h : Leads P w r) (h' : Leads P r.1 r') : Leads P w (r'.1, r.2 ++ r'.2) :=
  ⟨h.steps.trans h'.steps, fun fr hfr => (List.mem_append.mp hfr).elim (h.frames fr) (h'.frames fr)⟩

theorem append {frames : List Frame} (h : Leads P w r) (h' : ∀ fr ∈ frames, fr.Sound) :
    Leads P w (r.1, r.2 ++ frames) := by
  have hlast : Leads P r.1 (r.1, frames) := ⟨.refl, h'⟩
  exact h.seq hlast

theorem mono (hPQ : ∀ a, P a → Q a) (h : Leads P w r) : Leads Q w r :=
  ⟨h.steps.mono hPQ, h.frames⟩

end Leads

theorem Slight.of {g : BaseStream → BaseStream} (h : ∀ b, (g b).kept = b.kept)
    (hr : ∀ b, (g b).rsubs = b.rsubs) (hs : ∀ b, (g b).strm = b.strm)
    (ha : ∀ b, (g b).state = b.state) : Slight g :=
  ⟨h, fun b => by rw [hr]; exact List.Subset.refl _, fun b hb => by rwa [hs] at hb,
    fun b hb => by rwa [ha] at hb⟩

theorem Slight.state {st : StreamState} (h : st ≠ .accepting) :
    Slight fun b => { b with state := st } :=
  ⟨fun _ => rfl, fun _ => List.Subset.refl _, fun _ h => h, fun _ h' => absurd h' h⟩

namespace Peer

variable {w w' : Peer} {f ctr : ℕ} {s t : StrmId} {i : Fin 2}

/-! ## Effects of attaching -/

theorem joinFlow_streams (w : Peer) (f ctr : ℕ) (s t : StrmId) (i : Fin 2) :
    (w.joinFlow f s ctr i).streams t = if t = s then
      { w.streams s with
        tatt := Function.update (w.streams s).tatt i
          (some ⟨f, ctr % 2 ^ 16, maxPacketSeq, false⟩)
        tcuratt := some i } else w.streams t := by
  simp only [joinFlow, setAttaching, modStream_streams, modFlow_streams]
  split_ifs <;> rfl

theorem joinFlow_flows (w : Peer) (f ctr k : ℕ) (s : StrmId) (i : Fin 2) :
    (w.joinFlow f s ctr i).flows k = if k = f then
      { w.flows f with
        txctr := ctr + 1
        txsids := (w.flows f).txsids.insert (ctr % 2 ^ 16) (s, i) } else w.flows k := by
  simp only [joinFlow, setAttaching, modStream_flows, modFlow_flows]
  split_ifs <;> rfl

theorem setUsid_streams (w : Peer) (s t : StrmId) (u : Usid) :
    (w.setUsid s u).streams t =
      if t = s then { w.streams s with usid := some u } else w.streams t :=
  modStream_streams w s t fun b => { b with usid := some u }

@[simp] theorem setUsid_flows (w : Peer) (s : StrmId) (u : Usid) :
    (w.setUsid s u).flows = w.flows := rfl

theorem takeName_streams (w : Peer) (f ctr : ℕ) (s t : StrmId) :
    (w.takeName f s ctr).streams t = if t = s ∧ (w.streams s).usid = none then
      { w.streams s with usid := some ⟨ctr, (w.flows f).txChannelId⟩ } else w.streams t := by
  unfold takeName
  by_cases hu : (w.streams s).usid = none
  · rw [if_pos hu, setUsid_streams]
    simp only [hu, and_true]
  · rw [if_neg hu, if_neg fun h => hu h.2]

@[simp] theorem takeName_flows (w : Peer) (f ctr : ℕ) (s : StrmId) :
    (w.takeName f s ctr).flows = w.flows := by
  unfold takeName
  split_ifs <;> rfl

theorem Attached.of_slots {a : TxAttachment} (h : w.Attached s f i a)
    (hs : (w'.streams s).toSlots = (w.streams s).toSlots) : w'.Attached s f i a := by
  obtain ⟨h1, h2, h3⟩ := h
  refine ⟨?_, ?_, h3⟩
  · rw [hs]
    exact h1
  · rw [hs]
    exact h2

theorem takeName_slots (w : Peer) (f ctr : ℕ) (s t : StrmId) :
    ((w.takeName f s ctr).streams t).toSlots = (w.streams t).toSlots := by
  rw [takeName_streams]
  split_ifs with h
  · rw [h.1]
  · rfl

theorem attached_joined : ((w.joinFlow f s ctr i).takeName f s ctr).Attached s f i
    ⟨f, ctr % 2 ^ 16, maxPacketSeq, false⟩ := by
  have h : (w.joinFlow f s ctr i).Attached s f i ⟨f, ctr % 2 ^ 16, maxPacketSeq, false⟩ := by
    have hs := joinFlow_streams w f ctr s s i
    rw [if_pos rfl] at hs
    refine ⟨?_, ?_, rfl⟩ <;> rw [hs]
    exact Function.update_self ..
  exact h.of_slots (takeName_slots ..)

theorem curatt_eq {a : TxAttachment} :
    (w.streams s).curatt = some a ↔ ∃ i, (w.streams s).tcuratt = some i ∧
      (w.streams s).tatt i = some a :=
  Option.bind_eq_some_iff

/-! ## Getting in line -/

theorem queueOn_for (h : ∃ i a, w.Attached s f i a) : Leads (Act.For s) w (w.queueOn f s) := by
  unfold queueOn
  dsimp only
  split_ifs with h1 h2
  · exact .stay
  · exact .callback .refl _
  · exact .silent (.single (a := .line f s) rfl ⟨h, Bool.eq_false_iff.mpr h1, h2⟩)

theorem queueOn_leads (h : ∃ i a, w.Attached s f i a) : Leads Act.Minor w (w.queueOn f s) :=
  (queueOn_for h).mono fun _ => Act.For.minor

theorem misc_steps (w : Peer) (s : StrmId) {g : BaseStream → BaseStream} (h : Slight g) :
    Steps Act.Minor w (w.modStream s g) :=
  .single (a := .misc s g) trivial h

theorem mark_steps (w : Peer) (s : StrmId) (g : BaseStream → BaseStream)
    (h : ∀ b, (g b).kept = b.kept := by exact fun _ => rfl)
    (hr : ∀ b, (g b).rsubs = b.rsubs := by exact fun _ => rfl)
    (hs : ∀ b, (g b).strm = b.strm := by exact fun _ => rfl)
    (ha : ∀ b, (g b).state = b.state := by exact fun _ => rfl) :
    Steps Act.Minor w (w.modStream s g) :=
  misc_steps w s (.of h hr hs ha)

theorem signal_steps {waiters : List StrmId} {stallcount : ℕ} {fault : Bool} :
    Steps Act.Minor w { w with waiters := waiters, stallcount := stallcount, fault := fault } :=
  .single (a := .signal waiters stallcount fault) trivial trivial

theorem attachTo_leads (hf : w.flow = some f) (hc : (w.streams s).tcuratt = none)
    (hl : (w.streams s).live = true) : Leads Act.Minor w (w.attachTo f s) := by
  unfold attachTo
  split
  · rename_i ctr i hctr hi
    refine .after (.single (a := .attach f s ctr i) trivial ⟨hf, hc, hl, hctr, hi⟩) ?_
    refine (queueOn_leads ⟨_, _, attached_joined⟩).append fun fr hfr => ?_
    rw [List.mem_singleton.mp hfr]
    trivial
  · exact .silent signal_steps

theorem attachUnder_leads {p : StrmId} (hf : w.flow = some f) (hc : (w.streams s).tcuratt = none)
    (hl : (w.streams s).live = true) : Leads Act.Minor w (w.attachUnder f s p) := by
  unfold attachUnder
  split
  · refine ⟨mark_steps w p fun b =>
      { b with listeners := if s ∈ b.listeners then b.listeners else b.listeners ++ [s] },
      fun fr hfr => ?_⟩
    rw [List.mem_singleton.mp hfr]
    trivial
  · rename_i u _
    refine .after (mark_steps w s fun b => { b with pusid := some u }) (attachTo_leads hf ?_ ?_)
    · rw [modStream_self]
      exact hc
    · rw [modStream_self]
      exact hl

theorem disconnect_leads (w : Peer) (s : StrmId) : Leads Act.Minor w (w.disconnect s) :=
  .callback (misc_steps w s (.state (by decide))) _

/-- **Attaching** is a sequence of minor acts. -/
theorem tattach_leads (w : Peer) (s : StrmId) : Leads Act.Minor w (w.tattach s) := by
  unfold tattach
  dsimp only
  split
  · exact .stay
  rename_i h
  simp only [Bool.or_eq_true, not_or, Bool.not_eq_true, Option.isSome_eq_false_iff,
    Option.isNone_iff_eq_none, Bool.not_eq_false', decide_eq_true_eq] at h
  obtain ⟨⟨hc, -⟩, hl⟩ := h
  split
  · exact .silent signal_steps
  · rename_i f hf
    split
    · split
      · exact attachUnder_leads hf hc hl
      · rename_i ht
        refine .after (.single (a := .adopt f s) trivial ⟨ht, .inl hc⟩)
          (attachUnder_leads hf ?_ ?_)
        · rw [apply, modStream_self]
          exact hc
        · rw [apply, modStream_self]
          exact hl
      · exact disconnect_leads w s
    · exact attachTo_leads hf hc hl

theorem txenqflow_leads (w : Peer) (s : StrmId) (immed : Bool) :
    Leads Act.Minor w (w.txenqflow s immed) := by
  unfold txenqflow
  split
  · exact tattach_leads w s
  · rename_i a ha
    obtain ⟨i, h1, h2⟩ := curatt_eq.mp ha
    refine (queueOn_leads ⟨i, a, h1, h2, rfl⟩).append fun fr hfr => ?_
    cases immed with
    | false => cases hfr
    | true =>
      rw [List.mem_singleton.mp hfr]
      trivial

end Peer

end Sst.Strm
