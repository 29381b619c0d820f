import Sst.KeyHost.Steps

/-!
# An initiator by itself

The initiators of a host share its Diffie-Hellman keys, and the stream peer may release its own when
they are done. Otherwise an entry point does with the initiator that it finds what the one of
`World` does with the only one.

* `KeyHost.alone`: the world of one initiator of a host.
* `KeyHost.Follows`: the host and this world after the same entry point.
* **`KeyHost.receive_alone`**, **`KeyHost.retransmit_alone`**: the responses and the timer.
-/

namespace Sst.Key

/-- The message that is sent. -/
def Signal.message : Signal → Option Message
  | sent m => some m
  | _ => none

/-- The messages that an initiator sent, in their order. -/
def Attempt.messages (x : Attempt) : List Message := x.log.reverse.filterMap Signal.message

namespace KeyHost

variable {w : KeyHost} {v : World} {k : ℕ} {x y : Attempt} {r : Rand} {h : Host}

/-- The world of one initiator, in which nothing was sent yet. -/
def alone (w : KeyHost) (x : Attempt) : World :=
  ⟨w.h, x.toKeyInitiator, [], ⟨0, fun _ => none⟩, ⟨[], []⟩, []⟩

/-- `w` has the host keys of `v`; its `k`-th initiator, which was `x`, is that of `v`, or the stream
peer has released it; and it has sent what was sent in `v`. -/
structure Follows (k : ℕ) (x : Attempt) (w : KeyHost) (v : World) : Prop where
  host : w.h = v.h
  initiator : ∃ y, w.objs[k]? = some y ∧ y.messages = x.messages ++ v.sentI ∧
    (y.toKeyInitiator = v.i ∨ x.owned = true ∧ y.toKeyInitiator = v.cancel.i)

/-! ## What the entry points share -/

theorem Follows.refl (hx : w.objs[k]? = some x) : Follows k x w (w.alone x) :=
  ⟨rfl, x, hx, (List.append_nil _).symm, .inl rfl⟩

theorem Follows.of_eq (hf : Follows k y w v) (hl : y.log = x.log) (ho : y.owned = x.owned) :
    Follows k x w v := by
  obtain ⟨hh, z, hz, hm, hi⟩ := hf
  refine ⟨hh, z, hz, ?_, ho ▸ hi⟩
  rw [hm, Attempt.messages, hl]
  rfl

theorem rel_of_eq {o : Option KeyHost} {u : Option World} (hr : Option.Rel (Follows k y) o u)
    (hl : y.log = x.log) (ho : y.owned = x.owned) : Option.Rel (Follows k x) o u := by
  cases hr with
  | none => exact .none
  | some hf => exact .some (hf.of_eq hl ho)

theorem Follows.startTimer (hf : Follows k x w v) : Follows k x (w.startTimer k) v := by
  obtain ⟨hh, y, hy, hm, hi⟩ := hf
  exact ⟨hh, { y with txtimer := true }, modify_get hy _, hm, hi⟩

theorem rel_startTimer {o : Option KeyHost} {u : Option World}
    (hr : Option.Rel (Follows k x) o u) :
    Option.Rel (Follows k x) (o.map (KeyHost.startTimer k)) u := by
  cases hr with
  | none => exact .none
  | some hf => exact .some hf.startTimer

theorem sent_messages (l : List Message) : (l.map Signal.sent).filterMap Signal.message = l := by
  rw [List.filterMap_map]
  exact List.filterMap_some

/-- **A function that only sends.** -/
theorem lift_alone (hx : w.objs[k]? = some x) (F : World → Option World) :
    Option.Rel (Follows k x) (w.lift k F) (F (w.alone x)) := by
  have hlift : w.lift k F = (F (w.alone x)).map fun v =>
      { w with
        h := v.h
        objs := w.objs.set k
          { x with toKeyInitiator := v.i, log := (v.sentI.map .sent).reverse ++ x.log } } := by
    unfold lift
    rw [hx]
    rfl
  rw [hlift]
  cases F (w.alone x) with
  | none => exact .none
  | some v =>
    refine .some ⟨rfl, _, List.getElem?_set_self (List.getElem?_eq_some_iff.1 hx).1, ?_, .inl rfl⟩
    unfold Attempt.messages
    rw [List.reverse_append, List.reverse_reverse, List.filterMap_append, sent_messages]

theorem cancel_host (w : KeyHost) (k : ℕ) : (w.cancel k).h = w.h := by
  unfold cancel
  split <;> rfl

/-- **The end of an initiator**, which its stream peer may release. -/
theorem completed_alone (hy : w.objs[k]? = some y) (hh : w.h = v.h) (ho : y.owned = x.owned)
    (hm : y.messages = x.messages ++ v.sentI) (hi : y.toKeyInitiator = v.i) :
    Follows k x (w.completed k) v := by
  unfold completed
  rw [hy]
  dsimp only
  split_ifs with hown
  · refine ⟨(cancel_host _ k).trans hh, _, release_get hy, hm, .inr ⟨ho ▸ hown, ?_⟩⟩
    rw [World.cancel, ← hi]
  · exact ⟨hh, y, hy, hm, .inl hi⟩

theorem finish_alone (hx : w.objs[k]? = some x) (h : Host) (fl : Flow) (c : Chunk) :
    Follows k x ({ w with h }.finish k x fl c)
      { w.alone x with h, i := x.complete fl c } := by
  refine completed_alone (List.getElem?_set_self (List.getElem?_eq_some_iff.1 hx).1) rfl rfl ?_ rfl
  simp [Attempt.messages, Signal.message, alone]

/-! ## Responses -/

theorem gotChkR1_alone (ht : Tables w) {r1 : ChkR1} {src : Endpoint}
    (hf : w.find (w.initchks (src, r1.cki)) = some (k, x)) :
    Option.Rel (Follows k x) (w.gotChkR1 r1 src r) ((w.alone x).gotChkR1 r1 src r) := by
  obtain ⟨hn, hx⟩ := find_eq_some hf
  have hreg : x.registered = true ∧ x.methChk = true ∧ src = x.sepr ∧ r1.cki = x.chkkey := by
    obtain ⟨z, hz, h1, h2, h3⟩ := ht.chks _ k hn
    obtain rfl := Option.some.inj (hx.symm.trans hz)
    obtain ⟨h3, h4⟩ := Prod.mk.inj h3
    exact ⟨h1, h2, h3, h4⟩
  unfold gotChkR1 World.gotChkR1
  rw [hf]
  dsimp only [alone]
  rw [if_neg (not_not.mpr hreg)]
  split_ifs
  · exact .some (.refl hx)
  · exact .some (.refl hx)
  · exact rel_of_eq (lift_alone (modify_get hx fun x => { x with cookie := r1.cookie }) _) rfl rfl
  · exact .some (finish_alone hx w.h _ _)

theorem gotDhR1_alone (ht : Tables w) {r1 : DhR1}
    (hf : w.find (w.initnhis r1.nhi) = some (k, x)) :
    Option.Rel (Follows k x) (w.gotDhR1 r1 r) ((w.alone x).gotDhR1 r1 r) := by
  obtain ⟨hn, hx⟩ := find_eq_some hf
  have hreg := ht.named hn hx
  unfold gotDhR1 World.gotDhR1
  rw [hf]
  dsimp only [alone]
  simp only [or_iff_right (not_not.mpr hreg)]
  split_ifs with h1 h2 h3 h4 h5
  · exact .some (.refl hx)
  · exact .some (.refl hx)
  · exact .some (.refl hx)
  · exact .some (.refl hx)
  · exact absurd (.inr h5) h1
  · rcases w.h.getDHKey r1.group r with ⟨h, _ | hk⟩
    · exact .none
    · dsimp only
      split_ifs
      · exact lift_alone (w := { w with h }) hx _
      · have hmod := modify_get (w := { w with h }) hx fun x =>
          { x with keylen := r1.keylen, round := x.roundOf h hk r1 }
        exact rel_startTimer (rel_of_eq (lift_alone hmod (·.sendDhI2)) rfl rfl)

theorem gotDhR2_alone (ht : Tables w) {r2 : DhR2}
    (hf : w.find (w.initnhis r2.nhi) = some (k, x)) :
    Option.Rel (Follows k x) (w.gotDhR2 r2 r) ((w.alone x).gotDhR2 r2 r) := by
  obtain ⟨hn, hx⟩ := find_eq_some hf
  have hreg := ht.named hn hx
  unfold gotDhR2 World.gotDhR2
  rw [hf]
  dsimp only [alone]
  simp only [or_iff_right (not_not.mpr hreg)]
  split_ifs
  · exact .some (.refl hx)
  · cases x.round with
    | none => exact .some (.refl hx)
    | some d =>
      dsimp only
      rcases w.h.getDHKey x.dhgroup r with ⟨h, _ | hk⟩
      · exact .none
      · dsimp only
        split_ifs
        · exact lift_alone (w := { w with h }) hx _
        · cases x.flowR2 h hk d r2 with
          | none => exact .some (.refl (w := { w with h }) hx)
          | some fl => exact .some (finish_alone hx h fl _)

/-- The initiator that a response is handed to. -/
def handedTo (w : KeyHost) (m : Message) (src : Endpoint) : Option (ℕ × Attempt) :=
  match m with
  | .chkR1 d :: _ => w.find (w.initchks (src, d.cki))
  | .dhR1 d :: _ => w.find (w.initnhis d.nhi)
  | .dhR2 d :: _ => w.find (w.initnhis d.nhi)
  | _ => none

/-- **A response** does with the initiator that it is handed to what it does with a lone one. -/
theorem receive_alone (ht : Tables w) {m : Message} {src : Endpoint}
    (hm : w.handedTo m src = some (k, x)) (order : List ℕ) :
    Option.Rel (Follows k x) (w.receive m src order r) ((w.alone x).receiveI m src r) := by
  cases m with
  | nil => cases hm
  | cons c m =>
    cases c with
    | chkR1 d => exact gotChkR1_alone ht hm
    | dhR1 d => exact gotDhR1_alone ht hm
    | dhR2 d => exact gotDhR2_alone ht hm
    | _ => cases hm

/-! ## The timer -/

/-- **The timer** of an initiator does with it what it does with a lone one. -/
theorem retransmit_alone (hx : w.objs[k]? = some x) (fail : Bool) :
    Option.Rel (Follows k x) (w.retransmit k x fail r) ((w.alone x).retransmit fail r) := by
  unfold retransmit World.retransmit
  split_ifs
  · refine .some (completed_alone (modify_get hx _) rfl rfl ?_ rfl)
    simp [Attempt.messages, Signal.message, alone]
  · dsimp only [alone]
    cases x.state with
    | i1 => exact lift_alone hx _
    | i2 => exact lift_alone hx _
    | done => exact .some (.refl hx)

end KeyHost

end Sst.Key
