import Sst.KeyHost.Initiators
import Mathlib.Logic.Relation

/-!
# Elementary steps of the initiators

* `Attempt.Act`: the actions of one initiator.
* `Tables`: the tables of the host name registered initiators under their own keys.
* `KeyHost.Micro`, `KeyHost.Path`: the elementary steps and their sequences.
* **`KeyHost.step_cases`**: every operation, except on a responder, is such a sequence.
-/

namespace Sst.Key

open Symbolic Transition

/-! ## One initiator -/

/-- What identifies an initiator: the tables that it is in, and its keys. -/
structure Attempt.Same (x y : Attempt) : Prop where
  registered : y.registered = x.registered
  removed : y.removed = x.removed
  sepr : y.sepr = x.sepr
  methChk : y.methChk = x.methChk
  methAes : y.methAes = x.methAes
  chkkey : y.chkkey = x.chkkey
  ni : y.ni = x.ni
  nhi : y.nhi = x.nhi

theorem Attempt.Same.of_eq {x y : Attempt} (h : y.toKeyInitiator = x.toKeyInitiator)
    (hr : y.removed = x.removed) : x.Same y := by
  refine ⟨?_, hr, ?_, ?_, ?_, ?_, ?_, ?_⟩ <;> rw [h]

/-- **The actions of an initiator.** -/
inductive Attempt.Act (x y : Attempt) : Prop
  | tune (hi : x.Same y) (hs : y.state = x.state) (he : y.early = x.early) (hl : y.log = x.log)
      (ht : x.state = .done → x.txtimer = false → y.txtimer = false)
  | sendI1 (hd : x.state ≠ .done) (hi : x.Same y) (hs : y.state = .i1)
      (he : y.early = (x.early && !x.methChk)) (m : Message) (hl : y.log = .sent m :: x.log)
      (hm : ∀ c ∈ m, KeyHost.Founding c → x.methChk = true ∧ ∃ d, c = .chkI1 d)
  | sendDhI2 (hd : x.state ≠ .done) (hr : x.registered = true ∨ x.state = .i2) (hi : x.Same y)
      (hs : y.state = .i2) (he : y.early = false) (d : DhI2) (hl : y.log = .sent [.dhI2 d] :: x.log)
  | finish (hd : x.state ≠ .done) (hi : x.Same y) (hs : y.state = .done) (he : y.early = x.early)
      (ht : y.txtimer = false) (hl : y.log = .completed true :: .started :: .armed :: x.log)
  | fail (hd : x.state ≠ .done) (hi : x.Same y) (hs : y.state = .done) (he : y.early = x.early)
      (ht : y.txtimer = false) (hl : y.log = .completed false :: x.log)
  | remove (he : x.early = true) (hr : x.registered = false) (h : y = { x with removed := true })

namespace KeyHost

/-! ## Elementary steps -/

/-- The initiator in a new object is new to the tables. -/
structure Fresh (w : KeyHost) (x : Attempt) : Prop where
  new : ∃ (chan : Channel) (sepr : Endpoint) (idr : Ident) (dhgroup : ℕ) (chkkey : UInt32)
    (nonce sock : ℕ), x = .new (.new chan sepr idr dhgroup chkkey nonce) sock
  state : x.state ≠ .done
  chks : x.methChk = true → w.initchks (x.sepr, x.chkkey) = none
  nhis : x.methAes = true → w.initnhis x.nhi = none
  nonces : x.ni ∉ w.nonces

/-- **The elementary steps** on the initiators of a host. -/
inductive Micro (w : KeyHost) : KeyHost → Prop
  | frame (h : Host) (initors : List (SocketEndpoint × ℕ)) (up : Bool) :
      Micro w { w with h, initors, up }
  | act (k : ℕ) (x y : Attempt) (hx : w.objs[k]? = some x) (h : x.Act y) :
      Micro w { w with objs := w.objs.set k y }
  | cancel (k : ℕ) : Micro w (w.cancel k)
  | create (x y : Attempt) (hx : Fresh w x) (hi : x.Same y) (hs : y.state = .i1)
      (he : y.early = (x.early && !x.methChk)) (m : Message) (hl : y.log = [.sent m])
      (hm : ∀ c ∈ m, Founding c → x.methChk = true ∧ ∃ d, c = .chkI1 d) :
      Micro w { w.register x with objs := w.objs ++ [y] }
  | unknown (chan : Channel) (sepr : Endpoint) (dhgroup : ℕ) (chkkey : UInt32) (nonce sock : ℕ) :
      Micro w { w with objs := w.objs ++ [{
        Attempt.new (.new chan sepr .null dhgroup chkkey nonce) sock with
        log := [.completed false] }] }

/-- A sequence of elementary steps. -/
def Path : KeyHost → KeyHost → Prop := Relation.ReflTransGen Micro

theorem Path.refl {w : KeyHost} : Path w w := Relation.ReflTransGen.refl

theorem Path.trans {u v w : KeyHost} (h₁ : Path u v) (h₂ : Path v w) : Path u w :=
  Relation.ReflTransGen.trans h₁ h₂

theorem Micro.path {v w : KeyHost} (h : Micro v w) : Path v w := Relation.ReflTransGen.single h

theorem Path.invariant {P : KeyHost → Prop} (hP : ∀ v w, Micro v w → P v → P w) {v w : KeyHost}
    (h : Path v w) (hv : P v) : P w := by
  induction h with
  | refl => exact hv
  | tail _ hm ih => exact hP _ _ hm ih

/-! ## The tables -/

/-- The pointer names an initiator with a property. -/
def Named (objs : List Attempt) (k : ℕ) (P : Attempt → Prop) : Prop :=
  ∃ x, objs[k]? = some x ∧ P x

/-- **The tables name registered initiators** under their own keys. -/
structure Tables (w : KeyHost) : Prop where
  chks : ∀ key k, w.initchks key = some k →
    Named w.objs k fun x => x.registered = true ∧ x.methChk = true ∧ key = (x.sepr, x.chkkey)
  nhis : ∀ n k, w.initnhis n = some k →
    Named w.objs k fun x => x.registered = true ∧ x.methAes = true ∧ n = x.nhi
  eps : ∀ ep k, k ∈ w.initeps ep →
    Named w.objs k fun x => x.registered = true ∧ ep = x.sepr

variable {w w' : KeyHost} {j k : ℕ} {x y : Attempt} {r : Rand} {objs : List Attempt}
  {P Q : Attempt → Prop}

theorem Named.mono (h : Named objs k P) (hPQ : ∀ x, P x → Q x) : Named objs k Q := by
  obtain ⟨x, hx, hP⟩ := h
  exact ⟨x, hx, hPQ x hP⟩

theorem Named.set (h : Named objs j P) (hx : objs[k]? = some x) (hP : j = k → P x → P y) :
    Named (objs.set k y) j P := by
  obtain ⟨z, hz, hPz⟩ := h
  obtain ⟨hk, -⟩ := List.getElem?_eq_some_iff.1 hx
  rcases eq_or_ne j k with rfl | hne
  · rw [hx] at hz
    obtain rfl := Option.some.inj hz
    exact ⟨y, List.getElem?_set_self hk, hP rfl hPz⟩
  · exact ⟨z, (List.getElem?_set_ne hne.symm).trans hz, hPz⟩

theorem Named.append (h : Named objs k P) (x : Attempt) : Named (objs ++ [x]) k P := by
  obtain ⟨z, hz, hP⟩ := h
  exact ⟨z, (List.getElem?_append_left (List.getElem?_eq_some_iff.1 hz).1).trans hz, hP⟩

theorem Tables.set (h : Tables w) (hx : w.objs[k]? = some x) (hr : y.registered = x.registered)
    (hs : y.sepr = x.sepr) (hc : y.methChk = x.methChk) (ha : y.methAes = x.methAes)
    (hck : y.chkkey = x.chkkey) (hn : y.nhi = x.nhi) :
    Tables { w with objs := w.objs.set k y } := by
  refine ⟨fun key j hj => (h.chks key j hj).set hx fun _ hP => ?_,
    fun n j hj => (h.nhis n j hj).set hx fun _ hP => ?_,
    fun ep j hj => (h.eps ep j hj).set hx fun _ hP => ?_⟩
  · rw [hr, hc, hs, hck]
    exact hP
  · rw [hr, ha, hn]
    exact hP
  · rw [hr, hs]
    exact hP

theorem Tables.act (h : Tables w) (hx : w.objs[k]? = some x) (ha : x.Act y) :
    Tables { w with objs := w.objs.set k y } := by
  have hsame : x.Same y → Tables { w with objs := w.objs.set k y } := fun hi =>
    h.set hx hi.registered hi.sepr hi.methChk hi.methAes hi.chkkey hi.nhi
  cases ha with
  | tune hi => exact hsame hi
  | sendI1 _ hi => exact hsame hi
  | sendDhI2 _ _ hi => exact hsame hi
  | finish _ hi => exact hsame hi
  | fail _ hi => exact hsame hi
  | remove _ _ h' =>
    subst h'
    exact h.set hx rfl rfl rfl rfl rfl rfl

theorem unset {κ : Type*} [DecidableEq κ] {t : κ → Option ℕ} {key key' : κ} {c : Prop} [Decidable c]
    (hk : ∀ key', t key' = some k → key' = key ∧ c)
    (hj : (if c ∧ t key = some k then Function.update t key none else t) key' = some j) :
    j ≠ k ∧ t key' = some j := by
  split_ifs at hj with hc
  · rcases eq_or_ne key' key with rfl | hne
    · rw [Function.update_self] at hj
      cases hj
    · rw [Function.update_of_ne hne] at hj
      refine ⟨?_, hj⟩
      rintro rfl
      exact hne (hk _ hj).1
  · refine ⟨?_, hj⟩
    rintro rfl
    obtain ⟨rfl, hc'⟩ := hk _ hj
    exact hc ⟨hc', hj⟩

theorem Tables.cancel (h : Tables w) (k : ℕ) : Tables (w.cancel k) := by
  unfold KeyHost.cancel
  cases hx : w.objs[k]? with
  | none => exact h
  | some x =>
    have hown : ∀ P : Attempt → Prop, Named w.objs k P → P x := by
      rintro P ⟨z, hz, hP⟩
      rw [hx] at hz
      exact Option.some.inj hz ▸ hP
    refine ⟨fun key j hj => ?_, fun n j hj => ?_, fun ep j hj => ?_⟩ <;> dsimp only at hj ⊢
    · obtain ⟨hne, hj⟩ := unset (fun key' hk => (hown _ (h.chks key' k hk)).2.symm) hj
      exact (h.chks key j hj).set hx fun he => absurd he hne
    · obtain ⟨hne, hj⟩ := unset (fun n' hk => (hown _ (h.nhis n' k hk)).2.symm) hj
      exact (h.nhis n j hj).set hx fun he => absurd he hne
    · have hne : j ≠ k ∧ j ∈ w.initeps ep := by
        rcases eq_or_ne ep x.sepr with rfl | hep
        · rw [Function.update_self, List.mem_filter, decide_eq_true_iff] at hj
          exact ⟨hj.2, hj.1⟩
        · rw [Function.update_of_ne hep] at hj
          refine ⟨?_, hj⟩
          rintro rfl
          exact hep (hown _ (h.eps ep j hj)).2
      exact (h.eps ep j hne.2).set hx fun he => absurd he hne.1

theorem Tables.create (h : Tables w) (hr : x.registered = true) (hi : x.Same y) :
    Tables { w.register x with objs := w.objs ++ [y] } := by
  have hnew : ∀ P : Attempt → Prop, P y → Named (w.objs ++ [y]) w.objs.length P := fun P hP =>
    ⟨y, List.getElem?_concat_length, hP⟩
  refine ⟨fun key j hj => ?_, fun n j hj => ?_, fun ep j hj => ?_⟩ <;>
    dsimp only [KeyHost.register] at hj ⊢
  · split_ifs at hj with hc
    · rcases eq_or_ne key (x.sepr, x.chkkey) with rfl | hkey
      · rw [Function.update_self] at hj
        obtain rfl := Option.some.inj hj
        refine hnew _ ⟨hi.registered.trans hr, hi.methChk.trans hc, ?_⟩
        rw [hi.sepr, hi.chkkey]
      · rw [Function.update_of_ne hkey] at hj
        exact (h.chks key j hj).append y
    · exact (h.chks key j hj).append y
  · split_ifs at hj with ha
    · rcases eq_or_ne n x.nhi with rfl | hn
      · rw [Function.update_self] at hj
        obtain rfl := Option.some.inj hj
        exact hnew _ ⟨hi.registered.trans hr, hi.methAes.trans ha, hi.nhi.symm⟩
      · rw [Function.update_of_ne hn] at hj
        exact (h.nhis n j hj).append y
    · exact (h.nhis n j hj).append y
  · rcases eq_or_ne ep x.sepr with rfl | hep
    · rw [Function.update_self] at hj
      rcases List.mem_cons.1 hj with rfl | hj
      · exact hnew _ ⟨hi.registered.trans hr, hi.sepr.symm⟩
      · exact (h.eps _ j hj).append y
    · rw [Function.update_of_ne hep] at hj
      exact (h.eps ep j hj).append y

theorem Fresh.registered (h : Fresh w x) : x.registered = true := by
  obtain ⟨chan, sepr, idr, dhgroup, chkkey, nonce, sock, rfl⟩ := h.new
  have hs := h.state
  refine decide_eq_true fun hidr => hs ?_
  change (if idr = .null then State.done else .i1) = .done
  rw [if_pos hidr]

/-- **Elementary steps** keep the tables. -/
theorem Micro.tables (hm : Micro w w') (h : Tables w) : Tables w' := by
  cases hm with
  | frame h' initors up => exact ⟨h.chks, h.nhis, h.eps⟩
  | act k x y hx ha => exact h.act hx ha
  | cancel k => exact h.cancel k
  | create x y hx hi => exact h.create hx.registered hi
  | unknown =>
    exact ⟨fun key j hj => (h.chks key j hj).append _, fun n j hj => (h.nhis n j hj).append _,
      fun ep j hj => (h.eps ep j hj).append _⟩

theorem Path.tables (hp : Path w w') (h : Tables w) : Tables w' :=
  hp.invariant (fun _ _ hm => hm.tables) h

/-! ## Sending -/

/-- The object with a pointer is replaced, and the host's keys change. -/
structure Sets (w w' : KeyHost) (k : ℕ) (x y : Attempt) : Prop where
  old : w.objs[k]? = some x
  new : ∃ h, w' = { w with h, objs := w.objs.set k y }

theorem Sets.get (h : Sets w w' k x y) : w'.objs[k]? = some y := by
  obtain ⟨hk, -⟩ := List.getElem?_eq_some_iff.1 h.old
  obtain ⟨h', rfl⟩ := h.new
  exact List.getElem?_set_self hk

theorem Sets.path (h : Sets w w' k x y) (ha : x.Act y) : Path w w' := by
  obtain ⟨h', rfl⟩ := h.new
  exact (Micro.act k x y h.old ha).path.trans
    (Micro.frame h' w.initors w.up).path

theorem lift_eq_some {F : World → Option World} (h : w.lift k F = some w') :
    ∃ x v, F ⟨w.h, x.toKeyInitiator, [], ⟨0, fun _ => none⟩, ⟨[], []⟩, []⟩ = some v ∧
      Sets w w' k x
        { x with toKeyInitiator := v.i, log := (v.sentI.map .sent).reverse ++ x.log } := by
  obtain ⟨x, hx, h⟩ := Option.bind_eq_some_iff.1 h
  obtain ⟨v, hv, rfl⟩ := Option.map_eq_some_iff.1 h
  exact ⟨x, v, hv, hx, v.h, rfl⟩

theorem founding_chkI1 (i : KeyInitiator) {c : Chunk} (hc : c ∈ i.chkI1) :
    i.methChk = true ∧ ∃ d, c = .chkI1 d := by
  unfold KeyInitiator.chkI1 at hc
  split_ifs at hc with hm
  · exact ⟨hm, _, List.mem_singleton.1 hc⟩
  · exact absurd hc List.not_mem_nil

/-- **`sendI1`** goes back to the first state, and is late if it sends a ChkI1. -/
theorem sendI1_spec (h : w.sendI1 k r = some w') : ∃ x y, Sets w w' k x y ∧ x.Same y ∧
    y.state = .i1 ∧ y.early = (x.early && !x.methChk) ∧ y.txtimer = x.txtimer ∧
    ∃ m, y.log = .sent m :: x.log ∧
      ∀ c ∈ m, Founding c → x.methChk = true ∧ ∃ d, c = .chkI1 d := by
  obtain ⟨x, v, hv, hs⟩ := lift_eq_some h
  refine ⟨x, _, hs, ?_⟩
  unfold World.sendI1 at hv
  dsimp only at hv
  split at hv
  · split at hv
    · cases hv
    · cases hv
      refine ⟨⟨rfl, rfl, rfl, rfl, rfl, rfl, rfl, rfl⟩, rfl, rfl, rfl, _, rfl, fun c hc hf => ?_⟩
      rcases List.mem_append.1 hc with hc | hc
      · exact founding_chkI1 _ hc
      · rw [List.mem_singleton.1 hc] at hf
        exact hf.elim
  · split at hv
    · cases hv
    · cases hv
      exact ⟨⟨rfl, rfl, rfl, rfl, rfl, rfl, rfl, rfl⟩, rfl, rfl, rfl, _, rfl,
        fun c hc _ => founding_chkI1 _ hc⟩

theorem sendI1_path (h : w.sendI1 k r = some w')
    (hd : ∀ x, w.objs[k]? = some x → x.state ≠ .done) : Path w w' := by
  obtain ⟨x, y, hs, hi, h1, h2, h3, m, hl, hm⟩ := sendI1_spec h
  exact hs.path (.sendI1 (hd x hs.old) hi h1 h2 m hl hm)

/-- **`sendDhI2`** is in the second state and late. -/
theorem sendDhI2_spec (h : w.sendDhI2 k = some w') : ∃ x y, Sets w w' k x y ∧ x.Same y ∧
    y.state = .i2 ∧ y.early = false ∧ y.txtimer = x.txtimer ∧
    ∃ d, y.log = .sent [.dhI2 d] :: x.log := by
  obtain ⟨x, v, hv, hs⟩ := lift_eq_some h
  refine ⟨x, _, hs, ?_⟩
  unfold World.sendDhI2 at hv
  split at hv
  · cases hv
    exact ⟨⟨rfl, rfl, rfl, rfl, rfl, rfl, rfl, rfl⟩, rfl, rfl, rfl, _, rfl⟩
  · cases hv

theorem sendDhI2_path (h : w.sendDhI2 k = some w') (hd : ∀ x, w.objs[k]? = some x →
    x.state ≠ .done ∧ (x.registered = true ∨ x.state = .i2)) : Path w w' := by
  obtain ⟨x, y, hs, hi, h1, h2, -, d, hl⟩ := sendDhI2_spec h
  exact hs.path (.sendDhI2 (hd x hs.old).1 (hd x hs.old).2 hi h1 h2 d hl)

/-! ## The entry points -/

theorem modify_eq (hx : w.objs[k]? = some x) (f : Attempt → Attempt) :
    w.modify k f = { w with objs := w.objs.set k (f x) } := by
  have hset : w.objs.modify k f = w.objs.set k (f x) := by
    refine List.ext_getElem? fun j => ?_
    rcases eq_or_ne k j with rfl | hne
    · rw [List.getElem?_modify_eq, hx, List.getElem?_set_self (List.getElem?_eq_some_iff.1 hx).1]
      rfl
    · rw [List.getElem?_modify_ne f w.objs hne, List.getElem?_set_ne hne]
  rw [modify, hset]

theorem modify_get (hx : w.objs[k]? = some x) (f : Attempt → Attempt) :
    (w.modify k f).objs[k]? = some (f x) := by
  rw [modify_eq hx]
  exact List.getElem?_set_self (List.getElem?_eq_some_iff.1 hx).1

theorem modify_none (hx : w.objs[k]? = none) (f : Attempt → Attempt) : w.modify k f = w := by
  have hset : w.objs.modify k f = w.objs := List.modify_eq_self (List.getElem?_eq_none_iff.1 hx)
  rw [modify, hset]

theorem modify_path (k : ℕ) {f : Attempt → Attempt} (hf : ∀ x, w.objs[k]? = some x → x.Act (f x)) :
    Path w (w.modify k f) := by
  cases hx : w.objs[k]? with
  | none =>
    rw [modify_none hx]
    exact .refl
  | some x =>
    rw [modify_eq hx]
    exact (Micro.act k x (f x) hx (hf x hx)).path

theorem release_path (k : ℕ) (x : Attempt) : Path w (w.release k x) := by
  have h1 : Path w { w with initors := w.initors.filter (·.1 ≠ x.remoteEndpoint) } :=
    (Micro.frame w.h _ w.up).path
  exact (h1.trans (Micro.cancel k).path).trans
    (modify_path k fun _ _ => .tune (.of_eq rfl rfl) rfl rfl rfl fun _ h => h)

theorem completed_path (k : ℕ) : Path w (w.completed k) := by
  unfold completed
  split
  · exact .refl
  · split_ifs
    · exact release_path k _
    · exact .refl

theorem finish_path (hx : w.objs[k]? = some x) (hd : x.state ≠ .done) (fl : Key.Flow) (c : Chunk) :
    Path w (w.finish k x fl c) := by
  have hact : x.Act { x with
      toKeyInitiator := x.complete fl c
      txtimer := false
      log := .completed true :: .started :: .armed :: x.log } :=
    .finish hd ⟨rfl, rfl, rfl, rfl, rfl, rfl, rfl, rfl⟩ rfl rfl rfl rfl
  exact ((Micro.act k x _ hx hact).path.trans
    (Micro.frame w.h w.initors (w.up || x.owned)).path).trans (completed_path k)

theorem startTimer_path (k : ℕ) (hd : ∀ x, w.objs[k]? = some x → x.state ≠ .done) :
    Path w (w.startTimer k) :=
  modify_path k fun x hx => .tune (.of_eq rfl rfl) rfl rfl rfl fun h => absurd h (hd x hx)

theorem new_done {chan : Channel} {sepr : Endpoint} {idr : Ident} {dhgroup : ℕ} {chkkey : UInt32}
    {nonce : ℕ} (h : (KeyInitiator.new chan sepr idr dhgroup chkkey nonce).state = .done) :
    idr = .null := by
  cases idr with
  | null => rfl
  | ip ep => simp [KeyInitiator.new] at h
  | key k => simp [KeyInitiator.new] at h

theorem create_path {t : Target} (h : w.create t r = some w') : Path w w' := by
  unfold create at h
  dsimp only at h
  split_ifs at h with h1 h2 h3
  · cases h
    rw [new_done h1]
    exact (Micro.unknown t.chan t.sepr t.dhgroup t.chkkey t.nonce t.sock).path
  · obtain ⟨v, hv, rfl⟩ := Option.map_eq_some_iff.1 h
    rw [not_or] at h3
    set x := Attempt.new (.new t.chan t.sepr t.idr t.dhgroup t.chkkey t.nonce) t.sock with hxdef
    have hfresh : Fresh w x := by
      refine ⟨⟨_, _, _, _, _, _, _, hxdef⟩, h1, fun hm => ?_, fun hm => ?_, h3.2⟩
      · exact not_not.1 fun hc => h2 ⟨hm, hc⟩
      · exact not_not.1 fun hc => h3.1 ⟨hm, hc⟩
    have hget : (w.register x).objs[w.objs.length]? = some x := List.getElem?_concat_length
    obtain ⟨z, y, hs, hi, h4, h5, -, m, hl, hm⟩ := sendI1_spec hv
    obtain rfl : x = z := Option.some.inj (hget.symm.trans hs.old)
    have hp : Path w v := by
      obtain ⟨h', rfl⟩ := hs.new
      have hset : (w.objs ++ [x]).set w.objs.length y = w.objs ++ [y] := by
        rw [List.set_append_right _ _ le_rfl, Nat.sub_self, List.set_cons_zero]
      rw [show (w.register x).objs = w.objs ++ [x] from rfl, hset]
      exact (Micro.create x y hfresh hi h4 h5 m hl hm).path.trans
        (Micro.frame h' w.initors w.up).path
    refine hp.trans (startTimer_path _ fun z hz => ?_)
    rw [hs.get] at hz
    rw [← Option.some.inj hz, h4]
    decide

theorem gotR0_path (ks : List ℕ) : ∀ w : KeyHost, gotR0 r ks w = some w' → Path w w' := by
  induction ks with
  | nil =>
    intro w h
    cases h
    exact .refl
  | cons k ks ih =>
    intro w h
    simp only [gotR0] at h
    split at h
    · cases h
      exact .refl
    · rename_i x hx
      split_ifs at h with hs
      · cases h
        exact .refl
      · obtain ⟨v, hv, h⟩ := Option.bind_eq_some_iff.1 h
        rw [not_not] at hs
        refine (sendI1_path hv fun z hz => ?_).trans (ih v h)
        rw [hx] at hz
        rw [← Option.some.inj hz, hs]
        decide

theorem find_eq_some {o : Option ℕ} (h : w.find o = some (k, x)) :
    o = some k ∧ w.objs[k]? = some x := by
  obtain ⟨j, hj, h⟩ := Option.bind_eq_some_iff.1 h
  obtain ⟨y, hy, h⟩ := Option.map_eq_some_iff.1 h
  cases h
  exact ⟨hj, hy⟩

theorem Tables.named (ht : Tables w) {n : Nonce} (hn : w.initnhis n = some k)
    (hx : w.objs[k]? = some x) : x.registered = true ∧ x.methAes = true ∧ n = x.nhi := by
  obtain ⟨z, hz, h⟩ := ht.nhis n k hn
  rw [hx] at hz
  exact Option.some.inj hz ▸ h

theorem gotChkR1_path {r1 : ChkR1} {src : Endpoint} (h : w.gotChkR1 r1 src r = some w') :
    Path w w' := by
  unfold gotChkR1 at h
  split at h
  · cases h
    exact .refl
  · rename_i k x hf
    obtain ⟨-, hx⟩ := find_eq_some hf
    split_ifs at h with h1 h2 h3
    · cases h
      exact .refl
    · cases h
      exact .refl
    · have hp : Path w (w.modify k fun x => { x with cookie := r1.cookie }) :=
        modify_path k fun _ _ => .tune ⟨rfl, rfl, rfl, rfl, rfl, rfl, rfl, rfl⟩ rfl rfl rfl
          fun _ h => h
      refine hp.trans (sendI1_path h fun z hz => ?_)
      rw [modify_get hx] at hz
      rw [← Option.some.inj hz]
      exact h1
    · cases h
      exact finish_path hx h1 _ _

theorem gotDhR1_path (ht : Tables w) {r1 : DhR1} (h : w.gotDhR1 r1 r = some w') : Path w w' := by
  unfold gotDhR1 at h
  split at h
  · cases h
    exact .refl
  · rename_i k x hf
    obtain ⟨hn, hx⟩ := find_eq_some hf
    have hreg : x.registered = true := (ht.named hn hx).1
    split_ifs at h with h1 h2 h3 h4
    · cases h
      exact .refl
    · cases h
      exact .refl
    · cases h
      exact .refl
    · cases h
      exact .refl
    · rw [not_or] at h1
      split at h
      · cases h
      · rename_i h' hk hkey
        have hp : Path w { w with h := h' } := (Micro.frame h' w.initors w.up).path
        split_ifs at h with h5
        · refine hp.trans (sendI1_path h fun z hz => ?_)
          rw [← Option.some.inj (hx.symm.trans hz)]
          exact h1.1
        · obtain ⟨v, hv, rfl⟩ := Option.map_eq_some_iff.1 h
          have hq : Path { w with h := h' } ({ w with h := h' }.modify k fun x =>
              { x with keylen := r1.keylen, round := x.roundOf h' hk r1 }) :=
            modify_path k fun _ _ => .tune ⟨rfl, rfl, rfl, rfl, rfl, rfl, rfl, rfl⟩ rfl rfl rfl
              fun _ h => h
          refine ((hp.trans hq).trans (sendDhI2_path hv fun z hz => ?_)).trans
            (startTimer_path k fun z hz => ?_)
          · rw [modify_get (w := { w with h := h' }) hx] at hz
            rw [← Option.some.inj hz]
            exact ⟨h1.1, .inl hreg⟩
          · obtain ⟨x', y, hs, -, hy, -⟩ := sendDhI2_spec hv
            rw [hs.get] at hz
            rw [← Option.some.inj hz, hy]
            decide

theorem gotDhR2_path {r2 : DhR2} (h : w.gotDhR2 r2 r = some w') : Path w w' := by
  unfold gotDhR2 at h
  split at h
  · cases h
    exact .refl
  · rename_i k x hf
    obtain ⟨-, hx⟩ := find_eq_some hf
    split_ifs at h with h1
    · cases h
      exact .refl
    · rw [not_not] at h1
      have hd : x.state ≠ .done := by
        rw [h1]
        decide
      split at h
      · cases h
        exact .refl
      · split at h
        · cases h
        · rename_i h' hk hkey
          have hp : Path w { w with h := h' } := (Micro.frame h' w.initors w.up).path
          split_ifs at h with h2
          · refine hp.trans (sendI1_path h fun z hz => ?_)
            rw [← Option.some.inj (hx.symm.trans hz)]
            exact hd
          · split at h
            · cases h
              exact hp
            · cases h
              exact hp.trans (finish_path (w := { w with h := h' }) hx hd _ _)

theorem receive_path (ht : Tables w) {m : Message} {src : Endpoint} {order : List ℕ}
    (h : w.receive m src order r = some w') : Path w w' := by
  unfold receive at h
  split at h
  · exact gotR0_path order w h
  · exact gotChkR1_path h
  · exact gotDhR1_path ht h
  · exact gotDhR2_path h
  · cases h
    exact .refl

/-! ## Timer, deletion and the stream peer -/

theorem retransmit_path (hx : w.objs[k]? = some x) (hd : x.state ≠ .done) {fail : Bool}
    (h : w.retransmit k x fail r = some w') : Path w w' := by
  have hown : ∀ z, w.objs[k]? = some z → z = x := fun z hz => Option.some.inj (hz.symm.trans hx)
  unfold retransmit at h
  split_ifs at h with hf
  · cases h
    refine (modify_path k fun z hz => ?_).trans (completed_path k)
    rw [hown z hz]
    exact .fail hd ⟨rfl, rfl, rfl, rfl, rfl, rfl, rfl, rfl⟩ rfl rfl rfl rfl
  · split at h
    · refine sendI1_path h fun z hz => ?_
      rw [hown z hz]
      exact hd
    · rename_i hs
      refine sendDhI2_path h fun z hz => ?_
      rw [hown z hz]
      exact ⟨hd, .inr hs⟩
    · cases h
      exact .refl

theorem delete_path (k : ℕ) : Path w (w.delete k) :=
  (Micro.cancel k).path.trans
    (modify_path k fun _ _ => .tune (.of_eq rfl rfl) rfl rfl rfl fun _ _ => rfl)

theorem cancel_get (hx : w.objs[k]? = some x) :
    (w.cancel k).objs[k]? = some { x with registered := false } := by
  unfold KeyHost.cancel
  rw [hx]
  exact List.getElem?_set_self (List.getElem?_eq_some_iff.1 hx).1

theorem release_get (hx : w.objs[k]? = some x) :
    (w.release k x).objs[k]? = some { x with registered := false, doomed := true } :=
  modify_get (cancel_get
    (w := { w with initors := w.initors.filter (·.1 ≠ x.remoteEndpoint) }) hx) _

theorem giveUp_path (k : ℕ) : Path w (w.giveUp k) := by
  unfold giveUp
  cases hx : w.objs[k]? with
  | none => exact .refl
  | some x =>
    dsimp only
    split_ifs with he
    · refine (release_path k x).trans (modify_path k fun z hz => ?_)
      rw [release_get hx] at hz
      rw [← Option.some.inj hz]
      exact .remove he rfl rfl
    · exact .refl

theorem primaryStatusChanged_path (status : LinkStatus) :
    Path w (w.primaryStatusChanged status) := by
  have hp : Path w { w with up := status = .up } := (Micro.frame w.h w.initors _).path
  have hfold : ∀ (ks : List ℕ) (v : KeyHost), Path v (ks.foldl giveUp v) := by
    intro ks
    induction ks with
    | nil => exact fun _ => .refl
    | cons k ks ih => exact fun v => (giveUp_path k).trans (ih _)
  unfold primaryStatusChanged
  dsimp only
  split_ifs
  · exact hp.trans (hfold _ _)
  · exact hp

theorem initiate_path {t : Target} (h : w.initiate t r = some w') : Path w w' := by
  unfold initiate at h
  dsimp only at h
  split_ifs at h
  · cases h
    exact .refl
  · cases h
    exact .refl
  · obtain ⟨v, hv, rfl⟩ := Option.map_eq_some_iff.1 h
    have h1 : Path v (v.modify w.objs.length fun x => { x with owned := true }) :=
      modify_path _ fun _ _ => .tune (.of_eq rfl rfl) rfl rfl rfl fun _ h => h
    exact ((create_path hv).trans h1).trans (Micro.frame _ _ _).path

/-- **One operation** is a sequence of elementary steps, or it changes a responder; the timer of an
initiator that is done does not run. -/
theorem step_cases (ht : Tables w)
    (hd : ∀ x ∈ w.objs, x.state = .done → x.txtimer = false) {target : Ident}
    {op : Op} (h : w.step target op = some w') : Path w w' ∨
    (∃ j m src r a, op = .deliver j m src r a ∧
      w' = { w.onResp j (·.receiveR m src r a) with nonces := nonceOf m ++ w.nonces }) ∨
    ∃ j f, w' = w.onResp j f ∧ ∀ v : World, (f v).r.created = v.r.created := by
  cases op with
  | create t r => exact .inl (create_path h)
  | initiate t r => exact .inl (initiate_path h)
  | receive m src order r =>
    simp only [KeyHost.step] at h
    split_ifs at h
    exact .inl (receive_path ht h)
  | timeout k fail r =>
    simp only [KeyHost.step] at h
    split_ifs at h with hl
    obtain ⟨x, hx, h⟩ := Option.bind_eq_some_iff.1 h
    refine .inl (retransmit_path hx (fun hs => ?_) h)
    unfold live at hl
    rw [hx] at hl
    simp only [hd x (List.mem_of_getElem? hx) hs, Bool.and_false, Bool.false_eq_true] at hl
  | setInfo k ulpi =>
    cases h
    exact .inl (modify_path k fun _ _ =>
      .tune ⟨rfl, rfl, rfl, rfl, rfl, rfl, rfl, rfl⟩ rfl rfl rfl fun _ h => h)
  | cancel k =>
    simp only [KeyHost.step] at h
    split_ifs at h
    cases h
    exact .inl (Micro.cancel k).path
  | delete k =>
    simp only [KeyHost.step] at h
    split_ifs at h
    cases h
    exact .inl (delete_path k)
  | primaryStatusChanged status =>
    cases h
    exact .inl (primaryStatusChanged_path status)
  | primary up =>
    cases h
    exact .inl (Micro.frame w.h w.initors up).path
  | hostKeyTimeout group =>
    cases h
    exact .inl (Micro.frame (w.h.timeout group) w.initors w.up).path
  | deliver j m src r a =>
    cases h
    exact .inr (.inl ⟨j, m, src, r, a, rfl, rfl⟩)
  | armorDestroyed j id =>
    cases h
    exact .inr (.inr ⟨j, _, rfl, fun _ => rfl⟩)
  | responderKeyTimeout j group =>
    cases h
    exact .inr (.inr ⟨j, _, rfl, fun _ => rfl⟩)

end KeyHost

end Sst.Key
