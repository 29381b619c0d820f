import Sst.RegCli.Dispatch

/-!
# Registered clients

A registered client stays registered until it is disconnected or registers again.

* `Leaves`: the operations that disconnect a client or register it again.
* `Harmless`: the condition, that an Insert1 reply leaves a registered client's challenge alone.
* `Stable`: a client stays registered, with its challenge, its key and its signature.
* **`registered_stable`**: runs of harmless operations leave a registered client so, and an
  operation does if and only if it is harmless.
-/

namespace Sst.RegCli

open Reg Transition

namespace RegHost

variable {lib : Library} {h h' h'' : RegHost} {c d : Ptr}

/-! ## Operations -/

/-- The operation disconnects the client, by a call, by its destruction or by a failure of its
outstanding requests, or registers it again: by a call, by the timer, as the resolution of a
registration ends, or as a function of the client goes on that was left in its middle. -/
def Leaves (h : RegHost) (c : Ptr) : Op → Prop
  | .disconnect d => d = c
  | .destroy d => d = c
  | .reregister d _ => d = c
  | .reregExpired d _ => d = c
  | .resolved _ d _ _ _ => d = c
  | .retryExpired d => d = c ∧ (h.client c).retrytimer.expire.fail ≤ 0 ∧
      ¬ ((h.client c).lookups = [] ∧ (h.client c).punches = [] ∧ (h.client c).searches = [])
  | .resume _ => ∃ f ∈ h.frames.head?, f.client = c
  | _ => False

/-- **The condition**: no Insert1 reply reaches the client but one that fails to decode and leaves
the challenge as it is. -/
def Harmless (h : RegHost) (c : Ptr) : Op → Prop
  | .receive msg src junk => ∀ r, h.Delivers msg src c r → r.code = regResponse ||| regInsert1 →
      Xdr.readInto (h.client c).chal junk r.rs = ((h.client c).chal, none)
  | _ => True

/-- The client keeps its state and what it registered by. -/
structure Same (c : Ptr) (h h' : RegHost) : Prop where
  alive : h'.alive c = h.alive c
  state : (h'.client c).state = (h.client c).state
  chal : (h'.client c).chal = (h.client c).chal
  key : (h'.client c).key = (h.client c).key
  sig : (h'.client c).sig = (h.client c).sig

/-- A registered client stays so, with what it registered by. -/
structure Stable (c : Ptr) (h h' : RegHost) : Prop where
  alive : h'.alive c = true
  state : (h'.client c).state = .registered
  chal : (h'.client c).chal = (h.client c).chal
  key : (h'.client c).key = (h.client c).key
  sig : (h'.client c).sig = (h.client c).sig

/-- The client stays registered, and an Insert1 reply that reaches it changes nothing about it:
neither its requests nor their retransmission. -/
def Keeps (c : Ptr) (h : RegHost) (op : Op) (h' : RegHost) : Prop :=
  Stable c h h' ∧ ∀ msg src junk r, op = .receive msg src junk → h.Delivers msg src c r →
    r.code = regResponse ||| regInsert1 → h'.client c = h.client c

/-! ## Functions that keep the registration -/

theorem Same.of_client (ha : h'.alive c = h.alive c) (hc : h'.client c = h.client c) :
    Same c h h' := by
  refine ⟨ha, ?_, ?_, ?_, ?_⟩ <;> rw [hc]

theorem Same.refl (c : Ptr) (h : RegHost) : Same c h h := .of_client rfl rfl

theorem Same.trans (h₁ : Same c h h') (h₂ : Same c h' h'') : Same c h h'' where
  alive := h₂.alive.trans h₁.alive
  state := h₂.state.trans h₁.state
  chal := h₂.chal.trans h₁.chal
  key := h₂.key.trans h₁.key
  sig := h₂.sig.trans h₁.sig

theorem Same.stable (hS : Same c h h') (ha : h.alive c = true)
    (hc : (h.client c).state = .registered) : Stable c h h' :=
  ⟨hS.alive.trans ha, hS.state.trans hc, hS.chal, hS.key, hS.sig⟩

theorem Stable.trans (h₁ : Stable c h h') (h₂ : Stable c h' h'') : Stable c h h'' :=
  ⟨h₂.alive, h₂.state, h₂.chal.trans h₁.chal, h₂.key.trans h₁.key, h₂.sig.trans h₁.sig⟩

theorem Same.acts (hA : Acts lib .still c h h') : Same c h h' where
  alive := by rw [hA.alive]
  state := congrArg Standing.state hA.standing
  chal := congrArg Standing.chal hA.standing
  key := congrArg Standing.key hA.standing
  sig := congrArg Standing.sig hA.standing

/-! ## Insert1 replies -/

/-- A reply that fails to decode leaves the challenge in the state that the failed read leaves
it in. -/
theorem gotInsert1Reply_none {rs junk chal : Bytes}
    (h0 : Xdr.readInto (h.client c).chal junk rs = (chal, none)) :
    h.gotInsert1Reply lib c rs junk = h.modify c fun cli => { cli with chal } := by
  rw [RegHost.gotInsert1Reply, h0]

theorem gotInsert1Reply_some {rs junk chal rest : Bytes}
    (h0 : Xdr.readInto (h.client c).chal junk rs = (chal, some rest)) :
    ((h.gotInsert1Reply lib c rs junk).client c).state = .insert2 := by
  rw [RegHost.gotInsert1Reply, h0]
  simp only [goInsert2, sendInsert2, send, modify_client_self, emit_client]

/-- **Where an Insert1 reply leaves a registered client alone.** -/
theorem gotInsert1Reply_stable_iff (lib : Library) (ha : h.alive c = true)
    (hc : (h.client c).state = .registered) (rs junk : Bytes) :
    (Stable c h (h.gotInsert1Reply lib c rs junk) ∧
      (h.gotInsert1Reply lib c rs junk).client c = h.client c) ↔
    Xdr.readInto (h.client c).chal junk rs = ((h.client c).chal, none) := by
  obtain ⟨⟨chal, rest⟩, h0⟩ : ∃ p, Xdr.readInto (h.client c).chal junk rs = p := ⟨_, rfl⟩
  constructor
  · rintro ⟨hs, hcl⟩
    cases rest with
    | some rest =>
      have h2 : ((h.gotInsert1Reply lib c rs junk).client c).state = .insert2 :=
        gotInsert1Reply_some h0
      rw [hs.state] at h2
      cases h2
    | none =>
      have h2 := hs.chal
      rw [gotInsert1Reply_none h0, modify_client_self] at h2
      rw [h0]
      exact congrArg (·, none) h2
  · intro h1
    rw [gotInsert1Reply_none h1]
    refine ⟨⟨ha, ?_, ?_, ?_, ?_⟩, ?_⟩ <;> rw [modify_client_self]
    exact hc

/-! ## Steps -/

theorem Same.others (hA : Acts lib .all d h h') (hcd : c ≠ d) : Same c h h' :=
  .of_client (by rw [hA.alive]) (hA.others hcd)

theorem Same.exec_other {op : Op} (hop : op.client = some d) (hcd : c ≠ d) :
    Same c h (h.exec lib op) :=
  .others (exec_acts_all hop) hcd

theorem Same.exec_self {op : Op} (hop : op.client = some c)
    (hc : (h.client c).state = .registered) (he : h.enabled op = true)
    (hl : ¬ h.Leaves c op) : Same c h (h.exec lib op) := by
  refine .acts (exec_acts hop (fun ni hni => ?_) (fun hcl => ?_) fun hd => ?_)
  · cases op with
    | registerAt d srvname srvport ni =>
      cases hop
      -- the function asserts that the client is idle
      unfold enabled at he
      simp [hc] at he
    | reregister | reregExpired | resolved => exact absurd (Option.some.inj hop) hl
    | resume => cases hop
    | _ => cases hni
  · cases op with
    | disconnect | destroy | resolved => exact hl hcl.1
    | retryExpired d =>
      obtain ⟨-, ⟨hs, -⟩, -⟩ := hcl
      rw [hc] at hs
      exact hs.elim State.noConfusion State.noConfusion
    | resume => cases hop
    | _ => exact hcl
  · subst hd
    exact hl rfl

theorem Same.create (ha : h.alive c = true) (hd : h.alive d = false) (persist : Bool) :
    Same c h (h.create lib d persist) := by
  have hcd : c ≠ d := by
    rintro rfl
    rw [hd] at ha
    cases ha
  exact .of_client (Function.update_of_ne hcd ..) (Function.update_of_ne hcd ..)

theorem Same.resume {ni : Bytes} {f : Frame} (hcf : c ≠ f.client) :
    Same c h (h.resume lib ni f) := by
  by_cases hf : f = .destroyed f.client
  · rw [hf]
    exact .of_client (Function.update_of_ne hcf ..) rfl
  · exact .others (resume_acts_all ni hf) hcf

theorem Same.dispatch_other (hcd : c ≠ d) (code : BitVec 32) (rs junk : Bytes) :
    Same c h (h.dispatch lib d code rs junk) :=
  .others (dispatch_acts_all h d code rs junk) hcd

theorem Same.dispatch (hc : (h.client c).state = .registered) {code : BitVec 32}
    (hcode : code ≠ regResponse ||| regInsert1) (rs junk : Bytes) :
    Same c h (h.dispatch lib c code rs junk) :=
  .acts (dispatch_acts (absurd · hcode) (fun _ => .inr hc) rs junk)

theorem dispatch_insert1 (h : RegHost) (c : Ptr) (rs junk : Bytes) :
    h.dispatch lib c (regResponse ||| regInsert1) rs junk =
      h.gotInsert1Reply lib c rs junk := rfl

theorem Delivers.unique {msg : Bytes} {src : Endpoint} {r r' : Reply}
    (h₁ : h.Delivers msg src c r) (h₂ : h.Delivers msg src d r') : c = d ∧ r = r' := by
  have hr : r = r' := Option.some.inj (h₁.decode.symm.trans h₂.decode)
  subst hr
  exact ⟨Option.some.inj (h₁.found.symm.trans h₂.found), rfl⟩

theorem keeps_receive_iff (ha : h.alive c = true) (hc : (h.client c).state = .registered)
    (msg : Bytes) (src : Endpoint) (junk : Bytes) :
    Keeps c h (.receive msg src junk) (h.receive lib msg src junk) ↔
      h.Harmless c (.receive msg src junk) := by
  have hsame : Same c h (h.receive lib msg src junk) →
      (∀ r, h.Delivers msg src c r → r.code ≠ regResponse ||| regInsert1) →
      (Keeps c h (.receive msg src junk) (h.receive lib msg src junk) ↔
        h.Harmless c (.receive msg src junk)) := by
    intro hS hno
    refine iff_of_true ⟨hS.stable ha hc, ?_⟩ fun r hr hcode => absurd hcode (hno r hr)
    intro msg' src' junk' r hop hr hcode
    cases hop
    exact absurd hcode (hno r hr)
  by_cases hdel : ∃ r, h.Delivers msg src c r
  · obtain ⟨r, hdel⟩ := hdel
    have hr := hdel.receive lib junk
    by_cases hcode : r.code = regResponse ||| regInsert1
    · have hiff := gotInsert1Reply_stable_iff lib ha hc r.rs junk
      rw [← dispatch_insert1, ← hcode, ← hr] at hiff
      constructor
      · intro hk r' hr' _
        cases (hdel.unique hr').2
        exact hiff.1 ⟨hk.1, hk.2 msg src junk r rfl hdel hcode⟩
      · intro hh
        have hk := hiff.2 (hh r hdel hcode)
        refine ⟨hk.1, fun msg' src' junk' r' hop _ _ => ?_⟩
        cases hop
        exact hk.2
    · refine hsame (hr ▸ .dispatch hc hcode r.rs junk) fun r' hr' => ?_
      cases (hdel.unique hr').2
      exact hcode
  · -- the datagram reaches another client or none
    refine hsame ?_ fun r hr => absurd ⟨r, hr⟩ hdel
    rcases h.receive_cases lib msg src junk with hr | ⟨hr, -⟩ | ⟨r, d, hd, hr⟩
    · rw [hr]
      exact .refl c h
    · rw [hr]
      exact .of_client rfl rfl
    · rw [hr]
      refine .dispatch_other ?_ r.code r.rs junk
      rintro rfl
      exact hdel ⟨r, hd⟩

/-- An operation that does not end the registration keeps it if and only if it is harmless. -/
theorem keeps_iff (ha : h.alive c = true) (hc : (h.client c).state = .registered) {op : Op}
    (he : h.enabled op = true) (hl : ¬ h.Leaves c op) :
    Keeps c h op (h.exec lib op) ↔ h.Harmless c op := by
  have hsame : (∀ msg src junk, op ≠ .receive msg src junk) → Same c h (h.exec lib op) →
      (Keeps c h op (h.exec lib op) ↔ h.Harmless c op) := by
    intro hop hS
    refine iff_of_true ⟨hS.stable ha hc, fun msg src junk _ h1 => absurd h1 (hop msg src junk)⟩ ?_
    cases op with
    | receive msg src junk => exact absurd rfl (hop msg src junk)
    | _ => trivial
  cases hop : op.client with
  | some d =>
    refine hsame (fun msg src junk h1 => ?_) ?_
    · rw [h1] at hop
      cases hop
    by_cases hcd : c = d
    · subst hcd
      exact .exec_self hop hc he hl
    · exact .exec_other hop hcd
  | none =>
    cases op with
    | create d persist =>
      refine hsame (by nofun) (.create ha ?_ persist)
      unfold enabled at he
      rw [Bool.and_eq_true, Bool.not_eq_true'] at he
      exact he.2
    | receive msg src junk => exact keeps_receive_iff ha hc msg src junk
    | resume ni =>
      refine hsame (by nofun) ?_
      cases hfs : h.frames with
      | nil =>
        simp only [RegHost.exec, hfs]
        exact .refl c h
      | cons f rest =>
        simp only [RegHost.exec, hfs]
        have hcf : c ≠ f.client := fun hcf => hl ⟨f, by rw [hfs]; rfl, hcf.symm⟩
        have hr : Same c h { h with frames := rest } := .of_client rfl rfl
        exact hr.trans (.resume hcf)
    | _ => cases hop

end RegHost

/-- **Registered is stable**: in every run of harmless operations that neither disconnect the
client nor register it again, whatever else arrives in whatever order, it stays registered with its
challenge, key and signature; and a single operation keeps it registered, with all of its requests
and their retransmission where it is an Insert1 reply, if and only if it is harmless. -/
theorem registered_stable {lib : Library} {h : RegHost} {c : Ptr} (ha : h.alive c = true)
    (hc : (h.client c).state = .registered) :
    (∀ h', ((regHost lib).startAt h).Reach (fun s op => ¬ s.Leaves c op ∧ s.Harmless c op) h' →
      RegHost.Stable c h h') ∧
    ∀ op h', (regHost lib).step h op = some h' → ¬ h.Leaves c op →
      (RegHost.Keeps c h op h' ↔ h.Harmless c op) := by
  constructor
  · intro h' hr
    refine Machine.Reach.invariant (P := RegHost.Stable c h) ⟨ha, hc, rfl, rfl, rfl⟩ ?_ hr
    intro s t op _ hs hC ht
    obtain ⟨he, rfl⟩ := step_spec ht
    exact hs.trans ((RegHost.keeps_iff hs.alive hs.state he hC.1).2 hC.2).1
  · intro op h' hs hl
    obtain ⟨he, rfl⟩ := step_spec hs
    exact RegHost.keeps_iff ha hc he hl

/-- An Insert1 reply with a challenge of four bytes. -/
def insert1Reply (n : UInt8) (a : UInt8) : Op :=
  reply (regResponse ||| regInsert1) n (Xdr.writeBytes [a, a, a, a])

/-- A client that gets registered and looks another one up. -/
def lookingUp : List Op :=
  registering ++ [insert1Reply 1 5, insert2Reply 1, .lookup 0 [9] false]

theorem registered_stable_again : ∃ h h', (h.client 0).state = .registered ∧
    (regHost plainLibrary).step h (insert2Reply 1) = some h' ∧
    RegHost.Keeps 0 h (insert2Reply 1) h' := by
  have hrun : ∃ h h', (regHost plainLibrary).run (.new plainLibrary) lookingUp = some h ∧
      (regHost plainLibrary).step h (insert2Reply 1) = some h' ∧ h.alive 0 = true ∧
      (h.client 0).state = .registered := ⟨_, _, rfl, rfl, rfl, rfl⟩
  obtain ⟨h, h', _, hs, ha, hc⟩ := hrun
  refine ⟨h, h', hc, hs, ((registered_stable ha hc).2 _ _ hs (fun hl => hl.elim)).2 ?_⟩
  intro r hr hcode
  have h2 : Reply.decode _ = some r := hr.decode
  cases h2
  cases hcode

/-- The reply to Insert1 arrives once more, from another of the server's addresses or late: the
registered client takes the challenge, signs again and leaves its state, and its lookup is sent no
more. -/
theorem registered_stable_duplicate : ∃ h h',
    (regHost plainLibrary).run (.new plainLibrary) lookingUp = some h ∧
    (h.client 0).state = .registered ∧ (h.client 0).lookups = [[9]] ∧
    (regHost plainLibrary).step h (insert1Reply 1 6) = some h' ∧
    ¬ h.Leaves 0 (insert1Reply 1 6) ∧ (h'.client 0).state = .insert2 ∧
    (h'.client 0).chal ≠ (h.client 0).chal ∧ (h'.client 0).sig ≠ (h.client 0).sig :=
  ⟨_, _, rfl, rfl, rfl, rfl, fun hl => hl.elim, rfl, by decide, by decide⟩

end Sst.RegCli
