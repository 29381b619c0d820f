import Sst.RegCli.Client
import Mathlib.Logic.Relation

/-!
# What the functions of a client change

Every function of a client, up to the point where the client is freed, is a sequence of actions. An
action changes a few fields of the client, signals an event, leaves a frame, or changes the entry
of the client in the table of nonces.

* `Scope`: which of these may occur.
* **`RegHost.Act`**: the actions of a client; `RegHost.Acts`: their sequences.
* `RegHost.Clears`: the operation lets `disconnect` clear the fields of the client.
* `disconnect_acts`, `reregister_acts`, `timeout_acts`, …, **`exec_acts`**: functions as actions.
* `Acts.others`, `Acts.entered`, `Acts.log`, …: what the actions leave alone.
* `RegHost.Delivers`, **`RegHost.receive_cases`**: what a datagram does.
-/

namespace Sst.RegCli

open Reg Transition

/-- The client of an event. -/
def Event.client : Event → Ptr
  | sent c _ _ => c
  | stateChanged c => c
  | lookupDone c _ _ _ => c
  | lookupNotify c _ _ _ => c
  | searchDone c _ _ _ => c
  | regClientCreate c => c
  | regClientDestroy c => c

/-- What registers a client: its state, its nonce, and what its server knows of it. -/
structure Standing where
  state : State
  ni : Bytes
  nhi : Bytes
  chal : Bytes
  key : Bytes
  sig : Bytes

def RegClient.standing (cli : RegClient) : Standing :=
  ⟨cli.state, cli.ni, cli.nhi, cli.chal, cli.key, cli.sig⟩

/-- What the functions of a client may do: change its state and what it registers with, make it
registered, draw a nonce, clear a nonce with its hash, and destroy the client. -/
structure Scope where
  moves : Prop
  enters : Prop
  nonces : Bytes → Prop
  clears : Bytes → Prop
  destroys : Prop

/-- Everything. -/
def Scope.all : Scope := ⟨True, True, fun _ => True, fun _ => True, True⟩

/-- Everything but the destructor. -/
def Scope.living : Scope := { Scope.all with destroys := False }

/-- Everything but clearing. -/
def Scope.lasting : Scope := { Scope.all with clears := fun _ => False }

/-- Everything but becoming registered. -/
def Scope.outside : Scope := { Scope.all with enters := False }

/-- The client keeps its standing. -/
def Scope.still : Scope := ⟨False, False, fun _ => False, fun _ => False, False⟩

namespace RegHost

variable {lib : Library} {S : Scope} {h h' h'' : RegHost} {c d : Ptr}

/-! ## Actions -/

/-- **The actions of a client.** -/
inductive Act (lib : Library) (S : Scope) (c : Ptr) (h : RegHost) : RegHost → Prop
  | tune (f : RegClient → RegClient) (hf : (f (h.client c)).standing = (h.client c).standing) :
      Act lib S c h (h.modify c f)
  | move (hS : S.moves) (f : RegClient → RegClient) (hni : (f (h.client c)).ni = (h.client c).ni)
      (hnhi : (f (h.client c)).nhi = (h.client c).nhi)
      (hs : (f (h.client c)).state = (h.client c).state ∨ (f (h.client c)).state = .insert1 ∨
        (f (h.client c)).state = .insert2) :
      Act lib S c h (h.modify c f)
  | enter (hS : S.enters) (t : Timer) :
      Act lib S c h (h.modify c fun cli => { cli with state := .registered, reregtimer := t })
  | emit (e : Event) (he : e.client = c) : Act lib S c h (h.emit e)
  | push (f : Frame) (hf : f.client = c) (hd : f.destructs = true → S.destroys) :
      Act lib S c h (h.push f)
  | insertNonce (ni : Bytes) (hS : S.nonces ni) (hni : (h.client c).ni = []) :
      Act lib S c h (h.insertNonce lib c ni)
  | removeNonce (hS : S.moves) : Act lib S c h (h.removeNonce c)
  | lookupHost (hS : S.moves) : Act lib S c h (h.lookupHost c)
  | resolved (id : ℕ) : Act lib S c h { h with lookupHosts := h.lookupHosts.erase (id, c) }
  | clear (hS : S.clears (h.client c).nhi) : Act lib S c h (h.clear c)

/-- A sequence of actions. -/
def Acts (lib : Library) (S : Scope) (c : Ptr) : RegHost → RegHost → Prop :=
  Relation.ReflTransGen (Act lib S c)

theorem Acts.refl : Acts lib S c h h := Relation.ReflTransGen.refl

theorem Acts.trans (h₁ : Acts lib S c h h') (h₂ : Acts lib S c h' h'') : Acts lib S c h h'' :=
  Relation.ReflTransGen.trans h₁ h₂

theorem Acts.tail (h₁ : Acts lib S c h h') (h₂ : Act lib S c h' h'') : Acts lib S c h h'' :=
  Relation.ReflTransGen.tail h₁ h₂

theorem Act.acts (hA : Act lib S c h h') : Acts lib S c h h' := Relation.ReflTransGen.single hA

theorem Acts.invariant {P : RegHost → Prop} (hP : ∀ a b, Act lib S c a b → P a → P b)
    (hA : Acts lib S c h h') (hh : P h) : P h' := by
  induction hA with
  | refl => exact hh
  | tail _ ha ih => exact hP _ _ ha ih

theorem Acts.foldl {α : Type*} {f : RegHost → α → RegHost} (hf : ∀ h a, Acts lib S c h (f h a))
    (l : List α) (h : RegHost) : Acts lib S c h (l.foldl f h) := by
  induction l generalizing h with
  | nil => exact .refl
  | cons a l ih => exact (hf h a).trans (ih _)

theorem send_act (h : RegHost) (c : Ptr) (msg : Bytes) : Act lib S c h (h.send c msg) :=
  .emit _ rfl

theorem resend_acts (h : RegHost) (c : Ptr) : Acts lib S c h (h.resend lib c) :=
  ((Acts.foldl (fun h _ => (send_act h c _).acts) _ h).trans
    (.foldl (fun h _ => (send_act h c _).acts) _ _)).trans
      (.foldl (fun h _ => (send_act h c _).acts) _ _)

end RegHost

/-! ## Disconnecting -/

/-- `disconnect` reaches its end at once: the client is not idle and has no request for which a
failure is signalled first. -/
def RegClient.Ends (cli : RegClient) : Prop :=
  cli.state ≠ .idle ∧ cli.lookups = [] ∧ cli.punches = [] ∧ cli.searches = []

/-- The loop of `disconnect` is over and leads to its end at once. -/
def Frame.Ends (cli : RegClient) : Frame → Prop
  | lookups _ [] => cli.punches = [] ∧ cli.searches = []
  | punches _ [] => cli.searches = []
  | searches _ [] => True
  | _ => False

/-- The retry timer's expiry lets the client give up its registration. -/
def RegClient.GivesUp (cli : RegClient) : Prop :=
  (cli.state = .insert1 ∨ cli.state = .insert2) ∧ cli.retrytimer.expire.fail ≤ 0 ∧
    cli.persist = false

namespace RegHost

/-- The operation lets `disconnect` reach its end for the client, where it clears the nonce: by a
call, by a failed resolution, by a timeout or as its last loop is over. -/
def Clears (h : RegHost) (c : Ptr) : Op → Prop
  | .disconnect d => d = c ∧ (h.client c).Ends
  | .destroy d => d = c ∧ (h.client c).Ends
  | .resolved _ d addrs _ _ => d = c ∧ addrs = [] ∧ (h.client c).Ends
  | .retryExpired d => d = c ∧ (h.client c).GivesUp ∧ (h.client c).Ends
  | .resume _ => ∃ f ∈ h.frames.head?, f.client = c ∧ f.Ends (h.client c)
  | _ => False

section Disconnecting

variable {lib : Library} {S : Scope} {h : RegHost} {c : Ptr}

theorem failSearches_acts (l : List Text) (hc : l = [] → S.clears (h.client c).nhi) :
    Acts lib S c h (h.failSearches c l) := by
  cases l with
  | nil => exact (Act.clear (hc rfl)).acts
  | cons text rest => exact (Act.push (.searches c rest) rfl nofun).acts.tail (.emit _ rfl)

theorem failPunches_acts (l : List Bytes)
    (hc : l = [] → (h.client c).searches = [] → S.clears (h.client c).nhi) :
    Acts lib S c h (h.failPunches c l) := by
  cases l with
  | nil => exact failSearches_acts _ (hc rfl)
  | cons id rest => exact (Act.push (.punches c rest) rfl nofun).acts.tail (.emit _ rfl)

theorem failLookups_acts (l : List Bytes)
    (hc : l = [] → (h.client c).punches = [] → (h.client c).searches = [] →
      S.clears (h.client c).nhi) : Acts lib S c h (h.failLookups c l) := by
  cases l with
  | nil => exact failPunches_acts _ (hc rfl)
  | cons id rest => exact (Act.push (.lookups c rest) rfl nofun).acts.tail (.emit _ rfl)

theorem disconnect_acts (hc : (h.client c).Ends → S.clears (h.client c).nhi) :
    Acts lib S c h (h.disconnect c) := by
  rw [RegHost.disconnect]
  split
  · exact .refl
  · rename_i hs
    exact failLookups_acts _ fun hl hp hq => hc ⟨hs, hl, hp, hq⟩

theorem fail_acts (err : Text) (hc : (h.client c).Ends → S.clears (h.client c).nhi) :
    Acts lib S c h (h.fail c err) := by
  rw [RegHost.fail]
  refine (Act.tune _ rfl).acts.trans (disconnect_acts ?_)
  rw [modify_client_self]
  exact hc

end Disconnecting

/-! ## Registering -/

section Functions

variable {lib : Library} {S : Scope} {h : RegHost} {c : Ptr}

theorem goInsert1_acts (hm : S.moves) {ni : Bytes} (hn : S.nonces ni) (h : RegHost) (c : Ptr) :
    Acts lib S c h (h.goInsert1 lib c ni) := by
  have h1 : Acts lib S c h (if (h.client c).ni = [] then h.insertNonce lib c ni else h) := by
    split
    · rename_i hni
      exact (Act.insertNonce ni hn hni).acts
    · exact .refl
  rw [RegHost.goInsert1]
  exact ((h1.tail (.move hm _ rfl rfl (.inr (.inl rfl)))).tail (send_act _ c _)).tail (.tune _ rfl)

theorem goInsert2_acts (hm : S.moves) (h : RegHost) (c : Ptr) :
    Acts lib S c h (h.goInsert2 lib c) := by
  rw [RegHost.goInsert2]
  exact ((((Act.move hm _ rfl rfl (.inl rfl)).acts.tail (.move hm _ rfl rfl (.inl rfl))).tail
    (.move hm _ rfl rfl (.inr (.inr rfl)))).tail (send_act _ c _)).tail (.tune _ rfl)

theorem reregister_acts (hm : S.moves) {ni : Bytes} (hn : S.nonces ni) (h : RegHost) (c : Ptr) :
    Acts lib S c h (h.reregister lib c ni) := by
  have h1 : Acts lib S c h (if (h.client c).ni ≠ [] then h.removeNonce c else h) := by
    split
    · exact (Act.removeNonce hm).acts
    · exact .refl
  rw [RegHost.reregister]
  generalize (if (h.client c).ni ≠ [] then h.removeNonce c else h) = h₁ at h1 ⊢
  split
  · exact h1.tail (.lookupHost hm)
  · exact (h1.tail (.tune _ rfl)).trans (goInsert1_acts hm hn _ c)

theorem registerAt_acts (hm : S.moves) {ni : Bytes} (hn : S.nonces ni) (h : RegHost) (c : Ptr)
    (srvname : Text) (srvport : BitVec 16) :
    Acts lib S c h (h.registerAt lib c srvname srvport ni) := by
  rw [RegHost.registerAt]
  exact (Act.tune _ rfl).acts.trans (reregister_acts hm hn _ c)

theorem resolveDone_acts (hm : S.moves) {addrs : List HostAddress} (err : Text) {ni : Bytes}
    (hn : S.nonces ni) (hc : addrs = [] → (h.client c).Ends → S.clears (h.client c).nhi) :
    Acts lib S c h (h.resolveDone lib c addrs err ni) := by
  have h1 : Act lib S c h (h.modify c fun cli => { cli with addrs }) := .tune _ rfl
  rw [RegHost.resolveDone]
  split
  · rename_i haddrs
    refine h1.acts.trans (fail_acts err ?_)
    rw [modify_client_self]
    exact hc haddrs
  · exact h1.acts.trans (goInsert1_acts hm hn _ c)

/-! ## Requests, replies and timeouts -/

theorem lookup_acts (h : RegHost) (c : Ptr) (idtarget : Bytes) (notify : Bool) :
    Acts lib S c h (h.lookup c idtarget notify) := by
  rw [RegHost.lookup]
  refine ((Act.tune _ ?_).acts.tail (send_act _ c _)).tail (.tune _ rfl)
  cases notify <;> rfl

theorem search_acts (h : RegHost) (c : Ptr) (text : Text) :
    Acts lib S c h (h.search lib c text) := by
  rw [RegHost.search]
  exact ((Act.tune _ rfl).acts.tail (send_act _ c _)).tail (.tune _ rfl)

theorem gotInsert1Reply_acts (hm : S.moves) (h : RegHost) (c : Ptr) (rs junk : Bytes) :
    Acts lib S c h (h.gotInsert1Reply lib c rs junk) := by
  rw [RegHost.gotInsert1Reply]
  split
  split
  · exact (Act.move hm _ rfl rfl (.inl rfl)).acts
  · exact (Act.move hm _ rfl rfl (.inl rfl)).acts.trans (goInsert2_acts hm _ c)

/-- A further Insert2 reply to a registered client starts the registration's lifetime again. -/
theorem gotInsert2Reply_acts (he : S.enters ∨ (h.client c).state = .registered) (rs : Bytes) :
    Acts lib S c h (h.gotInsert2Reply c rs) := by
  rw [RegHost.gotInsert2Reply]
  split
  · exact .refl
  · refine Acts.tail ?_ (.emit _ rfl)
    rcases he with he | hs
    · exact (Act.enter he _).acts
    · refine (Act.tune _ ?_).acts
      rw [RegClient.standing, RegClient.standing, hs]

theorem gotLookupReply_acts (h : RegHost) (c : Ptr) (rs : Bytes) (isnotify : Bool) :
    Acts lib S c h (h.gotLookupReply c rs isnotify) := by
  rw [RegHost.gotLookupReply]
  split
  · exact .refl
  split
  · exact (Act.emit (.lookupNotify c _ _ _) rfl).acts
  split
  · exact .refl
  · exact (Act.tune _ rfl).acts.tail (.emit _ rfl)

theorem gotSearchReply_acts (h : RegHost) (c : Ptr) (rs : Bytes) :
    Acts lib S c h (h.gotSearchReply lib c rs) := by
  rw [RegHost.gotSearchReply]
  split
  · exact .refl
  split
  · exact .refl
  split
  · exact .refl
  split
  · exact .refl
  · exact (Act.tune _ rfl).acts.tail (.emit _ rfl)

theorem dispatch_acts {code : BitVec 32} (hm : code = regResponse ||| regInsert1 → S.moves)
    (he : code = regResponse ||| regInsert2 → S.enters ∨ (h.client c).state = .registered)
    (rs junk : Bytes) : Acts lib S c h (h.dispatch lib c code rs junk) := by
  rw [RegHost.dispatch]
  split
  · rename_i hcode
    exact gotInsert1Reply_acts (hm hcode) h c rs junk
  split
  · rename_i hcode
    exact gotInsert2Reply_acts (he hcode) rs
  split
  · exact gotLookupReply_acts h c rs false
  split
  · exact gotSearchReply_acts h c rs
  split
  · exact gotLookupReply_acts h c rs true
  · exact .refl

theorem timeout_acts {failed : Bool}
    (hc : (h.client c).state = .insert1 ∨ (h.client c).state = .insert2 → failed = true →
      (h.client c).persist = false → (h.client c).Ends → S.clears (h.client c).nhi) :
    Acts lib S c h (h.timeout lib c failed) := by
  have hgive : ∀ cli, (failed && !(RegClient.persist cli)) = true →
      failed = true ∧ cli.persist = false := fun cli hf => by simpa using hf
  rw [RegHost.timeout]
  split
  · exact .refl
  · exact .refl
  · rename_i hs
    split
    · rename_i hf
      exact fail_acts _ (hc (.inl hs) (hgive _ hf).1 (hgive _ hf).2)
    · exact (send_act h c _).acts.tail (.tune _ rfl)
  · rename_i hs
    split
    · rename_i hf
      exact fail_acts _ (hc (.inr hs) (hgive _ hf).1 (hgive _ hf).2)
    · exact (send_act h c _).acts.tail (.tune _ rfl)
  · split
    · exact (Act.tune _ rfl).acts
    rename_i hout
    split
    · -- a request is outstanding, so that its failure is signalled first
      refine (Act.push (.failed c) rfl nofun).acts.trans (fail_acts _ fun hend => ?_)
      exact absurd hend.2 hout
    · exact (resend_acts h c).tail (.tune _ rfl)

theorem retryExpired_acts
    (hc : (h.client c).GivesUp → (h.client c).Ends → S.clears (h.client c).nhi) :
    Acts lib S c h (h.retryExpired lib c) := by
  rw [RegHost.retryExpired]
  refine (Act.tune _ rfl).acts.trans (timeout_acts ?_)
  rw [modify_client_self]
  exact fun hs hf hp => hc ⟨hs, of_decide_eq_true hf, hp⟩

theorem reregExpired_acts (hm : S.moves) {ni : Bytes} (hn : S.nonces ni) (h : RegHost) (c : Ptr) :
    Acts lib S c h (h.reregExpired lib c ni) := by
  rw [RegHost.reregExpired]
  exact (Act.tune _ rfl).acts.trans (reregister_acts hm hn _ c)

/-! ## Destruction -/

theorem destroyNotify_acts (hd : S.destroys) (h : RegHost) (c : Ptr) :
    Acts lib S c h (h.destroyNotify c) :=
  (Act.push (.destroyed c) rfl fun _ => hd).acts.tail (.emit _ rfl)

theorem destroy_acts (hd : S.destroys) (hc : (h.client c).Ends → S.clears (h.client c).nhi) :
    Acts lib S c h (h.destroy c) := by
  rw [RegHost.destroy]
  split
  · exact destroyNotify_acts hd h c
  · exact (Act.push (.disconnected c) rfl fun _ => hd).acts.trans (disconnect_acts hc)

/-- A function goes on, except for the end of the destructor. -/
theorem resume_acts (hm : S.moves) {ni : Bytes} (hn : S.nonces ni) {f : Frame}
    (hf : f ≠ .destroyed f.client) (hd : f.destructs = true → S.destroys)
    (hc : f.Ends (h.client f.client) → S.clears (h.client f.client).nhi) :
    Acts lib S f.client h (h.resume lib ni f) := by
  cases f with
  | lookups c rest =>
    refine failLookups_acts rest fun hl hp hs => ?_
    subst hl
    exact hc ⟨hp, hs⟩
  | punches c rest =>
    refine failPunches_acts rest fun hl hs => ?_
    subst hl
    exact hc hs
  | searches c rest =>
    refine failSearches_acts rest fun hl => ?_
    subst hl
    exact hc trivial
  | failed c =>
    simp only [RegHost.resume]
    split
    · exact reregister_acts hm hn h c
    · exact .refl
  | disconnected c => exact destroyNotify_acts (hd rfl) h c
  | destroyed c => exact absurd rfl hf

/-! ## Operations -/

/-- **Every operation on a client** is a sequence of its actions; the ones that draw a nonce may
register the client with it. -/
theorem exec_acts {op : Op} (hop : op.client = some c)
    (hn : ∀ ni, op.nonce = some ni → S.moves ∧ S.nonces ni)
    (hc : h.Clears c op → S.clears (h.client c).nhi) (hd : op = .destroy c → S.destroys) :
    Acts lib S c h (h.exec lib op) := by
  cases op with
  | create c persist => cases hop
  | destroy c => cases hop; exact destroy_acts (hd rfl) fun he => hc ⟨rfl, he⟩
  | setInfo c info => cases hop; exact (Act.tune (fun cli => { cli with inf := info }) rfl).acts
  | setPersistent c persist =>
    cases hop
    exact (Act.tune (fun cli => { cli with persist }) rfl).acts
  | setErrorString c err => cases hop; exact (Act.tune (fun cli => { cli with err }) rfl).acts
  | registerAt c srvname srvport ni =>
    cases hop
    exact registerAt_acts (hn ni rfl).1 (hn ni rfl).2 h c srvname srvport
  | reregister c ni => cases hop; exact reregister_acts (hn ni rfl).1 (hn ni rfl).2 h c
  | lookup c idtarget notify => cases hop; exact lookup_acts h c idtarget notify
  | search c text => cases hop; exact search_acts h c text
  | disconnect c => cases hop; exact disconnect_acts fun he => hc ⟨rfl, he⟩
  | resolved id c addrs err ni =>
    cases hop
    exact (Act.resolved id).acts.trans
      (resolveDone_acts (hn ni rfl).1 err (hn ni rfl).2 fun ha he => hc ⟨rfl, ha, he⟩)
  | retryExpired c => cases hop; exact retryExpired_acts fun hg he => hc ⟨rfl, hg, he⟩
  | reregExpired c ni => cases hop; exact reregExpired_acts (hn ni rfl).1 (hn ni rfl).2 h c
  | receive msg src junk => cases hop
  | resume ni => cases hop

/-! ## Whatever the functions do -/

theorem exec_acts_all {op : Op} (hop : op.client = some c) :
    Acts lib .all c h (h.exec lib op) :=
  exec_acts hop (fun _ _ => ⟨trivial, trivial⟩) (fun _ => trivial) fun _ => trivial

theorem dispatch_acts_all (h : RegHost) (c : Ptr) (code : BitVec 32) (rs junk : Bytes) :
    Acts lib .all c h (h.dispatch lib c code rs junk) :=
  dispatch_acts (fun _ => trivial) (fun _ => .inl trivial) rs junk

theorem resume_acts_all (ni : Bytes) {f : Frame} (hf : f ≠ .destroyed f.client) :
    Acts lib .all f.client h (h.resume lib ni f) :=
  resume_acts trivial trivial hf (fun _ => trivial) fun _ => trivial

end Functions

/-! ## What the actions leave alone -/

section Acts

variable {lib : Library} {S : Scope} {h h' : RegHost} {c d : Ptr}

theorem Act.others (hA : Act lib S c h h') (hd : d ≠ c) : h'.client d = h.client d := by
  cases hA with
  | tune | move | enter => exact modify_client_of_ne hd
  | emit | push | resolved => rfl
  | insertNonce | removeNonce | lookupHost | clear => exact Function.update_of_ne hd ..

theorem Acts.others (hA : Acts lib S c h h') (hd : d ≠ c) : h'.client d = h.client d :=
  hA.invariant (P := fun k => k.client d = h.client d) (fun _ _ ha hk => (ha.others hd).trans hk)
    rfl

theorem Acts.alive (hA : Acts lib S c h h') : h'.alive = h.alive := by
  refine hA.invariant (P := fun k => k.alive = h.alive) (fun a b ha hk => ?_) rfl
  rw [← hk]
  cases ha <;> rfl

theorem Acts.entered (hA : Acts lib S c h h') (hS : ¬S.enters)
    (he : (h'.client c).state = .registered) : (h.client c).state = .registered := by
  refine hA.invariant (P := fun k => (k.client c).state = .registered →
    (h.client c).state = .registered) (fun a b ha hk hb => hk ?_) id he
  cases ha with
  | tune f hf =>
    rw [modify_client_self] at hb
    exact (congrArg Standing.state hf).symm.trans hb
  | move _ f _ _ hs =>
    rw [modify_client_self] at hb
    rcases hs with hs | hs | hs
    · exact hs.symm.trans hb
    · exact State.noConfusion (hs.symm.trans hb)
    · exact State.noConfusion (hs.symm.trans hb)
  | enter hE => exact absurd hE hS
  | emit | push | resolved => exact hb
  | insertNonce | removeNonce =>
    simp only [insertNonce_client, removeNonce_client, modify_client_self] at hb
    exact hb
  | lookupHost | clear =>
    simp [lookupHost, RegHost.clear] at hb

/-- Only where its fields are cleared does a client become idle. -/
theorem Acts.awake (hA : Acts lib S c h h') (hS : ∀ b, ¬S.clears b)
    (hc : (h.client c).state ≠ .idle) : (h'.client c).state ≠ .idle := by
  refine hA.invariant (P := fun k => (k.client c).state ≠ .idle) (fun a b ha hk => ?_) hc
  cases ha with
  | tune f hf =>
    rw [modify_client_self]
    exact fun hb => hk ((congrArg Standing.state hf).symm.trans hb)
  | move _ f _ _ hs =>
    rw [modify_client_self]
    rcases hs with hs | hs | hs
    · rwa [hs]
    · rw [hs]
      exact State.noConfusion
    · rw [hs]
      exact State.noConfusion
  | enter =>
    rw [modify_client_self]
    exact State.noConfusion
  | emit | push | resolved => exact hk
  | insertNonce | removeNonce =>
    simp only [insertNonce_client, removeNonce_client, modify_client_self]
    exact hk
  | lookupHost =>
    simp only [lookupHost, modify_client_self]
    exact State.noConfusion
  | clear hb => exact absurd hb (hS _)

theorem Acts.standing (hA : Acts lib .still c h h') :
    (h'.client c).standing = (h.client c).standing := by
  refine hA.invariant (P := fun k => (k.client c).standing = (h.client c).standing)
    (fun a b ha hk => ?_) rfl
  cases ha with
  | tune f hf =>
    rw [modify_client_self]
    exact hf.trans hk
  | emit | push | resolved => exact hk
  | move hS => exact hS.elim
  | enter hS => exact hS.elim
  | insertNonce ni hS => exact hS.elim
  | removeNonce hS => exact hS.elim
  | lookupHost hS => exact hS.elim
  | clear hS => exact hS.elim

theorem Acts.frames (hA : Acts lib S c h h') : ∃ fs, h'.frames = fs ++ h.frames ∧
    ∀ f ∈ fs, f.client = c ∧ (f.destructs = true → S.destroys) := by
  refine hA.invariant (P := fun k => ∃ fs, k.frames = fs ++ h.frames ∧
    ∀ f ∈ fs, f.client = c ∧ (f.destructs = true → S.destroys)) ?_ ⟨[], rfl, nofun⟩
  rintro a b ha ⟨fs, hfs, hf⟩
  cases ha with
  | push f hc hd =>
    refine ⟨f :: fs, congrArg (f :: ·) hfs, fun g hg => ?_⟩
    rcases List.mem_cons.mp hg with rfl | hg
    · exact ⟨hc, hd⟩
    · exact hf g hg
  | _ => exact ⟨fs, hfs, hf⟩

theorem Acts.log (hA : Acts lib S c h h') :
    ∃ es, h'.log = es ++ h.log ∧ ∀ e ∈ es, e.client = c := by
  refine hA.invariant (P := fun k => ∃ es, k.log = es ++ h.log ∧ ∀ e ∈ es, e.client = c) ?_
    ⟨[], rfl, nofun⟩
  rintro a b ha ⟨es, hes, he⟩
  have hadd : ∀ e : Event, e.client = c → ∃ es', e :: a.log = es' ++ h.log ∧
      ∀ e ∈ es', e.client = c := fun e hec =>
    ⟨e :: es, congrArg (e :: ·) hes, List.forall_mem_cons.mpr ⟨hec, he⟩⟩
  cases ha with
  | emit e hec => exact hadd e hec
  | clear => exact hadd (.stateChanged c) rfl
  | _ => exact ⟨es, hes, he⟩

theorem Acts.hosts (hA : Acts lib S c h h') :
    ∀ p ∈ h'.lookupHosts, p.2 = c ∨ p ∈ h.lookupHosts := by
  refine hA.invariant (P := fun k => ∀ p ∈ k.lookupHosts, p.2 = c ∨ p ∈ h.lookupHosts) ?_
    fun _ => .inr
  intro a b ha hk p hp
  cases ha with
  | lookupHost =>
    rcases List.mem_cons.mp hp with rfl | hp
    · exact .inl rfl
    · exact hk p hp
  | resolved => exact hk p (List.mem_of_mem_erase hp)
  | _ => exact hk p hp

end Acts

end RegHost

/-- A reply that reaches a client: the client is found for its nonce and the reply comes from its
server. -/
structure RegHost.Delivers (h : RegHost) (msg : Bytes) (src : Endpoint) (c : Ptr) (r : Reply) :
    Prop where
  decode : Reply.decode msg = some r
  found : h.nhihash.lookup r.nhi = some c
  alive : h.alive c = true
  addr : src.addr ∈ (h.client c).addrs
  port : src.port = (h.client c).srvport

/-- What a datagram does: nothing, or it uses a client that was destroyed, or it reaches one. -/
theorem RegHost.receive_cases (lib : Library) (h : RegHost) (msg : Bytes) (src : Endpoint)
    (junk : Bytes) :
    h.receive lib msg src junk = h ∨
    (h.receive lib msg src junk = { h with fault := true } ∧
      ∃ r c, Reply.decode msg = some r ∧ h.nhihash.lookup r.nhi = some c ∧ h.alive c = false) ∨
    ∃ r c, h.Delivers msg src c r ∧
      h.receive lib msg src junk = h.dispatch lib c r.code r.rs junk := by
  rw [RegHost.receive]
  split
  · exact .inl rfl
  rename_i r hr
  split
  · exact .inl rfl
  rename_i c hc
  split
  · rename_i ha
    exact .inr (.inl ⟨rfl, r, c, hr, hc, ha⟩)
  rename_i ha
  split
  · exact .inl rfl
  rename_i hsrc
  rw [not_or, not_not, not_not] at hsrc
  exact .inr (.inr ⟨r, c, ⟨hr, hc, Bool.eq_true_of_not_eq_false ha, hsrc.1, hsrc.2⟩, rfl⟩)

theorem RegHost.Delivers.receive {h : RegHost} {msg : Bytes} {src : Endpoint} {c : Ptr}
    {r : Reply} (hd : h.Delivers msg src c r) (lib : Library) (junk : Bytes) :
    h.receive lib msg src junk = h.dispatch lib c r.code r.rs junk := by
  simp only [RegHost.receive, hd.decode, hd.found, hd.alive]
  rw [if_neg (by nofun), if_neg fun hn => hn.elim (· hd.addr) (· hd.port)]

end Sst.RegCli
