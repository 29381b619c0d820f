import Sst.RegCli.Local
import Sst.RegCli.Stable

/-!
# Disconnected clients

* `Dormant`: an idle client has no addresses, no requests and no running timer.
* `Returns`: a call of `disconnect` returns.
* `Restarts`: the operations that register a client again.
* `Late`: what comes late, the addresses of the server or the rest of an outer `disconnect`.
* **`disconnect_final`**: after `disconnect` a client stays quiet if and only if nothing comes
  late, and nothing does if no resolution and no outer `disconnect` is left behind.
-/

namespace Sst.RegCli

open Reg Transition

/-! ## Idle clients -/

/-- The client has no addresses, no requests and no running timer. -/
structure RegClient.AtRest (cli : RegClient) : Prop where
  addrs : cli.addrs = []
  lookups : cli.lookups = []
  punches : cli.punches = []
  searches : cli.searches = []
  retry : cli.retrytimer.ticking = false
  rereg : cli.reregtimer.ticking = false

/-- **Idle clients are at rest.** -/
def RegClient.Dormant (cli : RegClient) : Prop := cli.state = .idle → cli.AtRest

theorem RegClient.dormant_new (lib : Library) (persist : Bool) :
    (RegClient.new lib persist).Dormant := fun _ => ⟨rfl, rfl, rfl, rfl, rfl, rfl⟩

theorem RegClient.Dormant.of_ne {cli : RegClient} (hs : cli.state ≠ .idle) : cli.Dormant :=
  fun hi => absurd hi hs

namespace RegHost

variable {lib : Library} {h h' h'' : RegHost} {c d : Ptr}

theorem atRest_clear (h : RegHost) (c : Ptr) : ((h.clear c).client c).AtRest := by
  simp only [clear, emit_client, modify_client_self]
  exact ⟨rfl, rfl, rfl, rfl, rfl, rfl⟩

theorem clear_state (h : RegHost) (c : Ptr) : ((h.clear c).client c).state = .idle := by
  simp only [clear, emit_client, modify_client_self]

theorem dormant_modify {f : RegClient → RegClient} (hc : (h.client c).Dormant)
    (hs : (f (h.client c)).state = (h.client c).state)
    (hf : (h.client c).AtRest → (f (h.client c)).AtRest) :
    ((h.modify c f).client c).Dormant := by
  rw [modify_client_self]
  exact fun hi => hf (hc (hs.symm.trans hi))

theorem dormant_failSearches (hc : (h.client c).Dormant) (l : List Text) :
    ((h.failSearches c l).client c).Dormant := by
  cases l with
  | nil => exact fun _ => atRest_clear h c
  | cons text rest => exact hc

theorem dormant_failPunches (hc : (h.client c).Dormant) (l : List Bytes) :
    ((h.failPunches c l).client c).Dormant := by
  cases l with
  | nil => exact dormant_failSearches hc _
  | cons id rest => exact hc

theorem dormant_failLookups (hc : (h.client c).Dormant) (l : List Bytes) :
    ((h.failLookups c l).client c).Dormant := by
  cases l with
  | nil => exact dormant_failPunches hc _
  | cons id rest => exact hc

theorem dormant_disconnect (hc : (h.client c).Dormant) :
    ((h.disconnect c).client c).Dormant := by
  rw [disconnect]
  split
  · exact hc
  · exact dormant_failLookups hc _

theorem dormant_fail (hc : (h.client c).Dormant) (err : Text) :
    ((h.fail c err).client c).Dormant := by
  rw [fail]
  exact dormant_disconnect (dormant_modify hc rfl fun hr =>
    ⟨hr.addrs, hr.lookups, hr.punches, hr.searches, hr.retry, hr.rereg⟩)

theorem goInsert1_state (h : RegHost) (c : Ptr) (ni : Bytes) :
    ((h.goInsert1 lib c ni).client c).state = .insert1 := by
  simp only [goInsert1, sendInsert1, send, emit_client, modify_client_self]

theorem lookupHost_state (h : RegHost) (c : Ptr) :
    ((h.lookupHost c).client c).state = .resolve := by
  simp only [lookupHost, modify_client_self]

theorem reregister_state (h : RegHost) (c : Ptr) (ni : Bytes) :
    ((h.reregister lib c ni).client c).state ≠ .idle := by
  rw [reregister]
  generalize (if (h.client c).ni ≠ [] then h.removeNonce c else h) = h₁
  split
  · rw [lookupHost_state]
    exact State.noConfusion
  · rw [goInsert1_state]
    exact State.noConfusion

theorem dormant_resolveDone (hc : (h.client c).Dormant) (addrs : List HostAddress) (err : Text)
    (ni : Bytes) : ((h.resolveDone lib c addrs err ni).client c).Dormant := by
  rw [resolveDone]
  split
  · rename_i ha
    exact dormant_fail (dormant_modify hc rfl fun hr =>
      ⟨ha, hr.lookups, hr.punches, hr.searches, hr.retry, hr.rereg⟩) err
  · refine .of_ne ?_
    rw [goInsert1_state]
    exact State.noConfusion

theorem awake_dispatch (hc : (h.client c).state ≠ .idle) (code : BitVec 32) (rs junk : Bytes) :
    ((h.dispatch lib c code rs junk).client c).state ≠ .idle :=
  (dispatch_acts (S := .lasting) (fun _ => trivial) (fun _ => .inl trivial) rs junk).awake
    (fun _ => id) hc

theorem dormant_timeout (hc : (h.client c).Dormant) (failed : Bool) :
    ((h.timeout lib c failed).client c).Dormant := by
  rw [RegHost.timeout]
  split
  · exact hc
  · exact hc
  · rename_i hs
    split
    · exact dormant_fail hc _
    · refine .of_ne ?_
      simp only [modify_client_self, sendInsert1, send, emit_client, hs]
      exact State.noConfusion
  · rename_i hs
    split
    · exact dormant_fail hc _
    · refine .of_ne ?_
      simp only [modify_client_self, sendInsert2, send, emit_client, hs]
      exact State.noConfusion
  · rename_i hs
    split
    · refine .of_ne ?_
      rw [modify_client_self, hs]
      exact State.noConfusion
    split
    · exact dormant_fail (h := h.push (.failed c)) hc _
    · refine .of_ne ?_
      rw [modify_client_self, (Same.acts (resend_acts h c)).state, hs]
      exact State.noConfusion

theorem dormant_retryExpired (hc : (h.client c).Dormant) :
    ((h.retryExpired lib c).client c).Dormant := by
  rw [RegHost.retryExpired]
  exact dormant_timeout (dormant_modify hc rfl fun hr =>
    ⟨hr.addrs, hr.lookups, hr.punches, hr.searches, rfl, hr.rereg⟩) _

theorem dormant_destroy (hc : (h.client c).Dormant) : ((h.destroy c).client c).Dormant := by
  rw [RegHost.destroy]
  split
  · exact hc
  · exact dormant_disconnect (h := h.push (.disconnected c)) hc

theorem dormant_resume {f : Frame} (hc : (h.client f.client).Dormant) (ni : Bytes) :
    ((h.resume lib ni f).client f.client).Dormant := by
  cases f with
  | lookups c rest => exact dormant_failLookups hc rest
  | punches c rest => exact dormant_failPunches hc rest
  | searches c rest => exact dormant_failSearches hc rest
  | failed c =>
    simp only [RegHost.resume]
    split
    · exact .of_ne (reregister_state h c ni)
    · exact hc
  | disconnected c => exact hc
  | destroyed c => exact hc

theorem Delivers.awake {msg : Bytes} {src : Endpoint} {r : Reply} (hd : h.Delivers msg src c r)
    (hc : (h.client c).Dormant) : (h.client c).state ≠ .idle := by
  intro hi
  have ha := hd.addr
  rw [(hc hi).addrs] at ha
  exact absurd ha List.not_mem_nil

theorem dormant_exec_self (hc : (h.client c).Dormant) {op : Op} (he : h.enabled op = true)
    (hw : h.Works c op) : ((h.exec lib op).client c).Dormant := by
  cases op with
  | create d persist =>
    cases hw
    simp only [exec, RegHost.create, Function.update_self]
    exact RegClient.dormant_new lib persist
  | destroy d => cases hw; exact dormant_destroy hc
  | setInfo d info =>
    cases hw
    rw [exec]
    exact dormant_modify hc rfl fun hr =>
      ⟨hr.addrs, hr.lookups, hr.punches, hr.searches, hr.retry, hr.rereg⟩
  | setPersistent d persist =>
    cases hw
    rw [exec]
    exact dormant_modify hc rfl fun hr =>
      ⟨hr.addrs, hr.lookups, hr.punches, hr.searches, hr.retry, hr.rereg⟩
  | setErrorString d err =>
    cases hw
    rw [exec]
    exact dormant_modify hc rfl fun hr =>
      ⟨hr.addrs, hr.lookups, hr.punches, hr.searches, hr.retry, hr.rereg⟩
  | registerAt d srvname srvport ni => cases hw; exact .of_ne (reregister_state _ c ni)
  | reregister d ni => cases hw; exact .of_ne (reregister_state h c ni)
  | lookup d idtarget notify =>
    cases hw
    unfold enabled at he
    rw [Bool.and_eq_true] at he
    refine .of_ne (Acts.awake (S := .lasting)
      (exec_acts rfl (fun _ hn => by cases hn) id fun hd => by cases hd) (fun _ => id) ?_)
    rw [of_decide_eq_true he.2]
    exact State.noConfusion
  | search d text =>
    cases hw
    unfold enabled at he
    rw [Bool.and_eq_true] at he
    refine .of_ne (Acts.awake (S := .lasting)
      (exec_acts rfl (fun _ hn => by cases hn) id fun hd => by cases hd) (fun _ => id) ?_)
    rw [of_decide_eq_true he.2]
    exact State.noConfusion
  | disconnect d => cases hw; exact dormant_disconnect hc
  | resolved id d addrs err ni =>
    cases hw
    exact dormant_resolveDone (h := { h with lookupHosts := h.lookupHosts.erase (id, c) }) hc
      addrs err ni
  | retryExpired d => cases hw; exact dormant_retryExpired hc
  | reregExpired d ni => cases hw; exact .of_ne (reregister_state _ c ni)
  | receive msg src junk =>
    obtain ⟨r, hd⟩ := hw
    rw [exec, hd.receive lib junk]
    exact .of_ne (awake_dispatch (hd.awake hc) r.code r.rs junk)
  | resume ni =>
    obtain ⟨f, hf, rfl⟩ := hw
    cases hfs : h.frames with
    | nil =>
      rw [hfs] at hf
      cases hf
    | cons g rest =>
      rw [hfs] at hf
      cases hf
      simp only [exec, hfs]
      exact dormant_resume (h := { h with frames := rest }) hc ni

theorem dormant_exec (hc : ∀ c, (h.client c).Dormant) {op : Op} (he : h.enabled op = true)
    (c : Ptr) : ((h.exec lib op).client c).Dormant := by
  by_cases hw : h.Works c op
  · exact dormant_exec_self (hc c) he hw
  · rw [(Away.exec hw).client]
    exact hc c

theorem dormant_reach (hr : (regHost lib).Reach Machine.always h) (c : Ptr) :
    (h.client c).Dormant := by
  refine Machine.Reach.invariant (P := fun h => ∀ c, (h.client c).Dormant)
    (fun _ => RegClient.dormant_new lib false) ?_ hr c
  intro s t op _ hs _ ht
  obtain ⟨he, rfl⟩ := step_spec ht
  exact dormant_exec hs he

end RegHost

/-! ## What may wake a client -/

/-- The client sends a packet, or reports a result of a lookup or of a search. -/
def Event.Active (c : Ptr) : Event → Prop
  | sent d _ _ => d = c
  | lookupDone d _ _ _ => d = c
  | lookupNotify d _ _ _ => d = c
  | searchDone d _ _ _ => d = c
  | _ => False

theorem Event.Active.client {c : Ptr} {e : Event} (he : e.Active c) : e.client = c := by
  cases e with
  | sent d dst msg => exact he
  | lookupDone d id loc info => exact he
  | lookupNotify d id loc info => exact he
  | searchDone d text ids complete => exact he
  | stateChanged d => exact he.elim
  | regClientCreate d => exact he.elim
  | regClientDestroy d => exact he.elim

/-- A loop of `disconnect` with requests left. -/
def Frame.Pending : Frame → Prop
  | lookups _ rest => rest ≠ []
  | punches _ rest => rest ≠ []
  | searches _ rest => rest ≠ []
  | _ => False

/-- A loop of `disconnect`. -/
def Frame.Loops : Frame → Prop
  | lookups _ _ => True
  | punches _ _ => True
  | searches _ _ => True
  | _ => False

namespace RegHost

variable {lib : Library} {h h' h'' : RegHost} {c d : Ptr} {op : Op}

/-- The operation returns from a call of `disconnect`: at once, or as its loops are over. -/
def Returns (h : RegHost) (c : Ptr) (h' : RegHost) : Op → Prop
  | .disconnect d => d = c ∧ h'.frames = h.frames
  | .resume _ => ∃ f rest, h.frames = f :: rest ∧ f.client = c ∧ f.Loops ∧ h'.frames = rest
  | _ => False

/-- The operation registers the client again: a call of `registerAt` or `reregister`, or the one
in `timeout` after the failure of a persistent client. -/
def Restarts (h : RegHost) (c : Ptr) : Op → Prop
  | .registerAt d _ _ _ => d = c
  | .reregister d _ => d = c
  | .resume _ => h.frames.head? = some (.failed c) ∧ (h.client c).persist = true
  | _ => False

/-- **What comes late**: a resolution that finds the server, or a loop of an outer call of
`disconnect` that goes on with the requests left. -/
def Late (h : RegHost) (c : Ptr) : Op → Prop
  | .resolved _ d addrs _ _ => d = c ∧ addrs ≠ []
  | .resume _ => ∃ f ∈ h.frames.head?, f.client = c ∧ f.Pending
  | _ => False

/-- **Nothing is left behind**: no resolution for the client is under way, and no outer call of
`disconnect` has requests left. -/
structure Settled (h : RegHost) (c : Ptr) : Prop where
  hosts : ∀ p ∈ h.lookupHosts, p.2 ≠ c
  frames : ∀ f ∈ h.frames, f.client = c → ¬ f.Pending

/-- **The client is quiet**: it is idle and since `h` it has sent and reported nothing. -/
structure Quiet (c : Ptr) (h h' : RegHost) : Prop where
  state : (h'.client c).state = .idle
  log : ∃ es, h'.log = es ++ h.log ∧ ∀ e ∈ es, ¬ e.Active c

/-- Since `h` the client has sent or reported something. -/
def Loud (c : Ptr) (h h' : RegHost) : Prop :=
  ∃ es, h'.log = es ++ h.log ∧ ∃ e ∈ es, e.Active c

/-- The client stays quiet, and nothing is left behind that was not before. -/
structure Sleeps (c : Ptr) (h h' : RegHost) : Prop extends Quiet c h h' where
  hosts : ∀ p ∈ h'.lookupHosts, p.2 = c → p ∈ h.lookupHosts
  frames : ∀ f ∈ h'.frames, f.client = c → f.Pending → f ∈ h.frames

theorem Quiet.refl (hc : (h.client c).state = .idle) : Quiet c h h :=
  ⟨hc, [], rfl, fun _ he => absurd he List.not_mem_nil⟩

theorem Quiet.trans (h₁ : Quiet c h h') (h₂ : Quiet c h' h'') : Quiet c h h'' where
  state := h₂.state
  log := by
    obtain ⟨es₁, hl₁, hc₁⟩ := h₁.log
    obtain ⟨es₂, hl₂, hc₂⟩ := h₂.log
    refine ⟨es₂ ++ es₁, by rw [hl₂, hl₁, List.append_assoc], fun e he => ?_⟩
    rcases List.mem_append.1 he with he | he
    · exact hc₂ e he
    · exact hc₁ e he

theorem Quiet.loud (h₁ : Quiet c h h') (h₂ : Loud c h' h'') : Loud c h h'' := by
  obtain ⟨es₁, hl₁, -⟩ := h₁.log
  obtain ⟨es₂, hl₂, e, he, hc⟩ := h₂
  exact ⟨es₂ ++ es₁, by rw [hl₂, hl₁, List.append_assoc], e, List.mem_append_left _ he, hc⟩

theorem Loud.mono (h₁ : Loud c h h') (h₂ : ∃ es, h''.log = es ++ h'.log) : Loud c h h'' := by
  obtain ⟨es₁, hl₁, e, he, hc⟩ := h₁
  obtain ⟨es₂, hl₂⟩ := h₂
  exact ⟨es₂ ++ es₁, by rw [hl₂, hl₁, List.append_assoc], e, List.mem_append_right _ he, hc⟩

theorem Loud.not_quiet (h₁ : Loud c h h') : ¬ Quiet c h h' := by
  intro h₂
  obtain ⟨es₁, hl₁, e, he, hc⟩ := h₁
  obtain ⟨es₂, hl₂, hn⟩ := h₂.log
  have hes : es₁ = es₂ := List.append_cancel_right (hl₁.symm.trans hl₂)
  exact hn e (hes ▸ he) hc

theorem Sleeps.settled (hS : Sleeps c h h') (hc : h.Settled c) : h'.Settled c where
  hosts p hp hpc := hc.hosts p (hS.hosts p hp hpc) hpc
  frames f hf hfc hfp := hc.frames f (hS.frames f hf hfc hfp) hfc hfp

theorem Away.sleeps (hA : Away c h h') (hc : (h.client c).state = .idle) : Sleeps c h h' where
  state := by rw [hA.client, hc]
  log := by
    obtain ⟨es, hes, hne⟩ := hA.log
    exact ⟨es, hes, fun e he hec => hne e he hec.client⟩
  hosts := hA.hosts
  frames f hf hfc _ := hA.frames f hf hfc

theorem Sleeps.of_log (es : List Event) (hc : (h'.client c).state = .idle)
    (hl : h'.log = es ++ h.log) (he : ∀ e ∈ es, ¬ e.Active c)
    (hh : ∀ p ∈ h'.lookupHosts, p ∈ h.lookupHosts)
    (hf : ∀ f ∈ h'.frames, f.Pending → f ∈ h.frames) : Sleeps c h h' where
  state := hc
  log := ⟨es, hl, he⟩
  hosts p hp _ := hh p hp
  frames f hfm _ hfp := hf f hfm hfp

theorem Sleeps.of_state (hc : (h'.client c).state = .idle) (hl : h'.log = h.log)
    (hh : ∀ p ∈ h'.lookupHosts, p ∈ h.lookupHosts) (hf : ∀ f ∈ h'.frames, f ∈ h.frames) :
    Sleeps c h h' :=
  .of_log [] hc hl (fun _ he => absurd he List.not_mem_nil) hh fun f hfm _ => hf f hfm

/-! ## One step of an idle client -/

theorem sleeps_destroyNotify (hc : (h.client c).state = .idle) :
    Sleeps c h (h.destroyNotify c) := by
  refine .of_log [.regClientDestroy c] hc rfl ?_ (fun _ hp => hp) ?_
  · intro e he hec
    cases List.mem_singleton.1 he
    exact hec
  · intro f hf hfp
    rcases List.mem_cons.1 hf with rfl | hf
    · exact hfp.elim
    · exact hf

theorem sleeps_modify {f : RegClient → RegClient} (hi : (h.client c).state = .idle)
    (hs : (f (h.client c)).state = (h.client c).state) : Sleeps c h (h.modify c f) := by
  refine .of_state ?_ rfl (fun _ hp => hp) fun _ hf => hf
  rw [modify_client_self, hs, hi]

/-- The end of an outer call of `disconnect` clears the fields once more. -/
theorem sleeps_clear (h : RegHost) (c : Ptr) : Sleeps c h (h.clear c) := by
  refine .of_log [.stateChanged c] (clear_state h c) rfl ?_ (fun _ hp => hp)
    fun _ hf _ => hf
  intro e he hec
  cases List.mem_singleton.1 he
  exact hec

theorem sleeps_resume {f : Frame} (hi : (h.client f.client).state = .idle)
    (hc : (h.client f.client).Dormant) (hp : ¬ f.Pending)
    (hf : f = .failed f.client → (h.client f.client).persist = false) (ni : Bytes) :
    Sleeps f.client h (h.resume lib ni f) := by
  cases f with
  | lookups c rest =>
    have hrest : rest = [] := Classical.not_not.1 hp
    simp only [Frame.client] at hi hc
    simp only [RegHost.resume, hrest, failLookups, (hc hi).punches, failPunches,
      (hc hi).searches, failSearches]
    exact sleeps_clear h c
  | punches c rest =>
    have hrest : rest = [] := Classical.not_not.1 hp
    simp only [Frame.client] at hi hc
    simp only [RegHost.resume, hrest, failPunches, (hc hi).searches, failSearches]
    exact sleeps_clear h c
  | searches c rest =>
    have hrest : rest = [] := Classical.not_not.1 hp
    simp only [RegHost.resume, hrest, failSearches]
    exact sleeps_clear h c
  | failed c =>
    have hpersist : (h.client c).persist = false := hf rfl
    simp only [RegHost.resume]
    rw [if_neg (by rw [hpersist]; exact Bool.noConfusion)]
    exact .of_state hi rfl (fun _ hp => hp) fun _ hf => hf
  | disconnected c => exact sleeps_destroyNotify hi
  | destroyed c =>
    exact .of_state hi rfl (fun _ hp => List.mem_of_mem_filter hp) fun _ hf => hf

theorem sleeps_resolveDone (lib : Library) (hi : (h.client c).state = .idle) (err : Text)
    (ni : Bytes) : Sleeps c h (h.resolveDone lib c [] err ni) := by
  have hs : (((h.modify c fun cli => { cli with addrs := [] }).modify c fun cli =>
      { cli with err }).client c).state = .idle := by
    rw [modify_client_self, modify_client_self]
    exact hi
  rw [resolveDone, if_pos rfl, fail, disconnect, if_pos hs]
  exact .of_state hs rfl (fun _ hp => hp) fun _ hf => hf

/-- **An operation on an idle client** neither wakes it nor leaves anything behind, if it comes
neither late nor to register it again. -/
theorem sleeps_exec_self (hi : (h.client c).state = .idle) (hc : (h.client c).Dormant)
    (he : h.enabled op = true) (hw : h.Works c op) (hr : ¬ h.Restarts c op)
    (hl : ¬ h.Late c op) : Sleeps c h (h.exec lib op) := by
  cases op with
  | create d persist =>
    cases hw
    refine .of_log [.regClientCreate c] ?_ rfl ?_ (fun _ hp => hp) fun _ hf _ => hf
    · simp only [exec, RegHost.create, Function.update_self]
      rfl
    · intro e he hec
      cases List.mem_singleton.1 he
      exact hec
  | destroy d =>
    cases hw
    rw [exec, RegHost.destroy, if_pos hi]
    exact sleeps_destroyNotify hi
  | setInfo d info =>
    cases hw
    rw [exec]
    exact sleeps_modify hi rfl
  | setPersistent d persist =>
    cases hw
    rw [exec]
    exact sleeps_modify hi rfl
  | setErrorString d err =>
    cases hw
    rw [exec]
    exact sleeps_modify hi rfl
  | registerAt d srvname srvport ni => cases hw; exact absurd rfl hr
  | reregister d ni => cases hw; exact absurd rfl hr
  | lookup d idtarget notify =>
    cases hw
    unfold enabled at he
    rw [Bool.and_eq_true] at he
    exact State.noConfusion (hi.symm.trans (of_decide_eq_true he.2))
  | search d text =>
    cases hw
    unfold enabled at he
    rw [Bool.and_eq_true] at he
    exact State.noConfusion (hi.symm.trans (of_decide_eq_true he.2))
  | disconnect d =>
    cases hw
    rw [exec, RegHost.disconnect, if_pos hi]
    exact .of_state hi rfl (fun _ hp => hp) fun _ hf => hf
  | resolved id d addrs err ni =>
    cases hw
    have haddrs : addrs = [] := by
      by_contra ha
      exact hl ⟨rfl, ha⟩
    subst haddrs
    have hS := sleeps_resolveDone lib (c := c)
      (h := { h with lookupHosts := h.lookupHosts.erase (id, c) }) hi err ni
    exact ⟨⟨hS.state, hS.log⟩, fun p hp hpc => List.mem_of_mem_erase (hS.hosts p hp hpc),
      hS.frames⟩
  | retryExpired d =>
    -- the timer of an idle client does not run
    cases hw
    unfold enabled at he
    rw [Bool.and_eq_true] at he
    have ht : (h.client c).retrytimer.ticking = true := he.2
    rw [(hc hi).retry] at ht
    cases ht
  | reregExpired d ni =>
    cases hw
    unfold enabled at he
    rw [Bool.and_eq_true] at he
    have ht : (h.client c).reregtimer.ticking = true := he.2
    rw [(hc hi).rereg] at ht
    cases ht
  | receive msg src junk =>
    -- an idle client has no server whose replies it takes
    obtain ⟨r, hd⟩ := hw
    exact absurd hi (hd.awake hc)
  | resume ni =>
    obtain ⟨f, hf, rfl⟩ := hw
    cases hfs : h.frames with
    | nil =>
      rw [hfs] at hf
      cases hf
    | cons g rest =>
      rw [hfs] at hf
      cases hf
      have hS : Sleeps f.client { h with frames := rest }
          ({ h with frames := rest }.resume lib ni f) := by
        refine sleeps_resume (h := { h with frames := rest }) hi hc
          (fun hp => hl ⟨f, by rw [hfs]; rfl, rfl, hp⟩) ?_ ni
        intro hff
        refine Bool.eq_false_of_not_eq_true fun hp => hr ⟨?_, hp⟩
        rw [hfs, List.head?_cons, hff]
        rfl
      simp only [exec, hfs]
      exact ⟨⟨hS.state, hS.log⟩, hS.hosts, fun g hg hgc hgp =>
        hfs ▸ List.mem_cons_of_mem f (hS.frames g hg hgc hgp)⟩

theorem sleeps_exec (lib : Library) (hi : (h.client c).state = .idle) (hc : (h.client c).Dormant)
    (he : h.enabled op = true) (hr : ¬ h.Restarts c op) (hl : ¬ h.Late c op) :
    Sleeps c h (h.exec lib op) := by
  by_cases hw : h.Works c op
  · exact sleeps_exec_self hi hc he hw hr hl
  · exact (Away.exec hw).sleeps hi

theorem goInsert1_log (lib : Library) (h : RegHost) (c : Ptr) (ni : Bytes) :
    ∃ dst msg, (h.goInsert1 lib c ni).log = .sent c dst msg :: h.log := by
  rw [goInsert1]
  split
  · exact ⟨_, _, rfl⟩
  · exact ⟨_, _, rfl⟩

/-- **What comes late is heard.** -/
theorem loud_exec (hl : h.Late c op) : Loud c h (h.exec lib op) := by
  cases op with
  | resolved id d addrs err ni =>
    obtain ⟨rfl, ha⟩ := hl
    rw [exec, resolveDone, if_neg ha]
    obtain ⟨dst, msg, hm⟩ := goInsert1_log lib
      ({ h with lookupHosts := h.lookupHosts.erase (id, d) }.modify d fun cli =>
        { cli with addrs }) d ni
    exact ⟨[.sent d dst msg], hm, _, List.mem_singleton_self _, rfl⟩
  | resume ni =>
    obtain ⟨f, hf, rfl, hp⟩ := hl
    cases hfs : h.frames with
    | nil =>
      rw [hfs] at hf
      cases hf
    | cons g rest =>
      rw [hfs] at hf
      cases hf
      simp only [exec, hfs]
      cases f with
      | lookups c l =>
        obtain ⟨id, l, rfl⟩ := List.exists_cons_of_ne_nil hp
        exact ⟨[.lookupDone c id .null ∅], rfl, _, List.mem_singleton_self _, rfl⟩
      | punches c l =>
        obtain ⟨id, l, rfl⟩ := List.exists_cons_of_ne_nil hp
        exact ⟨[.lookupDone c id .null ∅], rfl, _, List.mem_singleton_self _, rfl⟩
      | searches c l =>
        obtain ⟨text, l, rfl⟩ := List.exists_cons_of_ne_nil hp
        exact ⟨[.searchDone c text [] true], rfl, _, List.mem_singleton_self _, rfl⟩
      | failed c => exact hp.elim
      | disconnected c => exact hp.elim
      | destroyed c => exact hp.elim
  | _ => exact hl.elim

/-! ## Runs -/

/-- A loop that adds no frame has reached the end of `disconnect`. -/
theorem failSearches_returns {l : List Text} (hf : (h.failSearches c l).frames = h.frames) :
    ((h.failSearches c l).client c).state = .idle := by
  cases l with
  | nil => exact clear_state h c
  | cons text rest => exact absurd hf (List.cons_ne_self _ _)

theorem failPunches_returns {l : List Bytes} (hf : (h.failPunches c l).frames = h.frames) :
    ((h.failPunches c l).client c).state = .idle := by
  cases l with
  | nil => exact failSearches_returns hf
  | cons id rest => exact absurd hf (List.cons_ne_self _ _)

theorem failLookups_returns {l : List Bytes} (hf : (h.failLookups c l).frames = h.frames) :
    ((h.failLookups c l).client c).state = .idle := by
  cases l with
  | nil => exact failPunches_returns hf
  | cons id rest => exact absurd hf (List.cons_ne_self _ _)

/-- **`disconnect` returns to the idle state.** -/
theorem idle_of_returns (hr : h.Returns c (h.exec lib op) op) :
    ((h.exec lib op).client c).state = .idle := by
  cases op with
  | disconnect d =>
    obtain ⟨rfl, hf⟩ := hr
    rw [exec, RegHost.disconnect] at hf ⊢
    split
    · assumption
    · rename_i hs
      rw [if_neg hs] at hf
      exact failLookups_returns hf
  | resume ni =>
    obtain ⟨f, rest, hfs, rfl, hloop, hf⟩ := hr
    simp only [exec, hfs] at hf ⊢
    cases f with
    | lookups c l => exact failLookups_returns (h := { h with frames := rest }) hf
    | punches c l => exact failPunches_returns (h := { h with frames := rest }) hf
    | searches c l => exact failSearches_returns (h := { h with frames := rest }) hf
    | failed c => exact hloop.elim
    | disconnected c => exact hloop.elim
    | destroyed c => exact hloop.elim
  | _ => exact hr.elim

/-- In a run that does not register the client again, it stays quiet as long as nothing comes
late. -/
theorem quiet_iff (hr : (regHost lib).Reach Machine.always h) (hi : (h.client c).state = .idle)
    {l : List Op} (hd : (regHost lib).Meets (fun s i => ¬ s.Restarts c i) h l)
    (hl : (regHost lib).run h l = some h') :
    Quiet c h h' ↔ (regHost lib).Meets (fun s i => ¬ s.Late c i) h l := by
  have hor := Machine.meets_or_of (m := regHost lib) (C := fun s i => ¬ s.Late c i)
    (D := fun s i => ¬ s.Restarts c i) (I := fun t => (t.client c).Dormant ∧ Quiet c h t)
    (B := Loud c h) ?hI ?hN ?hB ⟨dormant_reach hr c, .refl hi⟩ hd hl
  · rcases hor with ⟨hm, -, hq⟩ | ⟨hm, hb⟩
    · exact iff_of_true hq hm
    · exact iff_of_false hb.not_quiet hm
  case hI =>
    rintro s t op ⟨hc, hq⟩ hre hla ht
    obtain ⟨he, rfl⟩ := step_spec ht
    have hS := sleeps_exec lib hq.state hc he hre hla
    refine ⟨?_, hq.trans hS.toQuiet⟩
    by_cases hw : s.Works c op
    · exact dormant_exec_self hc he hw
    · rwa [(Away.exec hw).client]
  case hN =>
    rintro s t op ⟨-, hq⟩ - hla ht
    obtain ⟨-, rfl⟩ := step_spec ht
    exact hq.loud (loud_exec (Classical.not_not.1 hla))
  case hB =>
    rintro s t op hb ht
    obtain ⟨-, rfl⟩ := step_spec ht
    exact hb.mono (log_exec lib s op)

theorem Settled.not_late (hc : h.Settled c) (he : h.enabled op = true) : ¬ h.Late c op := by
  intro hl
  cases op with
  | resolved id d addrs err ni =>
    obtain ⟨rfl, -⟩ := hl
    unfold enabled at he
    rw [Bool.and_eq_true] at he
    exact hc.hosts _ (of_decide_eq_true he.2) rfl
  | resume ni =>
    obtain ⟨f, hf, hfc, hp⟩ := hl
    exact hc.frames f (List.mem_of_mem_head? hf) hfc hp
  | _ => exact hl.elim

theorem quiet_of_settled (hr : (regHost lib).Reach Machine.always h)
    (hi : (h.client c).state = .idle) (hc : h.Settled c)
    (ht : ((regHost lib).startAt h).Reach (fun s i => ¬ s.Restarts c i) h') : Quiet c h h' := by
  have hinv : (h'.client c).Dormant ∧ h'.Settled c ∧ Quiet c h h' := by
    refine Machine.Reach.invariant
      (P := fun t => (t.client c).Dormant ∧ t.Settled c ∧ Quiet c h t)
      ⟨dormant_reach hr c, hc, .refl hi⟩ ?_ ht
    rintro s t op - ⟨hd, hs, hq⟩ hre hst
    obtain ⟨he, rfl⟩ := step_spec hst
    have hS := sleeps_exec lib hq.state hd he hre (hs.not_late he)
    refine ⟨?_, hS.settled hs, hq.trans hS.toQuiet⟩
    by_cases hw : s.Works c op
    · exact dormant_exec_self hd he hw
    · rwa [(Away.exec hw).client]
  exact hinv.2.2

end RegHost

/-- **Disconnect is final** where nothing is left behind. In every run a call of `disconnect`
returns with the client idle. From there, in every run that does not register the client again, it
stays idle, sends nothing and reports nothing, if and only if no resolution finds its server and
no outer call of `disconnect` goes on with requests left; and this is so in all of these runs if,
as `disconnect` returned, no resolution for the client was under way and no outer call had
requests left. -/
theorem disconnect_final {lib : Library} {h : RegHost}
    (hr : (regHost lib).Reach Machine.always h) (c : Ptr) :
    (∀ op h', (regHost lib).step h op = some h' → h.Returns c h' op →
      (h'.client c).state = .idle) ∧
    ((h.client c).state = .idle →
      (∀ l h', (regHost lib).run h l = some h' →
        (regHost lib).Meets (fun s i => ¬ s.Restarts c i) h l →
        (RegHost.Quiet c h h' ↔ (regHost lib).Meets (fun s i => ¬ s.Late c i) h l)) ∧
      (h.Settled c → ∀ h',
        ((regHost lib).startAt h).Reach (fun s i => ¬ s.Restarts c i) h' →
        RegHost.Quiet c h h')) := by
  refine ⟨fun op h' hs hret => ?_, fun hi => ⟨fun l h' hl hd => ?_, fun hc h' ht => ?_⟩⟩
  · obtain ⟨-, rfl⟩ := step_spec hs
    exact RegHost.idle_of_returns hret
  · exact RegHost.quiet_iff hr hi hd hl
  · exact RegHost.quiet_of_settled hr hi hc ht

/-- A client that registers and is disconnected. -/
def disconnecting : List Op := registering ++ [.disconnect 0]

/-- The server is given by its address, so that no resolution is under way: nothing brings the
client back. -/
theorem disconnect_final_registering : ∃ h,
    (regHost plainLibrary).run (.new plainLibrary) disconnecting = some h ∧
    (h.client 0).state = .idle ∧
    ∀ h', ((regHost plainLibrary).startAt h).Reach (fun s i => ¬ s.Restarts 0 i) h' →
      RegHost.Quiet 0 h h' := by
  have hrun : ∃ h, (regHost plainLibrary).run (.new plainLibrary) disconnecting = some h ∧
      (h.client 0).state = .idle ∧ h.lookupHosts = [] ∧ h.frames = [] := ⟨_, rfl, rfl, rfl, rfl⟩
  obtain ⟨h, hl, hi, hh, hf⟩ := hrun
  refine ⟨h, hl, hi, ((disconnect_final (Machine.reach_of_run hl) 0).2 hi).2 ⟨?_, ?_⟩⟩
  · intro p hp
    rw [hh] at hp
    exact absurd hp List.not_mem_nil
  · intro f hfm
    rw [hf] at hfm
    exact absurd hfm List.not_mem_nil

/-- A server with a name. -/
def nameLibrary : Library := { plainLibrary with hostAddress := fun _ => .null }

/-- The server's name is resolved after the client was disconnected: the client leaves the idle
state, and sends a request. -/
theorem disconnect_final_resolving : ∃ h₁ h₂ h₃,
    (regHost nameLibrary).run (.new nameLibrary) registering = some h₁ ∧
    (regHost nameLibrary).step h₁ (.disconnect 0) = some h₂ ∧
    h₁.Returns 0 h₂ (.disconnect 0) ∧ (h₂.client 0).state = .idle ∧
    (regHost nameLibrary).step h₂ (.resolved 0 0 [.ip4 1#32] [] (nonce 2)) = some h₃ ∧
    ¬ h₂.Restarts 0 (.resolved 0 0 [.ip4 1#32] [] (nonce 2)) ∧
    (h₃.client 0).state = .insert1 ∧
    ∃ msg, h₃.log = .sent 0 [⟨.ip4 1#32, 80#16⟩] msg :: h₂.log :=
  ⟨_, _, _, rfl, rfl, ⟨rfl, rfl⟩, rfl, rfl, fun hre => hre.elim, rfl, _, rfl⟩

end Sst.RegCli
