import Sst.RegCli.Effects

/-!
# The table of nonces

Replies are given to the client that `nhihash` holds for their nonce.

* `Dispatching`: the entries of the table are live clients under their current nonces.
* `Unkeyed`: the operation lets `disconnect` clear no nonce.
* **`reply_dispatch`**: the table is sound, replies reach the client whose nonce they carry, and a
  client is registered by a reply to its nonce, as long as no nonce is cleared by `disconnect`.
-/

namespace Sst.RegCli

open Reg Transition

/-- Nonces are not empty, and no client has a nonce hash where its fields are cleared. -/
def Scope.keyed : Scope := { Scope.all with nonces := (· ≠ []), clears := (· = []) }

namespace RegHost

variable {lib : Library} {S : Scope} {h h' h'' : RegHost} {c d : Ptr}

/-! ## The clients found by their nonces -/

/-- **The entries of the table** are live clients under their current nonces. -/
structure Dispatching (h : RegHost) : Prop where
  sound : h.fault = false
  nonce : ∀ c, (h.client c).ni = [] → (h.client c).nhi = []
  entry : ∀ nhi c, h.nhihash.lookup nhi = some c →
    h.alive c = true ∧ (h.client c).nhi = nhi ∧ nhi ≠ []

theorem Dispatching.new : Dispatching (.new lib) where
  sound := rfl
  nonce _ _ := rfl
  entry _ _ hc := nomatch hc

theorem Dispatching.modify (hD : Dispatching h) {f : RegClient → RegClient}
    (hni : (f (h.client c)).ni = (h.client c).ni) (hnhi : (f (h.client c)).nhi = (h.client c).nhi) :
    Dispatching (h.modify c f) := by
  have hk : ∀ d, ((h.modify c f).client d).ni = (h.client d).ni ∧
      ((h.modify c f).client d).nhi = (h.client d).nhi := by
    intro d
    by_cases hdc : d = c
    · subst hdc
      rw [modify_client_self]
      exact ⟨hni, hnhi⟩
    · rw [modify_client_of_ne hdc]
      exact ⟨rfl, rfl⟩
  constructor
  · exact hD.sound
  · intro d hd
    rw [(hk d).2]
    exact hD.nonce d ((hk d).1 ▸ hd)
  · intro nhi d hd
    rw [(hk d).2]
    exact hD.entry nhi d hd

theorem Dispatching.enter (hD : Dispatching h) {ni : Bytes} (hc : h.alive c = true)
    (hni : (h.client c).ni = []) (hn : ni ≠ []) :
    Dispatching (h.insertNonce lib c ni) where
  sound := hD.sound
  nonce d hd := by
    by_cases hdc : d = c
    · subst hdc
      rw [insertNonce_client, modify_client_self] at hd
      exact absurd hd hn
    · rw [insertNonce_client, modify_client_of_ne hdc] at hd ⊢
      exact hD.nonce d hd
  entry nhi d hd := by
    have hsha : lib.sha256 ni ≠ [] := fun h0 => by
      have := lib.length_sha256 ni
      rw [h0] at this
      cases this
    rw [insertNonce_nhihash] at hd
    by_cases hk : nhi = lib.sha256 ni
    · subst hk
      rw [AList.lookup_insert] at hd
      cases hd
      exact ⟨hc, by rw [insertNonce_client, modify_client_self], hsha⟩
    · rw [AList.lookup_insert_ne hk] at hd
      obtain ⟨ha, he, hne⟩ := hD.entry nhi d hd
      -- the client had no nonce, so that the entry belongs to another one
      have hdc : d ≠ c := by
        rintro rfl
        exact hne (he.symm.trans (hD.nonce d hni))
      exact ⟨ha, by rwa [insertNonce_client, modify_client_of_ne hdc], hne⟩

theorem Dispatching.leave (hD : Dispatching h) : Dispatching (h.removeNonce c) where
  sound := hD.sound
  nonce d hd := by
    by_cases hdc : d = c
    · subst hdc
      rw [removeNonce_client, modify_client_self]
    · rw [removeNonce_client, modify_client_of_ne hdc] at hd ⊢
      exact hD.nonce d hd
  entry nhi d hd := by
    rw [removeNonce_nhihash] at hd
    by_cases hk : nhi = (h.client c).nhi
    · rw [hk, AList.lookup_erase] at hd
      cases hd
    · rw [AList.lookup_erase_ne hk] at hd
      obtain ⟨ha, he, hne⟩ := hD.entry nhi d hd
      have hdc : d ≠ c := by
        rintro rfl
        exact hk he.symm
      exact ⟨ha, by rwa [removeNonce_client, modify_client_of_ne hdc], hne⟩

/-- The end of `disconnect` keeps the table sound only if the client holds no nonce. -/
theorem Dispatching.clear (hD : Dispatching h) (hc : (h.client c).nhi = []) :
    Dispatching (h.clear c) where
  sound := hD.sound
  nonce d hd := by
    by_cases hdc : d = c
    · subst hdc
      simp only [RegHost.clear, emit_client, modify_client_self]
    · simp only [RegHost.clear, emit_client, modify_client_of_ne hdc] at hd ⊢
      exact hD.nonce d hd
  entry nhi d hd := by
    obtain ⟨ha, he, hne⟩ := hD.entry nhi d hd
    have hdc : d ≠ c := by
      rintro rfl
      exact hne (he.symm.trans hc)
    exact ⟨ha, by simpa only [RegHost.clear, emit_client, modify_client_of_ne hdc] using he, hne⟩

/-! ## The condition -/

/-- **The condition**: where `disconnect` clears the fields, the client has no nonce hash. -/
def Unkeyed (h : RegHost) (op : Op) : Prop := ∀ c, h.Clears c op → (h.client c).nhi = []

theorem Act.dispatching (hA : Act lib .keyed c h h') (hc : h.alive c = true)
    (hD : Dispatching h) : Dispatching h' := by
  cases hA with
  | tune f hf => exact hD.modify (congrArg Standing.ni hf) (congrArg Standing.nhi hf)
  | move _ f hni hnhi => exact hD.modify hni hnhi
  | enter => exact hD.modify rfl rfl
  | emit | push | resolved => exact ⟨hD.sound, hD.nonce, hD.entry⟩
  | insertNonce ni hn hni => exact hD.enter hc hni hn
  | removeNonce => exact hD.leave
  | lookupHost =>
    have hD' := hD.modify (c := c) (f := fun cli =>
      { cli with lookupid := h.nextLookup, state := .resolve }) rfl rfl
    exact ⟨hD'.sound, hD'.nonce, hD'.entry⟩
  | clear hnhi => exact hD.clear hnhi

theorem Dispatching.acts (hD : Dispatching h) (hA : Acts lib .keyed c h h')
    (hc : h.alive c = true) : Dispatching h' := by
  have hi : h'.alive = h.alive ∧ Dispatching h' := by
    refine hA.invariant (P := fun k => k.alive = h.alive ∧ Dispatching k) ?_ ⟨rfl, hD⟩
    rintro a b ha ⟨hal, hDa⟩
    exact ⟨ha.acts.alive.trans hal, ha.dispatching (hal ▸ hc) hDa⟩
  exact hi.2

theorem Dispatching.create (hD : Dispatching h) (hc : h.alive c = false) (persist : Bool) :
    Dispatching (h.create lib c persist) where
  sound := hD.sound
  nonce d hd := by
    by_cases hdc : d = c
    · simp only [RegHost.create, hdc, Function.update_self]
      rfl
    · simp only [RegHost.create, Function.update_of_ne hdc] at hd ⊢
      exact hD.nonce d hd
  entry nhi d hd := by
    obtain ⟨ha, he, hne⟩ := hD.entry nhi d hd
    have hdc : d ≠ c := by
      rintro rfl
      rw [hc] at ha
      cases ha
    simp only [RegHost.create, Function.update_of_ne hdc]
    exact ⟨ha, he, hne⟩

theorem Dispatching.erase (hD : Dispatching h) : Dispatching (h.erase c) where
  sound := hD.sound
  nonce := hD.nonce
  entry nhi d hd := by
    by_cases hk : nhi = (h.client c).nhi
    · rw [RegHost.erase, hk, AList.lookup_erase] at hd
      cases hd
    · rw [RegHost.erase, AList.lookup_erase_ne hk] at hd
      obtain ⟨ha, he, hne⟩ := hD.entry nhi d hd
      have hdc : d ≠ c := by
        rintro rfl
        exact hk he.symm
      exact ⟨(Function.update_of_ne hdc ..).trans ha, he, hne⟩

theorem Dispatching.resume (hD : Dispatching h) {ni : Bytes} {f : Frame} (hn : ni ≠ [])
    (ha : h.alive f.client = true)
    (hc : f.Ends (h.client f.client) → (h.client f.client).nhi = []) :
    Dispatching (h.resume lib ni f) := by
  by_cases hf : f = .destroyed f.client
  · rw [hf]
    exact hD.erase
  · exact hD.acts (resume_acts trivial hn hf (fun _ => trivial) hc) ha

/-! ## The functions on the stack -/

/-- The functions on the stack belong to live clients, and what runs below the destructor of a
client does not belong to it. -/
structure Stacked (h : RegHost) : Prop where
  alive : ∀ f ∈ h.frames, h.alive f.client = true
  nested : h.frames.Pairwise fun f g => f.destructs = true → g.client ≠ f.client

theorem Stacked.new : Stacked (.new lib) where
  alive _ hf := nomatch hf
  nested := .nil

theorem Stacked.append (hS : Stacked h) (hc : h.alive c = true) (ha : h'.alive = h.alive)
    {fs : List Frame} (hfs : h'.frames = fs ++ h.frames)
    (hf : ∀ f ∈ fs, f.client = c ∧ f.destructs = false) : Stacked h' := by
  constructor
  · intro f hfm
    rw [ha]
    rw [hfs] at hfm
    rcases List.mem_append.1 hfm with hm | hm
    · rw [(hf f hm).1, hc]
    · exact hS.alive f hm
  · rw [hfs, List.pairwise_append]
    refine ⟨?_, hS.nested, fun f hm g _ hd => ?_⟩
    · refine List.pairwise_of_forall_mem_list fun f hm g _ hd => ?_
      rw [(hf f hm).2] at hd
      cases hd
    · rw [(hf f hm).2] at hd
      cases hd

theorem Stacked.acts (lib : Library) (hS : Stacked h) (hA : Acts lib .living c h h')
    (hc : h.alive c = true) : Stacked h' := by
  obtain ⟨fs, hfs, hf⟩ := hA.frames
  refine hS.append hc hA.alive hfs fun f hm => ⟨(hf f hm).1, ?_⟩
  exact Bool.eq_false_of_not_eq_true (hf f hm).2

/-- A destructor starts to run when no other function of its client does. -/
theorem Stacked.push (hS : Stacked h) {f : Frame} (hf : h.alive f.client = true)
    (hc : ∀ g ∈ h.frames, g.client ≠ f.client) : Stacked (h.push f) where
  alive g hg := by
    rcases List.mem_cons.1 hg with rfl | hg
    · exact hf
    · exact hS.alive g hg
  nested := List.pairwise_cons.2 ⟨fun g hg _ => hc g hg, hS.nested⟩

theorem Stacked.destroyNotify (hS : Stacked h) (hc : h.alive c = true)
    (hf : ∀ g ∈ h.frames, g.client ≠ c) : Stacked (h.destroyNotify c) :=
  ⟨(hS.push (f := .destroyed c) hc hf).alive, (hS.push (f := .destroyed c) hc hf).nested⟩

theorem Stacked.destroy (lib : Library) (hS : Stacked h) (hc : h.alive c = true)
    (hf : ∀ g ∈ h.frames, g.client ≠ c) : Stacked (h.destroy c) := by
  rw [RegHost.destroy]
  split
  · exact hS.destroyNotify hc hf
  · exact (hS.push (f := .disconnected c) hc hf).acts lib
      (disconnect_acts fun _ => trivial) hc

theorem Stacked.erase (hS : Stacked h) (hf : ∀ g ∈ h.frames, g.client ≠ c) :
    Stacked (h.erase c) where
  alive g hg := (Function.update_of_ne (hf g hg) ..).trans (hS.alive g hg)
  nested := hS.nested

theorem Stacked.resume {ni : Bytes} {f : Frame} {rest : List Frame} (hfs : h.frames = f :: rest)
    (hS : Stacked h) : Stacked ({ h with frames := rest }.resume lib ni f) := by
  have hn := hfs ▸ hS.nested
  have ha : h.alive f.client = true := hS.alive f (hfs ▸ List.mem_cons_self)
  have hS' : Stacked { h with frames := rest } :=
    ⟨fun g hg => hS.alive g (hfs ▸ List.mem_cons_of_mem f hg), (List.pairwise_cons.1 hn).2⟩
  cases hd : f.destructs with
  | false =>
    refine hS'.acts lib (resume_acts trivial trivial (fun hf => ?_) (fun ht => ?_)
      fun _ => trivial) ha
    · rw [hf] at hd
      cases hd
    · rw [hd] at ht
      cases ht
  | true =>
    have hrest : ∀ g ∈ rest, g.client ≠ f.client := fun g hg =>
      (List.pairwise_cons.1 hn).1 g hg hd
    cases f with
    | disconnected c => exact hS'.destroyNotify ha hrest
    | destroyed c => exact hS'.erase hrest
    | lookups c l => cases hd
    | punches c l => cases hd
    | searches c l => cases hd
    | failed c => cases hd

/-! ## Steps and runs -/

theorem Dispatching.receive (hD : Dispatching h) (msg : Bytes) (src : Endpoint) (junk : Bytes) :
    Dispatching (h.receive lib msg src junk) := by
  rcases h.receive_cases lib msg src junk with hr | ⟨_, r, c, _, hf, ha⟩ | ⟨r, c, hdel, hr⟩
  · rwa [hr]
  · rw [(hD.entry _ _ hf).1] at ha
    cases ha
  · rw [hr]
    exact hD.acts (dispatch_acts (fun _ => trivial) (fun _ => .inl trivial) _ junk) hdel.alive

theorem Dispatching.exec (hD : Dispatching h) (hS : Stacked h) {op : Op}
    (he : h.enabled op = true) (hk : h.Unkeyed op) : Dispatching (h.exec lib op) := by
  have hn : ∀ ni, op.nonce = some ni → ni ≠ [] := fun ni => nonce_of_enabled he
  have hown : ∀ c, op.client = some c → Dispatching (h.exec lib op) := fun c hop =>
    hD.acts (exec_acts hop (fun ni hni => ⟨trivial, hn ni hni⟩) (hk c) fun _ => trivial)
      (alive_of_enabled he hop)
  cases op with
  | create c persist =>
    have hc : h.alive c = false := by
      unfold enabled at he
      rw [Bool.and_eq_true, Bool.not_eq_true'] at he
      exact he.2
    exact hD.create hc persist
  | receive msg src junk => exact hD.receive msg src junk
  | resume ni =>
    cases hfs : h.frames with
    | nil =>
      simp only [RegHost.exec, hfs]
      exact hD
    | cons f rest =>
      have hD' : Dispatching { h with frames := rest } := ⟨hD.sound, hD.nonce, hD.entry⟩
      simp only [RegHost.exec, hfs]
      refine hD'.resume (hn ni rfl) (hS.alive f (hfs ▸ List.mem_cons_self))
        fun hf => hk _ ⟨f, ?_, rfl, hf⟩
      rw [hfs, List.head?_cons]
      rfl
  | _ => exact hown _ rfl

theorem Stacked.exec (hS : Stacked h) (hD : Dispatching h) {op : Op}
    (he : h.enabled op = true) : Stacked (h.exec lib op) := by
  cases hop : op.client with
  | some c =>
    have hc : h.alive c = true := alive_of_enabled he hop
    by_cases hd : op = .destroy c
    · subst hd
      refine hS.destroy lib hc fun g hg => ?_
      unfold enabled at he
      rw [Bool.and_eq_true, List.all_eq_true] at he
      exact of_decide_eq_true (he.2 g hg)
    · exact hS.acts lib (exec_acts hop (fun _ _ => ⟨trivial, trivial⟩) (fun _ => trivial) hd) hc
  | none =>
    cases op with
    | create c persist =>
      refine ⟨fun f hf => ?_, hS.nested⟩
      by_cases hfc : f.client = c
      · exact hfc ▸ Function.update_self ..
      · exact (Function.update_of_ne hfc ..).trans (hS.alive f hf)
    | receive msg src junk =>
      rcases h.receive_cases lib msg src junk with hr | ⟨_, r, c, _, hf, ha⟩ | ⟨r, c, hdel, hr⟩
      · rwa [RegHost.exec, hr]
      · rw [(hD.entry _ _ hf).1] at ha
        cases ha
      · rw [RegHost.exec, hr]
        exact hS.acts lib (dispatch_acts (fun _ => trivial) (fun _ => .inl trivial) _ junk)
          hdel.alive
    | resume ni =>
      cases hfs : h.frames with
      | nil =>
        simp only [RegHost.exec, hfs]
        exact hS
      | cons f rest =>
        simp only [RegHost.exec, hfs]
        exact hS.resume hfs
    | _ => cases hop

theorem dispatching_reach (hr : (regHost lib).Reach Unkeyed h) :
    h.Dispatching ∧ h.Stacked := by
  refine Machine.Reach.invariant (P := fun h => h.Dispatching ∧ h.Stacked) ⟨.new, .new⟩
    (fun s t op _ hi hk hs => ?_) hr
  obtain ⟨he, rfl⟩ := step_spec hs
  exact ⟨hi.1.exec hi.2 he hk, hi.2.exec hi.1 he⟩

/-- A client becomes registered by an Insert2 reply that reaches it only. -/
theorem entered_spec {op : Op} (hD : Dispatching h)
    (h0 : (h.client c).state ≠ .registered)
    (h1 : ((h.exec lib op).client c).state = .registered) :
    ∃ msg src junk r, op = .receive msg src junk ∧ h.Delivers msg src c r ∧
      r.code = regResponse ||| regInsert2 := by
  -- a function of another client leaves `c` alone, one of `c` does not register it
  have hacts : ∀ d h', h'.client = h.client → ¬ Acts lib .outside d h' (h.exec lib op) := by
    intro d h' hh hA
    rw [← hh] at h0
    by_cases hcd : c = d
    · subst hcd
      exact h0 (hA.entered id h1)
    · exact h0 (hA.others hcd ▸ h1)
  have hown : ∀ d, op.client ≠ some d := fun d hop =>
    hacts d h rfl (exec_acts hop (fun _ _ => ⟨trivial, trivial⟩) (fun _ => trivial)
      fun _ => trivial)
  cases op with
  | create d persist =>
    by_cases hcd : c = d
    · simp only [exec, create, hcd, Function.update_self] at h1
      cases h1
    · simp only [exec, create, Function.update_of_ne hcd] at h1
      exact absurd h1 h0
  | receive msg src junk =>
    rcases h.receive_cases lib msg src junk with hr | ⟨_, r, d, _, hf, ha⟩ | ⟨r, d, hdel, hr⟩
    · rw [exec, hr] at h1
      exact absurd h1 h0
    · rw [(hD.entry _ _ hf).1] at ha
      cases ha
    · rw [exec, hr] at hacts h1
      have hcode : r.code = regResponse ||| regInsert2 := by
        by_contra hcode
        exact hacts d h rfl (dispatch_acts (fun _ => trivial) (absurd · hcode) _ junk)
      have hcd : c = d := by
        by_contra hcd
        rw [(dispatch_acts_all h d r.code r.rs junk).others hcd] at h1
        exact h0 h1
      subst hcd
      exact ⟨msg, src, junk, r, rfl, hdel, hcode⟩
  | resume ni =>
    cases hfs : h.frames with
    | nil =>
      simp only [exec, hfs] at h1
      exact absurd h1 h0
    | cons f rest =>
      simp only [exec, hfs] at hacts h1
      by_cases hf : f = .destroyed f.client
      · rw [hf] at h1
        exact absurd h1 h0
      · exact absurd (resume_acts trivial trivial hf (fun _ => trivial) fun _ => trivial)
          (hacts f.client _ rfl)
  | _ => exact absurd rfl (hown _)

end RegHost

/-- **Replies are dispatched to the client whose nonce they carry**, in every run in which no
client has a nonce hash where `disconnect` clears its fields: the table holds live clients under
their current nonces; a datagram does nothing, or is given to the live client whose current nonce
it carries; and a client is registered by an Insert2 reply to its current nonce only. -/
theorem reply_dispatch {lib : Library} {h : RegHost}
    (hr : (regHost lib).Reach RegHost.Unkeyed h) :
    (∀ nhi c, h.nhihash.lookup nhi = some c →
      h.alive c = true ∧ (h.client c).nhi = nhi ∧ nhi ≠ []) ∧
    (∀ msg src junk, h.receive lib msg src junk = h ∨
      ∃ r c, h.Delivers msg src c r ∧ (h.client c).nhi = r.nhi ∧ r.nhi ≠ [] ∧
        h.receive lib msg src junk = h.dispatch lib c r.code r.rs junk) ∧
    ∀ op h' c, (regHost lib).step h op = some h' →
      (h.client c).state ≠ .registered → (h'.client c).state = .registered →
      ∃ msg src junk r, op = .receive msg src junk ∧ h.Delivers msg src c r ∧
        r.code = regResponse ||| regInsert2 ∧ (h.client c).nhi = r.nhi ∧ r.nhi ≠ [] := by
  obtain ⟨hD, _⟩ := RegHost.dispatching_reach hr
  refine ⟨hD.entry, fun msg src junk => ?_, fun op h' c hs h0 h1 => ?_⟩
  · rcases h.receive_cases lib msg src junk with h0 | ⟨_, r, c, _, hf, ha⟩ | ⟨r, c, hdel, h1⟩
    · exact .inl h0
    · rw [(hD.entry _ _ hf).1] at ha
      cases ha
    · obtain ⟨_, he, hne⟩ := hD.entry _ _ hdel.found
      exact .inr ⟨r, c, hdel, he, hne, h1⟩
  · obtain ⟨_, rfl⟩ := step_spec hs
    obtain ⟨msg, src, junk, r, hop, hdel, hcode⟩ := RegHost.entered_spec hD h0 h1
    obtain ⟨_, he, hne⟩ := hD.entry _ _ hdel.found
    exact ⟨msg, src, junk, r, hop, hdel, hcode, he, hne⟩

/-- ASCII text, one server at one address, and a hash that keeps the last
bytes. -/
def plainLibrary : Library where
  fromUtf8 b := b.map fun x => Char.ofNat x.toNat
  toUtf8 t := t.map fun x => UInt8.ofNat x.toNat
  hostAddress _ := .ip4 1#32
  sha256 b := (b.reverse ++ List.replicate 32 0).take 32
  length_sha256 b := by simp
  id := [1]
  key := [2]
  sign b := b

/-- The nonces of the examples; `plainLibrary` hashes each to itself. -/
def nonce (n : UInt8) : Bytes := List.replicate 32 n

/-- A reply to a nonce as the receiver gets it. -/
def reply (code : BitVec 32) (n : UInt8) (rs : Bytes) : Op :=
  .receive (Xdr.writeWord code ++ Xdr.writeBytes (nonce n) ++ rs) ⟨.ip4 1#32, 80#16⟩ []

/-- An Insert2 reply: a lifetime of an hour and a public endpoint. -/
def insert2Reply (n : UInt8) : Op :=
  reply (regResponse ||| regInsert2) n
    (Xdr.writeWord 3600#32 ++ Xdr.writeWord 1#32 ++ Xdr.writeWord 2#32 ++ Xdr.writeWord 3#32)

/-- A client that registers. -/
def registering : List Op :=
  [.create 0 false, .registerAt 0 ['s'] 80#16 (nonce 1)]

theorem reply_dispatch_registering : ∃ h, (regHost plainLibrary).run (.new plainLibrary)
      registering = some h ∧ h.nhihash.lookup (nonce 1) = some 0 ∧
    h.alive 0 = true ∧ (h.client 0).nhi = nonce 1 ∧ nonce 1 ≠ [] := by
  have hrun : ∃ h₁ h₂, (regHost plainLibrary).step (.new plainLibrary) (.create 0 false) = some h₁ ∧
      (regHost plainLibrary).step h₁ (.registerAt 0 ['s'] 80#16 (nonce 1)) = some h₂ ∧
      h₂.nhihash.lookup (nonce 1) = some 0 := ⟨_, _, rfl, rfl, rfl⟩
  obtain ⟨h₁, h₂, hs₁, hs₂, hl⟩ := hrun
  have hr : (regHost plainLibrary).Reach RegHost.Unkeyed h₂ := by
    refine (Machine.Reach.init.step ?_ hs₁).step ?_ hs₂
    · exact fun _ hc => hc.elim
    · exact fun _ hc => hc.elim
  refine ⟨h₂, ?_, hl, (reply_dispatch hr).1 _ _ hl⟩
  rw [registering, Machine.run_cons, hs₁, Option.bind_some, Machine.run_cons, hs₂]
  rfl

/-- A client is destroyed while it registers, and its entry stays: a late reply uses a client that
no longer exists. -/
theorem reply_dispatch_dangling : ∃ h h',
    (regHost plainLibrary).run (.new plainLibrary)
      (registering ++ [.destroy 0, .resume (nonce 2), .resume (nonce 2)]) = some h ∧
    h.nhihash.lookup (nonce 1) = some 0 ∧ h.alive 0 = false ∧
    (regHost plainLibrary).step h (insert2Reply 1) = some h' ∧ h'.fault = true :=
  ⟨_, _, rfl, rfl, rfl, rfl, rfl⟩

end Sst.RegCli
