import Sst.Reg.Cookies

/-!
# The provenance of registrations

Datagrams are arbitrary, but the keyed hash of the server cannot be computed without its secret:
whoever presents a cookie under the secret has it from a message of the server.

* `Unforged`: the condition on the datagrams.
* `Stems`: a record comes from a signed Insert2 whose cookie was sent to its endpoint before.
* `Proven`: the invariant.
* **`registration_provenance`**: every record stems from such a request, and lookups and searches
  are answered for registered callers only.
-/

namespace Sst.Reg

open Symbolic Transition

variable {pf : Platform}

/-- A cookie under the server's secret was sent by the server, to whomever. -/
def RegServer.Unforged (s : RegServer) : Op → Prop
  | .receive _ (.insert2 _ _ (.cookie c) _ _ _) r =>
    c.secret = s.secret.getD r → ∃ dst nhi, .sent dst (.insert1 nhi c) ∈ s.log
  | _ => True

/-- **A record stems from an Insert2** from its endpoint that is signed under a key with the
fingerprint of its identifier, with the nonce behind its hash and with a cookie for the endpoint,
the identifier and the hash that had been sent to the endpoint before. -/
def Stems (log : List Event) (rec : RegRecord) : Prop :=
  ∃ newer older ni c key sig,
    log = newer ++ .received rec.ep (.insert2 rec.id ni (.cookie c) rec.info key sig) :: older ∧
    .sent rec.ep (.insert1 rec.nhi c) ∈ older ∧
    c.srcep = rec.ep ∧ c.idi = rec.id ∧ c.nhi = rec.nhi ∧ rec.nhi = .hash ni ∧
    rec.id = .key rsa160 key ∧ sig.verify key ⟨rec.id, ni, .cookie c, rec.info⟩ = true

theorem Stems.mono {log new : List Event} {rec : RegRecord} (h : Stems log rec) :
    Stems (new ++ log) rec := by
  obtain ⟨newer, older, ni, c, key, sig, rfl, h⟩ := h
  exact ⟨new ++ newer, older, ni, c, key, sig, (List.append_assoc ..).symm, h⟩

/-- The identifier and the nonce with which the caller of a lookup or a search names itself. -/
def Request.caller : Request → Option (Ident × Nonce)
  | lookup idi nhi _ _ => some (idi, nhi)
  | search idi nhi _ => some (idi, nhi)
  | _ => none

namespace RegServer

/-- What the server sent and what it stores: challenges for their receivers, no response for a
cookie, and records that stem from requests. -/
structure Proven (s : RegServer) : Prop where
  cookies : ∀ dst nhi c, .sent dst (.insert1 nhi c) ∈ s.log →
    c.srcep = dst ∧ c.nhi = nhi
  empty : ∀ c resp, s.chalhash.lookup c = some resp → resp = none
  records : ∀ p rec, s.heap p = some rec → Stems s.log rec

/-- The queries among new messages are answered for a registered caller, to endpoints of
records. -/
def Entitled (s : RegServer) (op : Op) (new : List Event) : Prop :=
  ∀ dst resp, .sent dst resp ∈ new → resp.isQuery = true →
    (∃ p rec, s.heap p = some rec ∧ rec.ep = dst) ∧
    ∃ src req r idi nhi, op = .receive src req r ∧ req.caller = some (idi, nhi) ∧
      ∃ p reci, s.Caller src idi nhi p reci

variable {s s' : RegServer} {op : Op}

theorem Proven.new : Proven .new where
  cookies _ _ _ h := absurd h List.not_mem_nil
  empty _ _ h := (nomatch h)
  records _ _ h := (nomatch h)

theorem Proven.extend (h : s.Proven) {l : List Event} (hlog : s'.log = l ++ s.log)
    (hnew : ∀ dst nhi c, .sent dst (.insert1 nhi c) ∈ l → c.srcep = dst ∧ c.nhi = nhi)
    (hhash : ∀ c resp, s'.chalhash.lookup c = some resp → resp = none)
    (hheap : ∀ p rec, s'.heap p = some rec → Stems s'.log rec ∨ s.heap p = some rec) :
    s'.Proven := by
  refine ⟨fun dst nhi c hmem => ?_, hhash, fun p rec hp => ?_⟩
  · rw [hlog] at hmem
    rcases List.mem_append.1 hmem with hmem | hmem
    · exact hnew dst nhi c hmem
    · exact h.cookies dst nhi c hmem
  · rcases hheap p rec hp with hp | hp
    · exact hp
    · rw [hlog]
      exact (h.records p rec hp).mono

/-- What one operation does to the log: it adds events, keeps the invariant, and answers queries
for registered callers only. -/
def Serves (s : RegServer) (op : Op) (s' : RegServer) : Prop :=
  ∃ new, s'.log = new ++ s.log ∧ s.Entitled op new ∧ s'.Proven

theorem entitled_of_insert {new : List Event}
    (h : ∀ dst resp, .sent dst resp ∈ new → resp.isQuery = false) : s.Entitled op new := by
  intro dst resp hmem hq
  rw [h dst resp hmem] at hq
  cases hq

theorem replyInsert1_serves (h : s.Proven) (src : Endpoint) (req : Request) (r : ℕ) (idi : Ident)
    (nhi : Nonce) :
    s.Serves (.receive src req r) ((s.arrive src req).replyInsert1 r src idi nhi) := by
  refine ⟨[_, _], rfl, entitled_of_insert fun dst resp hmem => ?_,
    h.extend (l := [_, _]) rfl (fun dst nhi' c hmem => ?_) h.empty fun p rec hp => .inr hp⟩
  · rcases List.mem_cons.1 hmem with hmem | hmem
    · cases hmem
      rfl
    · cases List.mem_singleton.1 hmem
  · rcases List.mem_cons.1 hmem with hmem | hmem
    · cases hmem
      exact ⟨rfl, rfl⟩
    · cases List.mem_singleton.1 hmem

theorem quiet_serves (h : s.Proven) {src : Endpoint} {req : Request} {r : ℕ}
    (hlog : s'.log = .received src req :: s.log) (hhash : s'.chalhash = s.chalhash)
    (hdb : s'.toDatabase = s.toDatabase) : s.Serves (.receive src req r) s' := by
  refine ⟨[_], hlog, entitled_of_insert fun dst resp hmem => ?_,
    h.extend (l := [_]) hlog (fun dst nhi c hmem => ?_) (hhash ▸ h.empty)
      fun p rec hp => .inr (hdb ▸ hp)⟩
  · cases List.mem_singleton.1 hmem
  · cases List.mem_singleton.1 hmem

theorem queried_serves (h : s.Proven) {src : Endpoint} {req : Request} {r : ℕ} {idi : Ident}
    {nhi : Nonce} (hreq : req.caller = some (idi, nhi))
    (hs : (s.arrive src req).Queried src idi nhi s') : s.Serves (.receive src req r) s' := by
  obtain ⟨new, rfl, hnew⟩ := hs
  have hlog : new ++ (s.arrive src req).log = (new ++ [.received src req]) ++ s.log :=
    (List.append_assoc new [_] s.log).symm
  have hmem : ∀ e ∈ new ++ [Event.received src req], ∀ dst resp, e = .sent dst resp →
      e ∈ new := by
    rintro e he dst resp rfl
    rcases List.mem_append.1 he with he | he
    · exact he
    · cases List.mem_singleton.1 he
  refine ⟨_, hlog, fun dst resp he _ => ?_, h.extend hlog (fun dst nhi' c he => ?_) h.empty
    fun p rec hp => .inr hp⟩
  · obtain ⟨⟨p, reci, hc⟩, q, rec, resp', hq, heq, -⟩ := hnew _ (hmem _ he _ _ rfl)
    cases heq
    exact ⟨⟨q, rec, hq, rfl⟩, src, req, r, idi, nhi, rfl, hreq, p, reci, hc⟩
  · obtain ⟨-, q, rec, resp', -, heq, hquery⟩ := hnew _ (hmem _ he _ _ rfl)
    cases heq
    cases hquery

theorem doInsert2_serves (hc : Consistent pf s.toDatabase) (h : s.Proven) {src : Endpoint} {r : ℕ}
    {idi : Ident} {ni : Nonce} {chal : Chal} {info : Bytes} {key : PubKey}
    {sig : Signature PubKey SigData}
    (hu : s.Unforged (.receive src (.insert2 idi ni chal info key sig) r))
    (hs : (s.arrive src (.insert2 idi ni chal info key sig)).doInsert2 pf r src idi ni chal info key
      sig = some s') :
    s.Serves (.receive src (.insert2 idi ni chal info key sig) r) s' := by
  have hcases : Inserted pf (s.arrive src (.insert2 idi ni chal info key sig)) r src idi ni chal
      info key sig ((s.arrive src (.insert2 idi ni chal info key sig)).doInsert2 pf r src idi ni
        chal info key sig) := doInsert2_cases ..
  rw [hs] at hcases
  generalize ho : some s' = o at hcases
  cases hcases with
  | invalid hid =>
    cases ho
    exact quiet_serves h rfl rfl rfl
  | challenge hid hchal =>
    cases ho
    exact replyInsert1_serves h ..
  | replay hid hchal resp hresp =>
    cases ho
    cases h.empty _ _ hresp
    exact quiet_serves h rfl rfl rfl
  | reject hid hchal hnew =>
    cases ho
    refine ⟨[_, _], rfl, entitled_of_insert fun dst resp hmem => ?_,
      h.extend (l := [_, _]) rfl (fun dst nhi c hmem => ?_) (fun c resp hl => ?_)
        fun p rec hp => .inr hp⟩
    · rcases List.mem_cons.1 hmem with hmem | hmem
      · cases hmem
      · cases List.mem_singleton.1 hmem
    · rcases List.mem_cons.1 hmem with hmem | hmem
      · cases hmem
      · cases List.mem_singleton.1 hmem
    · rcases eq_or_ne c (s.calcCookie r src idi (.hash ni)) with rfl | hne
      · exact (Option.some.inj ((AList.lookup_insert _).symm.trans hl)).symm
      · exact h.empty c resp ((AList.lookup_insert_ne hne).symm.trans hl)
  | accept hid hchal hnew hsig =>
    obtain ⟨db, hacc, -, -, hrecs⟩ := accept_spec
      (s := (s.arrive src (.insert2 idi ni chal info key sig)).withSecret r) hc src idi (.hash ni)
      (s.calcCookie r src idi (.hash ni)) info
    cases ho.trans hacc
    refine ⟨[_, _, _], rfl, entitled_of_insert fun dst resp hmem => ?_,
      h.extend (l := [_, _, _]) rfl (fun dst nhi c hmem => ?_) h.empty fun p rec hp => ?_⟩
    · rcases List.mem_cons.1 hmem with hmem | hmem
      · cases hmem
        rfl
      · rcases List.mem_cons.1 hmem with hmem | hmem
        · cases hmem
        · cases List.mem_singleton.1 hmem
    · rcases List.mem_cons.1 hmem with hmem | hmem
      · cases hmem
      · rcases List.mem_cons.1 hmem with hmem | hmem
        · cases hmem
        · cases List.mem_singleton.1 hmem
    · rcases hrecs p rec hp with rfl | hp
      · refine .inl ?_
        have hchal : chal = .cookie (s.calcCookie r src idi (.hash ni)) := hchal
        subst hchal
        obtain ⟨dst, nhi, hsent⟩ := hu rfl
        obtain ⟨hdst, hnhi⟩ := h.cookies dst nhi _ hsent
        cases hdst
        cases hnhi
        exact ⟨[_, _], s.log, ni, _, key, sig, rfl, hsent, rfl, rfl, rfl, rfl, hid, hsig⟩
      · exact .inr hp

/-- **Every step serves.** -/
theorem step_serves (hc : Consistent pf s.toDatabase) (h : s.Proven) (hu : s.Unforged op)
    (hs : (regServer pf).step s op = some s') : s.Serves op s' := by
  dsimp only [regServer] at hs
  split at hs
  · cases op with
    | receive src req r =>
      have hca : Consistent pf (s.arrive src req).toDatabase := hc
      change (s.arrive src req).udpDispatch pf r src req = some s' at hs
      cases req with
      | insert1 idi nhi =>
        cases hs
        unfold doInsert1
        split
        · exact quiet_serves h rfl rfl rfl
        · exact replyInsert1_serves h ..
      | insert2 idi ni chal info key sig => exact doInsert2_serves hc h hu hs
      | lookup idi nhi idr notify =>
        obtain ⟨s'', hs', hq⟩ := doLookup_spec hca src idi nhi idr notify
        cases hs'.symm.trans hs
        exact queried_serves h rfl hq
      | search idi nhi search =>
        obtain ⟨s'', hs', hq⟩ := doSearch_spec hca src idi nhi search
        cases hs'.symm.trans hs
        exact queried_serves h rfl hq
      | invalid =>
        cases hs
        exact quiet_serves h rfl rfl rfl
    | timerEvent p =>
      cases hs
      exact ⟨[], rfl, fun _ _ hmem => absurd hmem List.not_mem_nil, h.cookies, h.empty, h.records⟩
    | deleteLater p =>
      obtain ⟨db, hdb, rfl⟩ := Option.map_eq_some_iff.1 hs
      refine ⟨[], rfl, fun _ _ hmem => absurd hmem List.not_mem_nil, h.cookies, h.empty,
        fun q rec hq => h.records q rec ?_⟩
      obtain ⟨old, hp⟩ : ∃ old, s.heap p = some old := by
        unfold Database.delete at hdb
        obtain ⟨old, hp, -⟩ := Option.bind_eq_some_iff.1 hdb
        exact ⟨old, hp⟩
      obtain ⟨db', hdb', -, hheap, -⟩ := hc.delete hp
      cases hdb.symm.trans hdb'
      change db.heap q = some rec at hq
      rw [hheap] at hq
      exact (Consistent.heap_delete.1 hq).2
  · cases hs

theorem proven_reach (h : (regServer pf).Reach Unforged s) : s.Proven := by
  refine h.invariant Proven.new fun s t op hr hp hu hstep => ?_
  obtain ⟨-, -, -, ht⟩ :=
    step_serves (consistent_reach (hr.mono fun _ _ _ => trivial)) hp hu hstep
  exact ht

end RegServer

/-- **Provenance.** In every run with datagrams that forge no cookie, each record stems from a
signed Insert2 whose cookie had been sent to its endpoint; and each step answers lookups and
searches for registered callers only, to endpoints of records. -/
theorem registration_provenance {s : RegServer} (h : (regServer pf).Reach RegServer.Unforged s) :
    (∀ p rec, s.heap p = some rec → Stems s.log rec) ∧
    ∀ op s', s.Unforged op → (regServer pf).step s op = some s' →
      ∃ new, s'.log = new ++ s.log ∧ s.Entitled op new := by
  have hp := RegServer.proven_reach h
  refine ⟨hp.records, fun op s' hu hs => ?_⟩
  obtain ⟨new, hlog, hent, -⟩ :=
    RegServer.step_serves (RegServer.consistent_reach (h.mono fun _ _ _ => trivial)) hp hu hs
  exact ⟨new, hlog, hent⟩

/-- The client with key 7 looks itself up, with a notification. -/
def lookupSelf : Op :=
  .receive 5 (.lookup (.key rsa160 7) (.hash (.random 1)) (.key rsa160 7) true) 0

theorem registration_provenance_lookup : ∃ s s' rec, s.heap 0 = some rec ∧ Stems s.log rec ∧
    (regServer asciiPlatform).step s lookupSelf = some s' ∧ s'.log.length = s.log.length + 3 ∧
    ∃ new, s'.log = new ++ s.log ∧ s.Entitled lookupSelf new := by
  have hrun : ∃ s₁ s₂ s₃ rec, (regServer asciiPlatform).step .new (insert1Op 1) = some s₁ ∧
      (regServer asciiPlatform).step s₁ (insert2Op 1 []) = some s₂ ∧
      (regServer asciiPlatform).step s₂ lookupSelf = some s₃ ∧
      s₁.Unforged (insert2Op 1 []) ∧ s₂.heap 0 = some rec ∧ s₃.log.length = s₂.log.length + 3 :=
    ⟨_, _, _, _, rfl, rfl, rfl, fun _ => ⟨5, _, List.mem_cons_self⟩, rfl, rfl⟩
  obtain ⟨s₁, s₂, s₃, rec, h1, h2, h3, hu, hrec, hlen⟩ := hrun
  have hr : (regServer asciiPlatform).Reach RegServer.Unforged s₂ :=
    (Machine.Reach.init.step trivial h1).step hu h2
  obtain ⟨hstems, hserves⟩ := registration_provenance hr
  exact ⟨s₂, s₃, rec, hrec, hstems 0 rec hrec, h3, hlen, hserves lookupSelf s₃ trivial h3⟩

end Sst.Reg
