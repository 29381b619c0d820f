import Sst.Reg.Tables

/-!
# Replays at the registration server

Requests arrive with any duplication and delay; `chalhash` keeps the answers to bad clients, but
not those to clients that were accepted.

* `RegServer.sent`, `RegServer.answers`: the messages sent and the verdicts on valid cookies.
* `RegServer.Verdict`, `step_verdict`: what a step does with a valid cookie.
* `Fresh`: no Insert2 carries the cookie of an accepted one.
* `Replayed`: a repeated Insert2 is answered as before and changes nothing.
* **`insert2_replay`**: while all requests are fresh each cookie creates one record, and a repeated
  Insert2 is harmless exactly if it is fresh.
* `insert2_replay_stale`: an old Insert2 replaces a newer registration.
-/

namespace Sst.Reg

open Symbolic Transition

variable {pf : Platform}

/-! ## What was sent and answered -/

/-- The message that was sent. -/
def Event.message : Event → Option (Endpoint × Response)
  | sent dst resp => some (dst, resp)
  | _ => none

/-- The answer to an Insert2 with a valid cookie. -/
def Event.answer : Event → Option (Cookie × Option Response)
  | answered chal resp => some (chal, resp)
  | _ => none

namespace RegServer

/-- The messages sent, newest first. -/
def sent (s : RegServer) : List (Endpoint × Response) := s.log.filterMap Event.message

/-- The answers to Insert2 requests with valid cookies, newest first. -/
def answers (s : RegServer) : List (Cookie × Option Response) := s.log.filterMap Event.answer

/-- The cookies under which records were created, newest first. -/
def creations (s : RegServer) : List Cookie :=
  s.answers.filterMap fun x => x.2.map fun _ => x.1

/-- The valid cookie that an Insert2 carries. -/
def validCookie (s : RegServer) : Op → Option Cookie
  | .receive src (.insert2 idi ni chal _ _ _) r =>
    let cookie := s.calcCookie r src idi (.hash ni)
    if idi ≠ .null ∧ chal = .cookie cookie then some cookie else none
  | _ => none

variable {s s' : RegServer} {c : Cookie}

theorem mem_creations : c ∈ s.creations ↔ ∃ resp, (c, some resp) ∈ s.answers := by
  unfold creations
  rw [List.mem_filterMap]
  constructor
  · rintro ⟨⟨c', resp⟩, hmem, hc⟩
    cases resp with
    | none => cases hc
    | some resp =>
      cases hc
      exact ⟨resp, hmem⟩
  · rintro ⟨resp, hmem⟩
    exact ⟨_, hmem, rfl⟩

/-! ## What a step does with a cookie -/

/-- **What a step does with the valid cookie of its Insert2**, if it has one. -/
inductive Verdict (s s' : RegServer) : Option Cookie → Prop
  | silent (hans : s'.answers = s.answers) (hhash : s'.chalhash = s.chalhash) : Verdict s s' none
  | replay (c : Cookie) (resp : Option Response) (hresp : s.chalhash.lookup c = some resp)
      (hans : s'.answers = s.answers) (hhash : s'.chalhash = s.chalhash)
      (hdb : s'.toDatabase = s.toDatabase)
      (hsent : s'.sent = resp.toList.map (c.srcep, ·) ++ s.sent) : Verdict s s' (some c)
  | reject (c : Cookie) (hnew : s.chalhash.lookup c = none)
      (hans : s'.answers = (c, none) :: s.answers) (hhash : s'.chalhash = s.chalhash.insert c none)
      (hsent : s'.sent = s.sent) : Verdict s s' (some c)
  | accept (c : Cookie) (hnew : s.chalhash.lookup c = none) (resp : Response)
      (hans : s'.answers = (c, some resp) :: s.answers) (hhash : s'.chalhash = s.chalhash)
      (hnext : s'.next = s.next + 1) : Verdict s s' (some c)

theorem Queried.verdict {srcep : Endpoint} {idi : Ident} {nhi : Nonce}
    (h : s.Queried srcep idi nhi s') : s.Verdict s' none := by
  obtain ⟨new, rfl, hnew⟩ := h
  refine .silent ?_ rfl
  have hnone : new.filterMap Event.answer = [] := by
    refine List.filterMap_eq_nil_iff.2 fun e he => ?_
    obtain ⟨-, p, rec, resp, -, rfl, -⟩ := hnew e he
    rfl
  rw [answers, List.filterMap_append, hnone]
  rfl

theorem doInsert2_verdict (h : Consistent pf s.toDatabase) {r : ℕ} {srcep : Endpoint} {idi : Ident}
    {ni : Nonce} {chal : Chal} {info : Bytes} {key : PubKey} {sig : Signature PubKey SigData}
    (hs : s.doInsert2 pf r srcep idi ni chal info key sig = some s') :
    s.Verdict s' (s.validCookie (.receive srcep (.insert2 idi ni chal info key sig) r)) := by
  have hcases : Inserted pf s r srcep idi ni chal info key sig
      (s.doInsert2 pf r srcep idi ni chal info key sig) := s.doInsert2_cases ..
  rw [hs] at hcases
  generalize ho : some s' = o at hcases
  unfold validCookie
  dsimp only
  cases hcases with
  | invalid hid =>
    cases ho
    rw [if_neg fun h => h.1 hid]
    exact .silent rfl rfl
  | challenge hid hchal =>
    cases ho
    rw [if_neg fun h => hchal h.2]
    exact .silent rfl rfl
  | replay hid hchal resp hresp =>
    cases ho
    rw [if_pos ⟨hid, hchal⟩]
    cases resp <;> exact .replay _ _ hresp rfl rfl rfl rfl
  | reject hid hchal hnew =>
    cases ho
    rw [if_pos ⟨hid, hchal⟩]
    exact .reject _ hnew rfl rfl rfl
  | accept hid hchal hnew hsig =>
    obtain ⟨db, hacc, -, hnext, -⟩ := accept_spec (s := s.withSecret r) h srcep idi (.hash ni)
      (s.calcCookie r srcep idi (.hash ni)) info
    rw [hacc] at ho
    cases ho
    rw [if_pos ⟨by rw [hid]; nofun, hchal⟩]
    exact .accept _ hnew _ rfl rfl hnext

theorem step_verdict (h : Consistent pf s.toDatabase) {op : Op}
    (hs : (regServer pf).step s op = some s') : s.Verdict s' (s.validCookie op) := by
  dsimp only [regServer] at hs
  split at hs
  · cases op with
    | receive src req r =>
      -- the arrival of the datagram is recorded first
      change (s.arrive src req).udpDispatch pf r src req = some s' at hs
      have harrive : ∀ o, (s.arrive src req).Verdict s' o → s.Verdict s' o := by
        intro o ho
        cases ho with
        | silent hans hhash => exact .silent hans hhash
        | replay c resp hresp hans hhash hdb hsent =>
          exact .replay c resp hresp hans hhash hdb hsent
        | reject c hnew hans hhash hsent => exact .reject c hnew hans hhash hsent
        | accept c hnew resp hans hhash hnext => exact .accept c hnew resp hans hhash hnext
      refine harrive _ ?_
      have h : Consistent pf (s.arrive src req).toDatabase := h
      cases req with
      | insert1 idi nhi =>
        cases hs
        unfold doInsert1
        split <;> exact .silent rfl rfl
      | insert2 idi ni chal info key sig => exact doInsert2_verdict h hs
      | lookup idi nhi idr notify =>
        obtain ⟨s'', hs', hq⟩ := doLookup_spec h src idi nhi idr notify
        cases hs'.symm.trans hs
        exact hq.verdict
      | search idi nhi search =>
        obtain ⟨s'', hs', hq⟩ := doSearch_spec h src idi nhi search
        cases hs'.symm.trans hs
        exact hq.verdict
      | invalid =>
        cases hs
        exact .silent rfl rfl
    | timerEvent p =>
      cases hs
      exact .silent rfl rfl
    | deleteLater p =>
      obtain ⟨db, -, rfl⟩ := Option.map_eq_some_iff.1 hs
      exact .silent rfl rfl
  · cases hs

/-! ## The law -/

/-- An Insert2 does not carry the cookie of one that was accepted before. -/
def Fresh (s : RegServer) (op : Op) : Prop := ∀ c, s.validCookie op = some c → c ∉ s.creations

/-- **A repeated Insert2** is answered with the previous response, or with nothing if the client
was bad, and changes neither the database nor the lifetime of a record. -/
def Replayed (s : RegServer) (op : Op) (s' : RegServer) : Prop :=
  ∀ c resp, s.validCookie op = some c → (c, resp) ∈ s.answers →
    s'.toDatabase = s.toDatabase ∧ s'.sent = resp.toList.map (c.srcep, ·) ++ s.sent

/-- What `chalhash` knows of the cookies: the rejected ones, each created cookie once. -/
structure Recorded (s : RegServer) : Prop where
  once : s.creations.Nodup
  rejected : ∀ c, (c, none) ∈ s.answers → s.chalhash.lookup c = some none
  known : ∀ c resp, s.chalhash.lookup c = some resp → (c, none) ∈ s.answers
  apart : ∀ c ∈ s.creations, s.chalhash.lookup c = none

theorem Recorded.new : Recorded .new where
  once := List.nodup_nil
  rejected _ h := absurd h List.not_mem_nil
  known _ _ h := (nomatch h)
  apart _ h := absurd h List.not_mem_nil

theorem Recorded.verdict (h : s.Recorded) {o : Option Cookie} (hs : s.Verdict s' o)
    (hfresh : ∀ c, o = some c → c ∉ s.creations) : s'.Recorded := by
  have hkeep : s'.answers = s.answers → s'.chalhash = s.chalhash → s'.Recorded := by
    intro hans hhash
    have hcre : s'.creations = s.creations := by rw [creations, hans, creations]
    exact ⟨hcre ▸ h.once, by rw [hans, hhash]; exact h.rejected, by rw [hans, hhash]; exact h.known,
      by rw [hcre, hhash]; exact h.apart⟩
  cases hs with
  | silent hans hhash => exact hkeep hans hhash
  | replay c resp hresp hans hhash hdb hsent => exact hkeep hans hhash
  | reject c hnew hans hhash hsent =>
    have hcre : s'.creations = s.creations := by
      rw [creations, hans]
      rfl
    refine ⟨hcre ▸ h.once, fun c' hc => ?_, fun c' resp hc => ?_, fun c' hc => ?_⟩
    · rw [hans] at hc
      rw [hhash]
      rcases List.mem_cons.1 hc with hc | hc
      · cases hc
        exact AList.lookup_insert _
      · rcases eq_or_ne c' c with rfl | hne
        · exact AList.lookup_insert _
        · rw [AList.lookup_insert_ne hne]
          exact h.rejected c' hc
    · rw [hhash] at hc
      rw [hans]
      rcases eq_or_ne c' c with rfl | hne
      · exact List.mem_cons_self
      · rw [AList.lookup_insert_ne hne] at hc
        exact List.mem_cons_of_mem _ (h.known c' resp hc)
    · rw [hcre] at hc
      have hne : c' ≠ c := fun hcc => hfresh c rfl (hcc ▸ hc)
      rw [hhash, AList.lookup_insert_ne hne]
      exact h.apart c' hc
  | accept c hnew resp hans hhash hnext =>
    have hcre : s'.creations = c :: s.creations := by
      rw [creations, hans]
      rfl
    refine ⟨hcre ▸ h.once.cons (hfresh c rfl), fun c' hc => ?_, fun c' resp hc => ?_,
      fun c' hc => ?_⟩
    · rw [hans] at hc
      rw [hhash]
      rcases List.mem_cons.1 hc with hc | hc
      · cases hc
      · exact h.rejected c' hc
    · rw [hhash] at hc
      rw [hans]
      exact List.mem_cons_of_mem _ (h.known c' resp hc)
    · rw [hcre] at hc
      rw [hhash]
      rcases List.mem_cons.1 hc with rfl | hc
      · exact hnew
      · exact h.apart c' hc

/-- **A repeated Insert2 is harmless exactly if it is fresh.** -/
theorem Recorded.replayed_iff (h : s.Recorded) {op : Op} (hs : s.Verdict s' (s.validCookie op)) :
    s.Replayed op s' ↔ s.Fresh op := by
  generalize ho : s.validCookie op = o at hs
  constructor
  · intro hr c hc hcre
    obtain ⟨resp, hans⟩ := mem_creations.1 hcre
    obtain ⟨hdb, hsent⟩ := hr c (some resp) hc hans
    have hmiss := h.apart c hcre
    rw [ho] at hc
    subst hc
    cases hs with
    | replay c resp hresp => rw [hmiss] at hresp; cases hresp
    | reject c hnew hans hhash hsent' =>
      have := congrArg List.length (hsent'.symm.trans hsent)
      simp at this
    | accept c hnew resp hans hhash hnext =>
      exact absurd (hnext.symm.trans (congrArg Database.next hdb)) (Nat.succ_ne_self _)
  · intro hf c resp hc hans
    have hnone : resp = none := by
      cases resp with
      | none => rfl
      | some resp => exact absurd (mem_creations.2 ⟨resp, hans⟩) (hf c hc)
    subst hnone
    have hhit := h.rejected c hans
    rw [ho] at hc
    subst hc
    cases hs with
    | replay c resp hresp hans hhash hdb hsent =>
      rw [hhit] at hresp
      cases hresp
      exact ⟨hdb, hsent⟩
    | reject c hnew => rw [hnew] at hhit; cases hhit
    | accept c hnew => rw [hnew] at hhit; cases hhit

theorem recorded_reach (h : (regServer pf).Reach Fresh s) : s.Recorded := by
  refine h.invariant Recorded.new fun s t op hr hs hf hstep => ?_
  exact hs.verdict (step_verdict (consistent_reach (hr.mono fun _ _ _ => trivial)) hstep) hf

end RegServer

/-- **Replays of Insert2.** While no Insert2 carries the cookie of an accepted one, each cookie
creates at most one record; and a repeated Insert2 is answered as before and changes nothing
exactly if its cookie was not accepted before. -/
theorem insert2_replay {s : RegServer} (h : (regServer pf).Reach RegServer.Fresh s) :
    s.creations.Nodup ∧ ∀ op s', (regServer pf).step s op = some s' →
      (s.Replayed op s' ↔ s.Fresh op) := by
  have hr := RegServer.recorded_reach h
  refine ⟨hr.once, fun op s' hs => hr.replayed_iff (RegServer.step_verdict ?_ hs)⟩
  exact RegServer.consistent_reach (h.mono fun _ _ _ => trivial)

/-- The Insert2 of a client without a valid signature. -/
def badInsert2 : Op :=
  let id := .key rsa160 7
  .receive 5 (.insert2 id (.random 1) (.cookie ⟨42, 5, id, .hash (.random 1)⟩) [] 7
    ⟨8, ⟨id, .random 1, .other [], []⟩⟩) 0

theorem insert2_replay_rejected : ∃ s s', s.answers.length = 1 ∧
    (regServer asciiPlatform).step s badInsert2 = some s' ∧ s.Replayed badInsert2 s' := by
  have hrun : ∃ s₁ s₂ s₃,
      (regServer asciiPlatform).step .new (insert1Op 1) = some s₁ ∧
      (regServer asciiPlatform).step s₁ badInsert2 = some s₂ ∧
      (regServer asciiPlatform).step s₂ badInsert2 = some s₃ ∧
      s₁.creations = [] ∧ s₂.creations = [] ∧ s₂.answers.length = 1 :=
    ⟨_, _, _, rfl, rfl, rfl, rfl, rfl, rfl⟩
  obtain ⟨s₁, s₂, s₃, h1, h2, h3, hc1, hc2, hl⟩ := hrun
  have hfresh : ∀ s op, s.creations = [] → RegServer.Fresh s op := by
    intro s op hs c _ hc
    rw [hs] at hc
    cases hc
  have hr : (regServer asciiPlatform).Reach RegServer.Fresh s₂ :=
    (Machine.Reach.init.step (hfresh _ _ rfl) h1).step (hfresh _ _ hc1) h2
  exact ⟨s₂, s₃, hl, h3, ((insert2_replay hr).2 badInsert2 s₃ h3).2 (hfresh _ _ hc2)⟩

/-- The Insert2 of an older registration arrives again: its record replaces the newer one. -/
theorem insert2_replay_stale : ∃ s s',
    (regServer asciiPlatform).run .new [insert1Op 1, insert2Op 1 [], insert1Op 2,
      insert2Op 2 infoAb] = some s ∧
    (regServer asciiPlatform).step s (insert2Op 1 []) = some s' ∧
    s.heap 1 = some ⟨.key rsa160 7, .hash (.random 2), 5, infoAb⟩ ∧ s'.heap 1 = none ∧
    s'.heap 2 = some ⟨.key rsa160 7, .hash (.random 1), 5, []⟩ ∧ ¬ s'.creations.Nodup :=
  ⟨_, _, rfl, rfl, rfl, rfl, rfl, by decide⟩

end Sst.Reg
