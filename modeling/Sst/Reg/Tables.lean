import Sst.Reg.Server
import Mathlib.Data.Finset.Sort

/-!
# The tables of the registration server

Records are inserted, replaced and deleted; the three tables find exactly the records that exist.

* `Consistent`: the tables agree with the records.
* `Consistent.delete`, `Consistent.insert`: what the destructor and the constructor keep.
* `RegServer.Queried`, `doLookup_spec`, `doSearch_spec`: queries change no table.
* **`tables_agree`**: the tables agree in every reachable state, and no pointer dangles.
-/

namespace Sst.Reg

open Symbolic Transition

variable {pf : Platform}

/-! ## Consistency -/

/-- **The tables agree with the records that exist.** -/
structure Consistent (pf : Platform) (db : Database) : Prop where
  ids : ∀ id p, db.idhash.lookup id = some p ↔ ∃ rec, db.heap p = some rec ∧ rec.id = id
  all : ∀ p, p ∈ db.allrecords ↔ (db.heap p).isSome
  words : db.kwhash.Exact fun kw p => ∃ rec, db.heap p = some rec ∧ kw ∈ rec.keywords pf
  fresh : ∀ p rec, db.heap p = some rec → p < db.next
  doomed : ∀ p ∈ db.doomed, (db.heap p).isSome

namespace Consistent

variable {db : Database} {p : Ptr} {rec : RegRecord}

theorem id_inj (h : Consistent pf db) {q : Ptr} {rec' : RegRecord} (hp : db.heap p = some rec)
    (hq : db.heap q = some rec') (hid : rec'.id = rec.id) : q = p := by
  have h1 := (h.ids rec.id p).2 ⟨rec, hp, rfl⟩
  have h2 := (h.ids rec.id q).2 ⟨rec', hq, hid⟩
  rw [h1] at h2
  cases h2
  rfl

theorem heap_delete {q : Ptr} {rec' : RegRecord} :
    Function.update db.heap p none q = some rec' ↔ q ≠ p ∧ db.heap q = some rec' := by
  rw [Function.update_apply]
  split
  · rename_i hq
    simp only [hq, reduceCtorEq, ne_eq, not_true_eq_false, false_and]
  · rename_i hq
    simp only [hq, ne_eq, not_false_eq_true, true_and]

/-- **The destructor** takes the record out of every table. -/
theorem delete (h : Consistent pf db) (hp : db.heap p = some rec) :
    ∃ db', db.delete pf p = some db' ∧ Consistent pf db' ∧
      db'.heap = Function.update db.heap p none ∧ db'.idhash = db.idhash.erase rec.id ∧
      db'.next = db.next := by
  have hid : db.idhash.lookup rec.id = some p := (h.ids rec.id p).2 ⟨rec, hp, rfl⟩
  rw [Database.delete, hp, Option.bind_some, if_pos hid]
  refine ⟨_, rfl, ⟨fun id q => ?_, fun q => ?_, ?_, fun q rec' hq => ?_, fun q hq => ?_⟩, rfl, rfl,
    rfl⟩
  · change (db.idhash.erase rec.id).lookup id = some q ↔
      ∃ rec', Function.update db.heap p none q = some rec' ∧ rec'.id = id
    rcases eq_or_ne id rec.id with rfl | hne
    · rw [AList.lookup_erase]
      refine iff_of_false nofun ?_
      rintro ⟨rec', hq, hid'⟩
      obtain ⟨hne, hq⟩ := heap_delete.1 hq
      exact hne (h.id_inj hp hq hid')
    · rw [AList.lookup_erase_ne hne, h.ids]
      refine exists_congr fun rec' => and_congr_left fun hid' => ?_
      rw [heap_delete]
      refine (and_iff_right_of_imp ?_).symm
      rintro hq rfl
      rw [hp] at hq
      cases hq
      exact hne hid'.symm
  · change q ∈ db.allrecords.erase p ↔ (Function.update db.heap p none q).isSome = true
    rw [Finset.mem_erase, h.all, Option.isSome_iff_exists, Option.isSome_iff_exists,
      ← exists_and_left]
    exact exists_congr fun rec' => heap_delete.symm
  · refine (h.words.dropAll (rec.keywords pf) p).congr fun kw q => ?_
    rw [not_and, ← exists_and_left]
    refine exists_congr fun rec' => ?_
    change _ ↔ Function.update db.heap p none q = some rec' ∧ kw ∈ rec'.keywords pf
    rw [heap_delete, ← and_assoc]
    refine and_congr_left fun hkw => and_congr_left fun hq => ⟨?_, fun hne _ => hne⟩
    rintro hne rfl
    rw [hp] at hq
    cases hq
    exact hne hkw rfl
  · exact h.fresh q rec' (heap_delete.1 hq).2
  · obtain ⟨hne, hq⟩ := Finset.mem_erase.1 hq
    obtain ⟨rec', hrec⟩ := Option.isSome_iff_exists.1 (h.doomed q hq)
    exact Option.isSome_iff_exists.2 ⟨rec', heap_delete.2 ⟨hne, hrec⟩⟩

theorem replace (h : Consistent pf db) (id : Ident) :
    ∃ db', db.replace pf id = some db' ∧ Consistent pf db' ∧ db'.idhash.lookup id = none ∧
      db'.next = db.next ∧ ∀ q rec, db'.heap q = some rec → db.heap q = some rec := by
  unfold Database.replace
  cases hid : db.idhash.lookup id with
  | none => exact ⟨db, rfl, h, hid, rfl, fun _ _ hq => hq⟩
  | some old =>
    obtain ⟨rec, hold, rfl⟩ := (h.ids id old).1 hid
    obtain ⟨db', hdb, hc, hheap, hids, hnext⟩ := h.delete hold
    refine ⟨db', hdb, hc, ?_, hnext, fun q rec' hq => ?_⟩
    · rw [hids, AList.lookup_erase]
    · rw [hheap] at hq
      exact (heap_delete.1 hq).2

theorem heap_insert {q : Ptr} {rec' : RegRecord} :
    Function.update db.heap p (some rec) q = some rec' ↔
      q = p ∧ rec' = rec ∨ q ≠ p ∧ db.heap q = some rec' := by
  rw [Function.update_apply]
  split
  · rename_i hq
    simp only [hq, Option.some.injEq, true_and, ne_eq, not_true_eq_false, false_and, or_false]
    exact eq_comm
  · rename_i hq
    simp only [hq, false_and, ne_eq, not_false_eq_true, true_and, false_or]

/-- **The constructor** enters the record into every table. -/
theorem insert (h : Consistent pf db) (rec : RegRecord) :
    ∃ db', db.insert pf rec = some db' ∧ Consistent pf db' ∧ db'.next = db.next + 1 ∧
      ∀ q rec', db'.heap q = some rec' → rec' = rec ∨ db.heap q = some rec' := by
  obtain ⟨db', hdb, hc, hid, hnext, hsub⟩ := h.replace rec.id
  have hfree : db'.heap db'.next = none := by
    cases hn : db'.heap db'.next with
    | none => rfl
    | some x => exact absurd (hc.fresh _ x hn) (lt_irrefl _)
  have hother : ∀ q rec', db'.heap q = some rec' → q ≠ db'.next := by
    rintro q rec' hq rfl
    rw [hfree] at hq
    cases hq
  rw [Database.insert, hdb, Option.map_some]
  refine ⟨_, rfl, ⟨fun id q => ?_, fun q => ?_, ?_, fun q rec' hq => ?_, fun q hq => ?_⟩,
    congrArg (· + 1) hnext, fun q rec' hq => ?_⟩
  · change (db'.idhash.insert rec.id db'.next).lookup id = some q ↔
      ∃ rec', Function.update db'.heap db'.next (some rec) q = some rec' ∧ rec'.id = id
    rcases eq_or_ne id rec.id with rfl | hne
    · rw [AList.lookup_insert, Option.some.injEq]
      constructor
      · rintro rfl
        exact ⟨rec, heap_insert.2 (.inl ⟨rfl, rfl⟩), rfl⟩
      · rintro ⟨rec', hq, hid'⟩
        rcases heap_insert.1 hq with ⟨rfl, -⟩ | ⟨-, hq⟩
        · rfl
        · rw [(hc.ids rec.id q).2 ⟨rec', hq, hid'⟩] at hid
          cases hid
    · rw [AList.lookup_insert_ne hne, hc.ids]
      refine exists_congr fun rec' => and_congr_left fun hid' => ?_
      rw [heap_insert]
      constructor
      · exact fun hq => .inr ⟨hother q rec' hq, hq⟩
      · rintro (⟨-, rfl⟩ | ⟨-, hq⟩)
        · exact absurd hid'.symm hne
        · exact hq
  · change q ∈ Insert.insert db'.next db'.allrecords ↔
      (Function.update db'.heap db'.next (some rec) q).isSome = true
    rw [Finset.mem_insert, hc.all, Function.update_apply]
    split
    · rename_i hq
      exact iff_of_true (.inl hq) rfl
    · rename_i hq
      exact or_iff_right hq
  · refine (hc.words.addAll (rec.keywords pf) db'.next).congr fun kw q => ?_
    change _ ↔ ∃ rec', Function.update db'.heap db'.next (some rec) q = some rec' ∧
      kw ∈ rec'.keywords pf
    constructor
    · rintro (⟨hkw, rfl⟩ | ⟨rec', hq, hkw⟩)
      · exact ⟨rec, heap_insert.2 (.inl ⟨rfl, rfl⟩), hkw⟩
      · exact ⟨rec', heap_insert.2 (.inr ⟨hother q rec' hq, hq⟩), hkw⟩
    · rintro ⟨rec', hq, hkw⟩
      rcases heap_insert.1 hq with ⟨rfl, rfl⟩ | ⟨-, hq⟩
      · exact .inl ⟨hkw, rfl⟩
      · exact .inr ⟨rec', hq, hkw⟩
  · change q < db'.next + 1
    rcases heap_insert.1 hq with ⟨rfl, -⟩ | ⟨-, hq⟩
    · exact Nat.lt_succ_self _
    · exact Nat.lt_succ_of_lt (hc.fresh q rec' hq)
  · obtain ⟨rec', hrec⟩ := Option.isSome_iff_exists.1 (hc.doomed q hq)
    exact Option.isSome_iff_exists.2
      ⟨rec', heap_insert.2 (.inr ⟨hother q rec' hrec, hrec⟩)⟩
  · rcases heap_insert.1 hq with ⟨-, rfl⟩ | ⟨-, hq⟩
    · exact .inl rfl
    · exact .inr (hsub q rec' hq)

theorem new : Consistent pf RegServer.new.toDatabase where
  ids _ _ := iff_of_false nofun fun ⟨_, h, _⟩ => (nomatch h)
  all _ := iff_of_false (Finset.notMem_empty _) nofun
  words := Inverted.Exact.empty.congr fun _ _ => iff_of_false id fun ⟨_, h, _⟩ => (nomatch h)
  fresh _ _ h := (nomatch h)
  doomed _ h := absurd h (Finset.notMem_empty _)

end Consistent

/-! ## Searches -/

namespace RegServer

variable {t : Inverted Text Ptr} {l : List Text} {m : Min}

/-- The smallest set is empty or of the recorded size, and it is the set of one of the keywords. -/
structure Min.Of (t : Inverted Text Ptr) (l : List Text) (m : Min) : Prop where
  size : m.minset = ∅ ∨ m.minset.card = m.mincount
  le : ∀ kw ∈ l, m.mincount ≤ (t.items kw).card
  origin : ∀ p ∈ m.minset, ∃ kw, p ∈ t.items kw

theorem Min.Of.new (t : Inverted Text Ptr) : (⟨∅, [], intMax⟩ : Min).Of t [] :=
  ⟨.inl rfl, fun _ h => absurd h List.not_mem_nil, fun _ h => absurd h (Finset.notMem_empty _)⟩

theorem Min.Of.step (h : m.Of t l) (kw : Text) : (minStep t m kw).Of t (kw :: l) := by
  unfold minStep
  split
  · rename_i hlt
    refine ⟨.inr rfl, fun kw' hkw => ?_, fun p hp => ⟨kw, hp⟩⟩
    rcases List.mem_cons.1 hkw with rfl | hkw
    · exact le_rfl
    · exact hlt.le.trans (h.le kw' hkw)
  · rename_i hge
    refine ⟨h.size, fun kw' hkw => ?_, h.origin⟩
    rcases List.mem_cons.1 hkw with rfl | hkw
    · exact not_lt.1 hge
    · exact h.le kw' hkw

theorem Min.Of.foldl (h : m.Of t l) (l' : List Text) :
    (l'.foldl (minStep t) m).Of t (l'.reverse ++ l) := by
  induction l' generalizing m l with
  | nil => exact h
  | cons kw l' ih =>
    rw [List.reverse_cons, List.append_assoc]
    exact ih (h.step kw)

/-- Narrowing a set inserts no entry if every keyword has one. -/
theorem foldl_narrowStep {minkw : Text} (l : List Text) (x : Finset Ptr)
    (h : x = ∅ ∨ ∀ kw ∈ l, (t.items kw).Nonempty) :
    (l.foldl (narrowStep minkw) (x, t)).2 = t ∧ (l.foldl (narrowStep minkw) (x, t)).1 ⊆ x := by
  induction l generalizing x with
  | nil => exact ⟨rfl, Finset.Subset.refl x⟩
  | cons kw l ih =>
    have hkeep : x = ∅ ∨ ∀ kw ∈ l, (t.items kw).Nonempty :=
      h.imp_right fun h kw hkw => h kw (List.mem_cons_of_mem _ hkw)
    rw [List.foldl_cons]
    by_cases hx : x = ∅
    · rw [narrowStep, if_pos hx]
      exact ih x hkeep
    · by_cases hkw : kw = minkw
      · rw [narrowStep, if_neg hx, if_pos hkw]
        exact ih x hkeep
      · have hne := h.resolve_left hx kw List.mem_cons_self
        rw [narrowStep, if_neg hx, if_neg hkw, Inverted.touch_of_nonempty hne]
        obtain ⟨h1, h2⟩ := ih (x ∩ t.items kw)
          (.inr fun kw hkw => h.resolve_left hx kw (List.mem_cons_of_mem _ hkw))
        exact ⟨h1, h2.trans Finset.inter_subset_left⟩

/-- If the smallest set is not empty, no set is. -/
theorem narrow_ready (t : Inverted Text Ptr) (kwords : List Text) :
    (kwords.foldl (minStep t) ⟨∅, [], intMax⟩).minset = ∅ ∨
      ∀ kw ∈ kwords, (t.items kw).Nonempty := by
  have hof := (Min.Of.new t).foldl kwords
  rcases Finset.eq_empty_or_nonempty (kwords.foldl (minStep t) ⟨∅, [], intMax⟩).minset with hm | hm
  · exact .inl hm
  · refine .inr fun kw hkw => ?_
    have hcard := hof.size.resolve_left hm.ne_empty
    have hle := hof.le kw (List.mem_append_left _ (List.mem_reverse.2 hkw))
    rw [← hcard] at hle
    exact Finset.card_pos.1 ((Finset.card_pos.2 hm).trans_le hle)

/-- **A search changes no table**, and finds only records of the table. -/
theorem matching_spec (t : Inverted Text Ptr) (kwords : List Text) :
    (matching t kwords).2 = t ∧ ∀ p ∈ (matching t kwords).1, ∃ kw, p ∈ t.items kw := by
  have hof := (Min.Of.new t).foldl kwords
  have hready := narrow_ready t kwords
  unfold matching
  dsimp only
  generalize kwords.foldl (minStep t) ⟨∅, [], intMax⟩ = m at hof hready
  obtain ⟨h1, h2⟩ := foldl_narrowStep kwords m.minset hready
  exact ⟨h1, fun p hp => hof.origin p (h2 hp)⟩

theorem mapM_heap {heap : Ptr → Option RegRecord} {l : List Ptr}
    (h : ∀ p ∈ l, (heap p).isSome) : ∃ recs, l.mapM heap = some recs := by
  induction l with
  | nil => exact ⟨[], rfl⟩
  | cons p l ih =>
    obtain ⟨rec, hp⟩ := Option.isSome_iff_exists.1 (h p List.mem_cons_self)
    obtain ⟨recs, hl⟩ := ih fun q hq => h q (List.mem_cons_of_mem _ hq)
    refine ⟨rec :: recs, ?_⟩
    rw [List.mapM_cons, hp, hl]
    rfl

end RegServer

/-! ## Queries -/

/-- A response or notification of a lookup or a search. -/
def Response.isQuery : Response → Bool
  | .lookup .. => true
  | .search .. => true
  | _ => false

namespace RegServer

variable {s : RegServer} {srcep : Endpoint} {idi : Ident} {nhi : Nonce}

/-- The caller of a request is registered, with its endpoint and its nonce. -/
def Caller (s : RegServer) (srcep : Endpoint) (idi : Ident) (nhi : Nonce) (p : Ptr)
    (reci : RegRecord) : Prop :=
  s.heap p = some reci ∧ reci.id = idi ∧ reci.ep = srcep ∧ reci.nhi = nhi

/-- **What a query does**: for a caller who is registered it sends responses to endpoints of
records, and otherwise nothing. -/
def Queried (s : RegServer) (srcep : Endpoint) (idi : Ident) (nhi : Nonce) (s' : RegServer) :
    Prop :=
  ∃ new, s' = { s with log := new ++ s.log } ∧ ∀ e ∈ new,
    (∃ p reci, s.Caller srcep idi nhi p reci) ∧
    ∃ p rec resp, s.heap p = some rec ∧ e = .sent rec.ep resp ∧ resp.isQuery = true

theorem Queried.nothing (s : RegServer) (srcep : Endpoint) (idi : Ident) (nhi : Nonce) :
    s.Queried srcep idi nhi s :=
  ⟨[], rfl, fun _ h => absurd h List.not_mem_nil⟩

theorem findCaller_spec (h : Consistent pf s.toDatabase) (srcep : Endpoint) (idi : Ident)
    (nhi : Nonce) : s.findCaller srcep idi nhi = some none ∨
      ∃ p reci, s.findCaller srcep idi nhi = some (some reci) ∧ s.Caller srcep idi nhi p reci := by
  unfold findCaller
  cases hid : s.idhash.lookup idi with
  | none => exact .inl rfl
  | some p =>
    obtain ⟨reci, hp, hreci⟩ := (h.ids idi p).1 hid
    dsimp only
    rw [hp, Option.map_some]
    by_cases hep : srcep = reci.ep
    · by_cases hnhi : nhi = reci.nhi
      · rw [if_neg (not_not.2 hep), if_neg (not_not.2 hnhi)]
        exact .inr ⟨p, reci, rfl, hp, hreci, hep.symm, hnhi.symm⟩
      · rw [if_neg (not_not.2 hep), if_pos hnhi]
        exact .inl rfl
    · rw [if_pos hep]
      exact .inl rfl

/-- **A lookup** answers the caller, and notifies the target if it is asked to. -/
theorem doLookup_spec (h : Consistent pf s.toDatabase) (srcep : Endpoint) (idi : Ident)
    (nhi : Nonce) (idr : Ident) (notify : Bool) :
    ∃ s', s.doLookup srcep idi nhi idr notify = some s' ∧ s.Queried srcep idi nhi s' := by
  unfold doLookup
  split
  · exact ⟨s, rfl, .nothing ..⟩
  · obtain hcall | ⟨p, reci, hcall, hc⟩ := findCaller_spec h srcep idi nhi
    · rw [hcall]
      exact ⟨s, rfl, .nothing ..⟩
    · rw [hcall, Option.bind_some]
      dsimp only [answerLookup]
      have hsent : ∀ notify idr recr, (∃ p reci, s.Caller srcep idi nhi p reci) ∧
          ∃ p rec resp, s.heap p = some rec ∧
            Event.sent reci.ep (.lookup notify reci.nhi idr recr) = .sent rec.ep resp ∧
            resp.isQuery = true :=
        fun _ _ _ => ⟨⟨p, reci, hc⟩, p, reci, _, hc.1, rfl, rfl⟩
      cases hid : s.idhash.lookup idr with
      | none =>
        refine ⟨_, rfl, [_], rfl, fun e he => ?_⟩
        rw [List.mem_singleton.1 he]
        exact hsent _ _ _
      | some q =>
        obtain ⟨recr, hq, -⟩ := (h.ids idr q).1 hid
        dsimp only
        rw [hq, Option.map_some]
        cases notify with
        | false =>
          refine ⟨_, rfl, [_], rfl, fun e he => ?_⟩
          rw [List.mem_singleton.1 he]
          exact hsent _ _ _
        | true =>
          refine ⟨_, rfl, [_, _], rfl, fun e he => ?_⟩
          rcases List.mem_cons.1 he with rfl | he
          · exact ⟨⟨p, reci, hc⟩, q, recr, _, hq, rfl, rfl⟩
          · rw [List.mem_singleton.1 he]
            exact hsent _ _ _

/-- **A search** answers the caller. -/
theorem doSearch_spec (h : Consistent pf s.toDatabase) (srcep : Endpoint) (idi : Ident)
    (nhi : Nonce) (search : Text) :
    ∃ s', s.doSearch pf srcep idi nhi search = some s' ∧ s.Queried srcep idi nhi s' := by
  unfold doSearch
  split
  · exact ⟨s, rfl, .nothing ..⟩
  · obtain hcall | ⟨p, reci, hcall, hc⟩ := findCaller_spec h srcep idi nhi
    · rw [hcall]
      exact ⟨s, rfl, .nothing ..⟩
    · rw [hcall, Option.bind_some]
      dsimp only [answerSearch]
      obtain ⟨htable, hfound⟩ := matching_spec s.kwhash (pf.split search)
      have hlive : ∀ q ∈ (if pf.split search = [] then s.allrecords
          else (matching s.kwhash (pf.split search)).1), (s.heap q).isSome := by
        intro q hq
        split at hq
        · exact (h.all q).1 hq
        · obtain ⟨kw, hkw⟩ := hfound q hq
          obtain ⟨rec, hrec, -⟩ := (h.words.2 kw q).1 hkw
          exact Option.isSome_iff_exists.2 ⟨rec, hrec⟩
      obtain ⟨recs, hrecs⟩ := mapM_heap (l := (pf.toList _).take _) fun q hq =>
        hlive q ((pf.mem_toList _ q).1 (List.mem_of_mem_take hq))
      rw [hrecs, Option.map_some, htable]
      refine ⟨_, rfl, [_], rfl, fun e he => ?_⟩
      rw [List.mem_singleton.1 he]
      exact ⟨⟨p, reci, hc⟩, p, reci, _, hc.1, by rw [hc.2.2.1], rfl⟩

/-! ## Insertions -/

/-- **What an Insert2 does**, by cases. -/
inductive Inserted (pf : Platform) (s : RegServer) (r : ℕ) (srcep : Endpoint) (idi : Ident)
    (ni : Nonce) (chal : Chal) (info : Bytes) (key : PubKey) (sig : Signature PubKey SigData) :
    Option RegServer → Prop
  | invalid (hid : idi = .null) : Inserted pf s r srcep idi ni chal info key sig (some s)
  | challenge (hid : idi ≠ .null) (hchal : chal ≠ .cookie (s.calcCookie r srcep idi (.hash ni))) :
    Inserted pf s r srcep idi ni chal info key sig (some (s.replyInsert1 r srcep idi (.hash ni)))
  | replay (hid : idi ≠ .null) (hchal : chal = .cookie (s.calcCookie r srcep idi (.hash ni)))
      (resp : Option Response)
      (hresp : s.chalhash.lookup (s.calcCookie r srcep idi (.hash ni)) = some resp) :
    Inserted pf s r srcep idi ni chal info key sig
      (some (resp.elim (s.withSecret r) ((s.withSecret r).send srcep)))
  | reject (hid : idi ≠ .null) (hchal : chal = .cookie (s.calcCookie r srcep idi (.hash ni)))
      (hnew : s.chalhash.lookup (s.calcCookie r srcep idi (.hash ni)) = none) :
    Inserted pf s r srcep idi ni chal info key sig
      (some ((s.withSecret r).reject (s.calcCookie r srcep idi (.hash ni))))
  | accept (hid : idi = .key rsa160 key)
      (hchal : chal = .cookie (s.calcCookie r srcep idi (.hash ni)))
      (hnew : s.chalhash.lookup (s.calcCookie r srcep idi (.hash ni)) = none)
      (hsig : sig.verify key ⟨idi, ni, chal, info⟩ = true) :
    Inserted pf s r srcep idi ni chal info key sig
      ((s.withSecret r).accept pf srcep idi (.hash ni) (s.calcCookie r srcep idi (.hash ni)) info)

theorem doInsert2_cases (s : RegServer) (r : ℕ) (srcep : Endpoint) (idi : Ident) (ni : Nonce)
    (chal : Chal) (info : Bytes) (key : PubKey) (sig : Signature PubKey SigData) :
    Inserted pf s r srcep idi ni chal info key sig
      (s.doInsert2 pf r srcep idi ni chal info key sig) := by
  unfold doInsert2
  by_cases hid : idi = .null
  · rw [if_pos hid]
    exact .invalid hid
  · rw [if_neg hid]
    by_cases hchal : chal = .cookie (s.calcCookie r srcep idi (.hash ni))
    · dsimp only
      rw [if_neg (not_not.2 hchal.symm)]
      cases hresp : (s.withSecret r).chalhash.lookup (s.calcCookie r srcep idi (.hash ni)) with
      | some resp => cases resp <;> exact .replay hid hchal _ hresp
      | none =>
        have hnew : s.chalhash.lookup (s.calcCookie r srcep idi (.hash ni)) = none := hresp
        dsimp only
        split
        · exact .reject hid hchal hnew
        · rename_i hscheme
          split
          · exact .reject hid hchal hnew
          · rename_i hkey
            split
            · exact .reject hid hchal hnew
            · rename_i hsig
              refine .accept ?_ hchal hnew (not_not.1 hsig)
              have := of_decide_eq_true (not_not.1 hkey)
              rwa [not_not.1 hscheme] at this
    · dsimp only
      rw [if_pos (Ne.symm hchal)]
      exact .challenge hid hchal

theorem accept_spec (h : Consistent pf s.toDatabase) (srcep : Endpoint) (idi : Ident) (nhi : Nonce)
    (chal : Cookie) (info : Bytes) :
    ∃ db, s.accept pf srcep idi nhi chal info = some
        { s with
          toDatabase := db
          log := .sent srcep (.insert2 nhi timeoutSec srcep) ::
            .answered chal (some (.insert2 nhi timeoutSec srcep)) :: s.log } ∧
      Consistent pf db ∧ db.next = s.next + 1 ∧ ∀ q rec, db.heap q = some rec →
        rec = ⟨idi, nhi, srcep, info⟩ ∨ s.heap q = some rec := by
  obtain ⟨db, hdb, hc, hnext, hrecs⟩ := h.insert ⟨idi, nhi, srcep, info⟩
  exact ⟨db, by rw [accept, hdb]; rfl, hc, hnext, hrecs⟩

/-! ## Runs -/

theorem Queried.toDatabase {s' : RegServer} (h : s.Queried srcep idi nhi s') :
    s'.toDatabase = s.toDatabase := by
  obtain ⟨new, rfl, -⟩ := h
  rfl

theorem udpDispatch_consistent (h : Consistent pf s.toDatabase) (r : ℕ) (srcep : Endpoint)
    (req : Request) :
    ∃ s', s.udpDispatch pf r srcep req = some s' ∧ Consistent pf s'.toDatabase := by
  cases req with
  | insert1 idi nhi =>
    refine ⟨_, rfl, ?_⟩
    unfold doInsert1
    split <;> exact h
  | insert2 idi ni chal info key sig =>
    have hcases : Inserted pf s r srcep idi ni chal info key sig
        (s.doInsert2 pf r srcep idi ni chal info key sig) := s.doInsert2_cases ..
    change ∃ s', s.doInsert2 pf r srcep idi ni chal info key sig = some s' ∧ _
    generalize s.doInsert2 pf r srcep idi ni chal info key sig = o at hcases ⊢
    cases hcases with
    | invalid hid => exact ⟨_, rfl, h⟩
    | challenge hid hchal => exact ⟨_, rfl, h⟩
    | replay hid hchal resp hresp => exact ⟨_, rfl, by cases resp <;> exact h⟩
    | reject hid hchal hnew => exact ⟨_, rfl, h⟩
    | accept hid hchal hnew hsig =>
      obtain ⟨db, hacc, hc, -⟩ := accept_spec (s := s.withSecret r) h srcep idi (.hash ni)
        (s.calcCookie r srcep idi (.hash ni)) info
      exact ⟨_, hacc, hc⟩
  | lookup idi nhi idr notify =>
    obtain ⟨s', hs, hq⟩ := doLookup_spec h srcep idi nhi idr notify
    exact ⟨s', hs, hq.toDatabase ▸ h⟩
  | search idi nhi search =>
    obtain ⟨s', hs, hq⟩ := doSearch_spec h srcep idi nhi search
    exact ⟨s', hs, hq.toDatabase ▸ h⟩
  | invalid => exact ⟨s, rfl, h⟩

/-- **Every step keeps the tables consistent**, and none fails. -/
theorem step_consistent (h : Consistent pf s.toDatabase) {op : Op} (hop : s.enabled op = true) :
    ∃ s', s.step pf op = some s' ∧ Consistent pf s'.toDatabase := by
  cases op with
  | receive src req r => exact udpDispatch_consistent (s := s.arrive src req) h r src req
  | timerEvent p =>
    refine ⟨_, rfl, h.ids, h.all, h.words, h.fresh, fun q hq => ?_⟩
    rcases Finset.mem_insert.1 hq with rfl | hq
    · exact hop
    · exact h.doomed q hq
  | deleteLater p =>
    obtain ⟨rec, hp⟩ := Option.isSome_iff_exists.1 (h.doomed p (of_decide_eq_true hop))
    obtain ⟨db, hdb, hc, -⟩ := h.delete hp
    exact ⟨_, by rw [step, hdb]; rfl, hc⟩

theorem consistent_reach (h : (regServer pf).Reach Machine.always s) :
    Consistent pf s.toDatabase := by
  refine h.invariant (P := fun s => Consistent pf s.toDatabase) .new fun s t op _ hs _ hstep => ?_
  dsimp only [regServer] at hstep
  split at hstep
  · rename_i hop
    obtain ⟨s', hs', hc⟩ := step_consistent hs hop
    rw [hs'] at hstep
    cases hstep
    exact hc
  · cases hstep

end RegServer

/-- **The three tables agree.** In every reachable state `idhash` finds exactly the records that
exist by their identifiers, `allrecords` holds exactly them, and `kwhash` has exactly the words of
their metadata, each with the records that have it. No operation meets a dangling pointer. -/
theorem tables_agree {s : RegServer} (h : (regServer pf).Reach Machine.always s) :
    (∀ id p, s.idhash.lookup id = some p ↔ ∃ rec, s.heap p = some rec ∧ rec.id = id) ∧
    (∀ p, p ∈ s.allrecords ↔ (s.heap p).isSome) ∧
    (∀ kw set, s.kwhash.lookup kw = some set ↔ set.Nonempty ∧
      ∀ p, p ∈ set ↔ ∃ rec, s.heap p = some rec ∧ kw ∈ rec.keywords pf) ∧
    ∀ op, s.enabled op = true → (s.step pf op).isSome := by
  have hc := RegServer.consistent_reach h
  refine ⟨hc.ids, hc.all, fun _ _ => hc.words.lookup_iff, fun op hop => ?_⟩
  obtain ⟨s', hs', -⟩ := RegServer.step_consistent hc hop
  rw [hs']
  rfl

/-- Text of single-byte characters. -/
def asciiPlatform : Platform where
  fromUtf8 := List.map fun b => Char.ofNat b.toNat
  isWord := Char.isAlphanum
  toList s := s.sort (· ≤ ·)
  mem_toList _ _ := Finset.mem_sort _
  nodup_toList _ := Finset.sort_nodup _ _

/-- Metadata with the name "ab". -/
def infoAb : Bytes := [0, 0, 0, 1, 0, 1, 0, 1, 0, 0, 0, 2, 97, 98, 0, 0]

/-- The client with key 7 asks for a challenge at endpoint 5. -/
def insert1Op (n : ℕ) : Op := .receive 5 (.insert1 (.key rsa160 7) (.hash (.random n))) 42

/-- The client with key 7 registers at endpoint 5. -/
def insert2Op (n : ℕ) (info : Bytes) : Op :=
  let id := .key rsa160 7
  let chal := .cookie ⟨42, 5, id, .hash (.random n)⟩
  .receive 5 (.insert2 id (.random n) chal info 7 ⟨7, ⟨id, .random n, chal, info⟩⟩) 0

theorem tables_agree_replaced : ∃ s, (regServer asciiPlatform).run .new
      [insert1Op 1, insert2Op 1 [], insert1Op 2, insert2Op 2 infoAb] = some s ∧ s.heap 0 = none ∧
    (∀ id p, s.idhash.lookup id = some p ↔ ∃ rec, s.heap p = some rec ∧ rec.id = id) ∧
    ∀ kw set, s.kwhash.lookup kw = some set ↔ set.Nonempty ∧
      ∀ p, p ∈ set ↔ ∃ rec, s.heap p = some rec ∧ kw ∈ rec.keywords asciiPlatform := by
  have hrun : ∃ s, (regServer asciiPlatform).run .new
      [insert1Op 1, insert2Op 1 [], insert1Op 2, insert2Op 2 infoAb] = some s ∧
        s.heap 0 = none := ⟨_, rfl, rfl⟩
  obtain ⟨s, hs, h0⟩ := hrun
  obtain ⟨h1, -, h3, -⟩ := tables_agree (Machine.reach_of_run hs)
  exact ⟨s, hs, h0, h1, h3⟩

end Sst.Reg
