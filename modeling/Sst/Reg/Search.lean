import Sst.Reg.Tables

/-!
# Keyword searches

The server starts from the smallest set of a keyword and narrows it by the other keywords.

* `Min.Starts`: what the first loop finds; `mem_foldl_narrowStep`: what the second one leaves.
* `full`: the records that have every keyword; **`results_eq`**: the search finds exactly them if
  some keyword has fewer than `intMax` records.
* `Answers`: what an answer promises; `answerSearch_iff`: when it keeps its promise.
* `WithinCapacity`: the capacity of the containers.
* **`keyword_search`**: the answers to searches, in every reachable state.
-/

namespace Sst.Reg

open Symbolic Transition

variable {pf : Platform}

namespace RegServer

variable {s : RegServer} {t : Inverted Text Ptr} {l kwords : List Text} {m : Min}

/-! ## The two loops -/

/-- The first loop has found the set of a keyword, or no set that is small enough. -/
def Min.Starts (t : Inverted Text Ptr) (l : List Text) (m : Min) : Prop :=
  (m = ⟨∅, [], intMax⟩ ∧ ∀ kw ∈ l, intMax ≤ (t.items kw).card) ∨
    (m.minkw ∈ l ∧ m.minset = t.items m.minkw ∧ (t.items m.minkw).card = m.mincount ∧
      m.mincount < intMax)

theorem Min.Starts.step (h : m.Starts t l) (kw : Text) : (minStep t m kw).Starts t (kw :: l) := by
  unfold minStep
  split_ifs with hlt
  · refine .inr ⟨List.mem_cons_self, rfl, rfl, ?_⟩
    rcases h with ⟨rfl, -⟩ | ⟨-, -, -, hm⟩
    · exact hlt
    · exact hlt.trans hm
  · rcases h with ⟨rfl, hl⟩ | ⟨hmem, hrest⟩
    · refine .inl ⟨rfl, fun kw' hkw => ?_⟩
      rcases List.mem_cons.mp hkw with rfl | hkw
      · exact not_lt.mp hlt
      · exact hl kw' hkw
    · exact .inr ⟨List.mem_cons_of_mem _ hmem, hrest⟩

theorem Min.Starts.foldl (h : m.Starts t l) (l' : List Text) :
    (l'.foldl (minStep t) m).Starts t (l'.reverse ++ l) := by
  induction l' generalizing m l with
  | nil => exact h
  | cons kw l' ih =>
    rw [List.reverse_cons, List.append_assoc]
    exact ih (h.step kw)

/-- What narrowing leaves of a set. -/
theorem mem_foldl_narrowStep {minkw : Text} {p : Ptr} (l : List Text) (x : Finset Ptr)
    (h : x = ∅ ∨ ∀ kw ∈ l, (t.items kw).Nonempty) :
    p ∈ (l.foldl (narrowStep minkw) (x, t)).1 ↔
      p ∈ x ∧ ∀ kw ∈ l, kw ≠ minkw → p ∈ t.items kw := by
  induction l generalizing x with
  | nil => exact (and_iff_left fun _ hkw => absurd hkw List.not_mem_nil).symm
  | cons kw l ih =>
    have hkeep : x = ∅ ∨ ∀ kw ∈ l, (t.items kw).Nonempty :=
      h.imp_right fun h kw hkw => h kw (List.mem_cons_of_mem _ hkw)
    rw [List.foldl_cons, List.forall_mem_cons]
    by_cases hx : x = ∅
    · rw [narrowStep, if_pos hx, ih x hkeep, hx]
      exact iff_of_false (fun hp => Finset.notMem_empty _ hp.1) fun hp => Finset.notMem_empty _ hp.1
    · by_cases hkw : kw = minkw
      · rw [narrowStep, if_neg hx, if_pos hkw, ih x hkeep]
        exact and_congr_right' (and_iff_right fun hne => absurd hkw hne).symm
      · have hne := h.resolve_left hx kw List.mem_cons_self
        rw [narrowStep, if_neg hx, if_neg hkw, Inverted.touch_of_nonempty hne,
          ih (x ∩ t.items kw)
            (.inr fun kw hkw => h.resolve_left hx kw (List.mem_cons_of_mem _ hkw)),
          Finset.mem_inter, and_assoc]
        exact and_congr_right' (and_congr_left' ⟨fun hp _ => hp, fun hp => hp hkw⟩)

/-- **The two loops** find the records of every keyword, if some keyword has fewer than
`intMax`. -/
theorem mem_matching (t : Inverted Text Ptr) (kwords : List Text) (p : Ptr) :
    p ∈ (matching t kwords).1 ↔
      (∃ kw ∈ kwords, (t.items kw).card < intMax) ∧ ∀ kw ∈ kwords, p ∈ t.items kw := by
  have hstart : (kwords.foldl (minStep t) ⟨∅, [], intMax⟩).Starts t kwords.reverse := by
    have h0 : (⟨∅, [], intMax⟩ : Min).Starts t [] :=
      .inl ⟨rfl, fun _ h => absurd h List.not_mem_nil⟩
    have hfold := h0.foldl kwords
    rwa [List.append_nil] at hfold
  have hready := narrow_ready t kwords
  unfold matching
  dsimp only
  generalize kwords.foldl (minStep t) ⟨∅, [], intMax⟩ = m at hstart hready
  rw [mem_foldl_narrowStep kwords m.minset hready]
  rcases hstart with ⟨rfl, hbig⟩ | ⟨hmem, hset, hcard, hlt⟩
  · refine iff_of_false (fun hp => Finset.notMem_empty _ hp.1) ?_
    rintro ⟨⟨kw, hkw, hsmall⟩, -⟩
    exact hsmall.not_ge (hbig kw (List.mem_reverse.mpr hkw))
  · have hmem' := List.mem_reverse.mp hmem
    have hsmall : ∃ kw ∈ kwords, (t.items kw).card < intMax := ⟨m.minkw, hmem', hcard ▸ hlt⟩
    rw [and_iff_right hsmall, hset]
    constructor
    · rintro ⟨hp, hall⟩ kw hkw
      rcases eq_or_ne kw m.minkw with rfl | hne
      · exact hp
      · exact hall kw hkw hne
    · exact fun hall => ⟨hall _ hmem', fun kw hkw _ => hall kw hkw⟩

/-! ## The full result -/

/-- The records that have every keyword. -/
def full (pf : Platform) (s : RegServer) (kwords : List Text) : Finset Ptr :=
  s.allrecords.filter fun p =>
    (s.heap p).any fun rec => kwords.all fun kw => (rec.keywords pf).contains kw

theorem mem_full (h : Consistent pf s.toDatabase) {p : Ptr} :
    p ∈ s.full pf kwords ↔
      ∃ rec, s.heap p = some rec ∧ ∀ kw ∈ kwords, kw ∈ rec.keywords pf := by
  rw [full, Finset.mem_filter, h.all]
  simp only [Option.any_eq_true, List.all_eq_true, List.contains_iff_mem]
  constructor
  · rintro ⟨-, rec, hp, hall⟩
    exact ⟨rec, hp, hall⟩
  · rintro ⟨rec, hp, hall⟩
    exact ⟨Option.isSome_iff_exists.mpr ⟨rec, hp⟩, rec, hp, hall⟩

theorem items_eq (h : Consistent pf s.toDatabase) (kw : Text) :
    s.kwhash.items kw = s.full pf [kw] := by
  ext p
  rw [h.words.2, mem_full h]
  simp only [List.forall_mem_singleton]

/-- The search has no keyword, or one that few enough records have. -/
def Startable (pf : Platform) (s : RegServer) (kwords : List Text) : Prop :=
  kwords = [] ∨ ∃ kw ∈ kwords, (s.full pf [kw]).card < intMax

instance : Decidable (s.Startable pf kwords) := inferInstanceAs (Decidable (_ ∨ _))

/-- **The search** finds the full result, or nothing. -/
theorem results_eq (h : Consistent pf s.toDatabase) (kwords : List Text) :
    (if kwords = [] then s.allrecords else (matching s.kwhash kwords).1) =
      if s.Startable pf kwords then s.full pf kwords else ∅ := by
  ext p
  split_ifs with hnil hstart hstart
  · subst hnil
    rw [mem_full h, h.all, Option.isSome_iff_exists]
    simp only [List.not_mem_nil, false_imp_iff, implies_true, and_true]
  · exact absurd (.inl hnil) hstart
  · have hsmall : ∃ kw ∈ kwords, (s.kwhash.items kw).card < intMax := by
      obtain ⟨kw, hkw, hlt⟩ := hstart.resolve_left hnil
      exact ⟨kw, hkw, by rwa [items_eq h]⟩
    rw [mem_matching, and_iff_right hsmall, mem_full h]
    constructor
    · intro hall
      obtain ⟨kw, hkw⟩ := List.exists_mem_of_ne_nil kwords hnil
      obtain ⟨rec, hp, -⟩ := (h.words.2 kw p).mp (hall kw hkw)
      refine ⟨rec, hp, fun kw' hkw' => ?_⟩
      obtain ⟨rec', hp', hmem⟩ := (h.words.2 kw' p).mp (hall kw' hkw')
      rw [hp] at hp'
      cases hp'
      exact hmem
    · rintro ⟨rec, hp, hall⟩ kw hkw
      exact (h.words.2 kw p).mpr ⟨rec, hp, hall kw hkw⟩
  · rw [mem_matching]
    refine iff_of_false ?_ (Finset.notMem_empty p)
    rintro ⟨⟨kw, hkw, hlt⟩, -⟩
    rw [items_eq h] at hlt
    exact hstart (.inr ⟨kw, hkw, hlt⟩)

/-! ## Answers -/

theorem mapM_id (h : Consistent pf s.toDatabase) {l : List Ptr} {recs : List RegRecord}
    (hnd : l.Nodup) (hl : l.mapM s.heap = some recs) :
    (recs.map RegRecord.id).Nodup ∧ recs.length = l.length ∧
      ∀ rec ∈ recs, ∃ p ∈ l, s.heap p = some rec := by
  induction l generalizing recs with
  | nil =>
    cases hl
    exact ⟨List.nodup_nil, rfl, fun _ hrec => absurd hrec List.not_mem_nil⟩
  | cons p l ih =>
    rw [List.nodup_cons] at hnd
    rw [List.mapM_cons, Option.bind_eq_bind, Option.bind_eq_some_iff] at hl
    obtain ⟨rec, hp, hl⟩ := hl
    rw [Option.bind_eq_bind, Option.bind_eq_some_iff] at hl
    obtain ⟨recs', hl', hrecs⟩ := hl
    cases hrecs
    obtain ⟨h1, h2, h3⟩ := ih hnd.2 hl'
    refine ⟨?_, congrArg (· + 1) h2, ?_⟩
    · rw [List.map_cons, List.nodup_cons]
      refine ⟨fun hmem => ?_, h1⟩
      obtain ⟨rec', hrec', hid⟩ := List.mem_map.mp hmem
      obtain ⟨q, hq, hheap⟩ := h3 rec' hrec'
      have hpq := h.id_inj hp hheap hid
      exact hnd.1 (hpq ▸ hq)
    · intro rec' hrec'
      rcases List.mem_cons.mp hrec' with rfl | hrec'
      · exact ⟨p, List.mem_cons_self, hp⟩
      · obtain ⟨q, hq, hheap⟩ := h3 rec' hrec'
        exact ⟨q, List.mem_cons_of_mem _ hq, hheap⟩

theorem length_toList (pf : Platform) (x : Finset Ptr) : (pf.toList x).length = x.card := by
  have hx : (pf.toList x).toFinset = x := by
    ext p
    rw [List.mem_toFinset, pf.mem_toList]
  rw [← List.toFinset_card_of_nodup (pf.nodup_toList x), hx]

/-- **The answer** to a search that finds `results`. -/
theorem answerSearch_eq (h : Consistent pf s.toDatabase) (srcep : Endpoint) (nhi : Nonce)
    (search : Text) {results : Finset Ptr}
    (hres : (if s.Startable pf (pf.split search) then s.full pf (pf.split search) else ∅) =
      results) :
    ∃ ids, s.answerSearch pf srcep nhi search =
        some (s.send srcep (.search nhi search (decide (results.card ≤ maxResults))
          (min results.card maxResults) ids)) ∧
      ids.Nodup ∧ ids.length = min results.card maxResults ∧
      ∀ id ∈ ids, ∃ p ∈ results, ∃ rec, s.heap p = some rec ∧ rec.id = id := by
  have hlive : ∀ p ∈ results, (s.heap p).isSome := by
    intro p hp
    rw [← hres] at hp
    split_ifs at hp
    · obtain ⟨rec, hrec, -⟩ := (mem_full h).mp hp
      exact Option.isSome_iff_exists.mpr ⟨rec, hrec⟩
    · exact absurd hp (Finset.notMem_empty p)
  have hsome : ∃ recs, ((pf.toList results).take (min results.card maxResults)).mapM s.heap =
      some recs :=
    mapM_heap fun p hp => hlive p ((pf.mem_toList _ p).mp (List.mem_of_mem_take hp))
  obtain ⟨recs, hrecs⟩ := hsome
  obtain ⟨hnd, hlen, hmem⟩ := mapM_id h ((pf.nodup_toList results).take) hrecs
  refine ⟨recs.map RegRecord.id, ?_, hnd, ?_, ?_⟩
  · unfold answerSearch
    dsimp only
    rw [(matching_spec s.kwhash (pf.split search)).1, results_eq h, hres, hrecs]
    rfl
  · rw [List.length_map, hlen, List.length_take, length_toList]
    omega
  · intro id hid
    obtain ⟨rec, hrec, rfl⟩ := List.mem_map.mp hid
    obtain ⟨p, hp, hheap⟩ := hmem rec hrec
    exact ⟨p, (pf.mem_toList _ p).mp (List.mem_of_mem_take hp), rec, hheap, rfl⟩

/-- **What an answer promises**: identifiers of distinct records that have every keyword, all of
them or as many as are allowed. -/
structure Answers (pf : Platform) (s : RegServer) (kwords : List Text) (complete : Bool)
    (nresults : ℕ) (ids : List Ident) : Prop where
  distinct : ids.Nodup
  live : ∀ id ∈ ids, ∃ p rec, s.heap p = some rec ∧ rec.id = id ∧
    ∀ kw ∈ kwords, kw ∈ rec.keywords pf
  count : ids.length = nresults
  capped : nresults = min (s.full pf kwords).card maxResults
  complete : complete = false ↔ maxResults < (s.full pf kwords).card

/-- The request of a registered caller. -/
def Admitted (s : RegServer) (srcep : Endpoint) (idi : Ident) (nhi : Nonce) : Prop :=
  idi ≠ .null ∧ ∃ p reci, s.Caller srcep idi nhi p reci

theorem findCaller_of_caller {srcep : Endpoint} {idi : Ident} {nhi : Nonce} {p : Ptr}
    {reci : RegRecord} (h : Consistent pf s.toDatabase) (hc : s.Caller srcep idi nhi p reci) :
    s.findCaller srcep idi nhi = some (some reci) := by
  obtain ⟨hp, rfl, rfl, rfl⟩ := hc
  have hid : s.idhash.lookup reci.id = some p := (h.ids _ _).mpr ⟨reci, hp, rfl⟩
  unfold findCaller
  rw [hid]
  dsimp only
  rw [hp, Option.map_some, if_neg (not_not.mpr rfl), if_neg (not_not.mpr rfl)]

theorem doSearch_of_admitted {srcep : Endpoint} {idi : Ident} {nhi : Nonce} {search : Text}
    (h : Consistent pf s.toDatabase) (ha : s.Admitted srcep idi nhi) :
    s.doSearch pf srcep idi nhi search = s.answerSearch pf srcep nhi search := by
  obtain ⟨hid, p, reci, hc⟩ := ha
  rw [doSearch, if_neg hid, findCaller_of_caller h hc, Option.bind_some]

theorem doSearch_of_not_admitted {srcep : Endpoint} {idi : Ident} {nhi : Nonce} {search : Text}
    (h : Consistent pf s.toDatabase) (ha : ¬ s.Admitted srcep idi nhi) :
    s.doSearch pf srcep idi nhi search = some s := by
  unfold doSearch
  split_ifs with hid
  · rfl
  · rcases findCaller_spec h srcep idi nhi with hnone | ⟨p, reci, -, hc⟩
    · rw [hnone]
      rfl
    · exact absurd ⟨hid, p, reci, hc⟩ ha

/-- **The answer keeps its promise** exactly if the search has no keyword, or a keyword that fewer
than `intMax` records have, or no result. -/
theorem answerSearch_iff (hc : Consistent pf s.toDatabase) (srcep : Endpoint) (nhi : Nonce)
    (search : Text) : ∃ complete nresults ids,
      s.answerSearch pf srcep nhi search =
        some (s.send srcep (.search nhi search complete nresults ids)) ∧
      (s.Answers pf (pf.split search) complete nresults ids ↔
        s.Startable pf (pf.split search) ∨ s.full pf (pf.split search) = ∅) := by
  obtain ⟨ids, hanswer, hnd, hlen, hmem⟩ := answerSearch_eq hc srcep nhi search rfl
  refine ⟨_, _, ids, hanswer, ?_⟩
  by_cases hstart : s.Startable pf (pf.split search)
  · rw [if_pos hstart] at hmem hlen ⊢
    refine iff_of_true ⟨hnd, fun id hid => ?_, hlen, rfl, ?_⟩ (.inl hstart)
    · obtain ⟨p, hp, rec, hheap, hid⟩ := hmem id hid
      obtain ⟨rec', hheap', hall⟩ := (mem_full hc).mp hp
      rw [hheap] at hheap'
      cases hheap'
      exact ⟨p, rec, hheap, hid, hall⟩
    · rw [decide_eq_false_iff_not, not_le]
  · rw [if_neg hstart] at hmem hlen ⊢
    rw [Finset.card_empty] at hlen ⊢
    constructor
    · intro hans
      have hcard := hans.capped
      rw [Nat.zero_min] at hcard
      refine .inr (Finset.card_eq_zero.mp ?_)
      have hmax : maxResults ≠ 0 := by decide
      omega
    · rintro (hfull | hfull)
      · exact absurd hfull hstart
      · refine ⟨hnd, fun id hid => ?_, hlen, ?_, ?_⟩
        · obtain ⟨p, hp, -⟩ := hmem id hid
          exact absurd hp (Finset.notMem_empty p)
        · rw [hfull, Finset.card_empty]
        · rw [hfull, Finset.card_empty]
          decide

/-- The capacity of the containers, whose sizes are of type `int`: the set of a keyword holds fewer
than `intMax` records. -/
def WithinCapacity (s : RegServer) : Prop := ∀ kw, (s.kwhash.items kw).card < intMax

theorem withinCapacity_of_card (h : Consistent pf s.toDatabase)
    (hcard : s.allrecords.card < intMax) : s.WithinCapacity := by
  intro kw
  rw [items_eq h]
  exact (Finset.card_filter_le _ _).trans_lt hcard

theorem WithinCapacity.startable (hcap : s.WithinCapacity) (h : Consistent pf s.toDatabase)
    (kwords : List Text) : s.Startable pf kwords := by
  rcases eq_or_ne kwords [] with hnil | hne
  · exact .inl hnil
  · obtain ⟨kw, hkw⟩ := List.exists_mem_of_ne_nil kwords hne
    exact .inr ⟨kw, hkw, items_eq h kw ▸ hcap kw⟩

end RegServer

/-- **Keyword searches.** In every reachable state, within the capacity of the containers, a search
of a registered caller gets one answer, which keeps its promise, and any other search gets none;
and the database stays as it is. -/
theorem keyword_search {s : RegServer} (h : (regServer pf).Reach Machine.always s)
    (hcap : s.WithinCapacity) (srcep : Endpoint) (idi : Ident) (nhi : Nonce) (search : Text) :
    (¬ s.Admitted srcep idi nhi → s.doSearch pf srcep idi nhi search = some s) ∧
    (s.Admitted srcep idi nhi → ∃ complete nresults ids,
      s.doSearch pf srcep idi nhi search =
        some (s.send srcep (.search nhi search complete nresults ids)) ∧
      s.Answers pf (pf.split search) complete nresults ids) := by
  have hc := RegServer.consistent_reach h
  refine ⟨RegServer.doSearch_of_not_admitted hc, fun ha => ?_⟩
  rw [RegServer.doSearch_of_admitted hc ha]
  obtain ⟨complete, nresults, ids, hanswer, hiff⟩ :=
    RegServer.answerSearch_iff hc srcep nhi search
  exact ⟨complete, nresults, ids, hanswer, hiff.mpr (.inl (hcap.startable hc _))⟩

/-- The only client searches for its own name. -/
theorem keyword_search_ab : ∃ s complete nresults ids,
    (regServer asciiPlatform).run .new [insert1Op 2, insert2Op 2 infoAb] = some s ∧
    s.doSearch asciiPlatform 5 (.key rsa160 7) (.hash (.random 2)) ['a', 'b'] =
      some (s.send 5 (.search (.hash (.random 2)) ['a', 'b'] complete nresults ids)) ∧
    s.Answers asciiPlatform [['a', 'b']] complete nresults ids := by
  have hrun : ∃ s, (regServer asciiPlatform).run .new [insert1Op 2, insert2Op 2 infoAb] = some s ∧
      s.heap 0 = some ⟨.key rsa160 7, .hash (.random 2), 5, infoAb⟩ ∧
      s.allrecords.card < intMax := ⟨_, rfl, rfl, by decide +kernel⟩
  obtain ⟨s, hs, hheap, hcard⟩ := hrun
  have hreach : (regServer asciiPlatform).Reach Machine.always s := Machine.reach_of_run hs
  have ha : s.Admitted 5 (.key rsa160 7) (.hash (.random 2)) :=
    ⟨by decide, 0, _, hheap, rfl, rfl, rfl⟩
  obtain ⟨complete, nresults, ids, hsearch, hans⟩ := (keyword_search hreach
    (RegServer.withinCapacity_of_card (RegServer.consistent_reach hreach) hcard) 5 (.key rsa160 7)
    (.hash (.random 2)) ['a', 'b']).2 ha
  have hsplit : asciiPlatform.split ['a', 'b'] = [['a', 'b']] := by decide
  rw [hsplit] at hans
  exact ⟨s, complete, nresults, ids, hs, hsearch, hans⟩

end Sst.Reg
