import Sst.Strm.State
import Sst.Lib.Priority

/-!
# Layouts of streams on flows

Which streams are attached to which flows, and which of them stand in line there: an abstract model
of a peer that knows of streams and flows only that.

* `Layout`: the state.
* `Layout.Sound d`: its invariant, while the flow `d`, if any, is being detached.
* `Layout.attach`, `enqueue`, `pick`, `release`, …: the operations.
* **`Layout.Sound.attach`**, …: each of them preserves the invariant.
-/

namespace Sst.Strm

open Priority

/-- Streams, each with the flow and stream id of its attachment slots, its current slot and its
place in the queue of that flow; flows with their stream ids and the streams in line; the primary
flow, the next numbers, and the time. -/
@[ext]
structure Layout where
  link : StrmId → Fin 2 → Option (ℕ × ℕ)
  tcuratt : StrmId → Option (Fin 2)
  tqflow : StrmId → Bool
  priority : StrmId → ℤ
  stamp : StrmId → ℕ
  live : StrmId → Bool
  txsids : ℕ → AList fun _ : ℕ => StrmId × Fin 2
  tstreams : ℕ → List StrmId
  active : ℕ → Bool
  started : ℕ → Bool
  flow : Option ℕ
  nextStream : ℕ
  nextFlow : ℕ
  clock : ℕ

namespace Layout

/-- Higher priority, or the same priority and an earlier entry into the queue. -/
def Before (l : Layout) (s t : StrmId) : Prop :=
  l.priority t < l.priority s ∨ l.priority s = l.priority t ∧ l.stamp s < l.stamp t

/-- The invariant. Streams other than roots are attached to the primary flow, or to the flow `d`. -/
structure Sound (d : Option ℕ) (l : Layout) : Prop where
  cur : ∀ s i, l.tcuratt s = some i ↔ l.link s i ≠ none
  primary : ∀ n i f sid, l.link (.sub n) i = some (f, sid) → l.flow = some f ∨ d = some f
  active : ∀ f, l.flow = some f → l.active f = true
  started : ∀ f, l.active f = true → f < l.nextFlow ∧ l.started f = true
  bound : ∀ s i f sid, l.link s i = some (f, sid) → f < l.nextFlow
  sids : ∀ f sid s i, (l.txsids f).lookup sid = some (s, i) ↔ l.link s i = some (f, sid)
  queued : ∀ f s, s ∈ l.tstreams f ↔ l.tqflow s = true ∧ ∃ i sid, l.link s i = some (f, sid)
  lined : ∀ s, l.tqflow s = true → l.tcuratt s ≠ none
  nodup : ∀ f, (l.tstreams f).Nodup
  sorted : ∀ f, (l.tstreams f).Pairwise l.Before
  stamps : ∀ s, l.tqflow s = true → l.stamp s < l.clock
  freshStream : ∀ n ≥ l.nextStream, l.live (.sub n) = false ∧ l.tcuratt (.sub n) = none
  freshFlow : ∀ f ≥ l.nextFlow, l.live (.root f) = false ∧ l.tcuratt (.root f) = none

/-- A stream without attachments. -/
structure Free (l : Layout) (s : StrmId) : Prop where
  link : ∀ i, l.link s i = none
  tcuratt : l.tcuratt s = none
  tqflow : l.tqflow s = false

variable {d : Option ℕ} {l : Layout} {f sid : ℕ} {s t : StrmId} {i : Fin 2}

namespace Sound

theorem slot_unique (h : Sound d l) {j : Fin 2} {k k' : ℕ × ℕ} (hi : l.link s i = some k)
    (hj : l.link s j = some k') : i = j := by
  have h1 := (h.cur s i).mpr (by rw [hi]; exact Option.some_ne_none _)
  have h2 := (h.cur s j).mpr (by rw [hj]; exact Option.some_ne_none _)
  exact Option.some.inj (h1.symm.trans h2)

theorem free (h : Sound d l) (hs : l.tcuratt s = none) : l.Free s where
  link i := by
    by_contra hi
    rw [(h.cur s i).mpr hi] at hs
    cases hs
  tcuratt := hs
  tqflow := Bool.eq_false_iff.mpr fun hq => h.lined s hq hs

theorem not_queued (h : Sound d l) (hs : l.tqflow s = false) (f : ℕ) : s ∉ l.tstreams f :=
  fun hm => by
    rw [((h.queued f s).mp hm).1] at hs
    cases hs

theorem ne_fresh (h : Sound d l) (hs : l.live s = true) {n : ℕ} (hn : l.nextStream ≤ n) :
    .sub n ≠ s := by
  rintro rfl
  rw [(h.freshStream n hn).1] at hs
  cases hs

theorem ne_freshFlow (h : Sound d l) (hs : l.live s = true) (hf : l.nextFlow ≤ f) :
    .root f ≠ s := by
  rintro rfl
  rw [(h.freshFlow f hf).1] at hs
  cases hs

end Sound

/-! ## Attaching -/

/-- The stream `s` gets the stream id `sid` on the flow `f` in the slot `i`. -/
def attach (l : Layout) (f : ℕ) (s : StrmId) (sid : ℕ) (i : Fin 2) : Layout :=
  { l with
    link := Function.update l.link s (Function.update (l.link s) i (some (f, sid)))
    tcuratt := Function.update l.tcuratt s (some i)
    txsids := Function.update l.txsids f ((l.txsids f).insert sid (s, i)) }

theorem attach_link (hs : l.Free s) {t : StrmId} {j : Fin 2} {k m : ℕ} :
    (l.attach f s sid i).link t j = some (k, m) ↔
      (t = s ∧ j = i ∧ k = f ∧ m = sid) ∨ l.link t j = some (k, m) := by
  simp only [attach, Function.update_apply]
  split_ifs with ht
  · subst ht
    rw [Function.update_apply, hs.link]
    split_ifs with hj
    · simp [hj, eq_comm]
    · simp [hj]
  · simp [ht]

/-- **Attaching** a stream without attachments to the primary flow, under a free stream id. -/
theorem Sound.attach (h : Sound d l) (hf : l.flow = some f) (hs : l.tcuratt s = none)
    (hlive : l.live s = true) (hsid : (l.txsids f).lookup sid = none) :
    Sound d (l.attach f s sid i) :=
  have hfree := h.free hs
  { h with
    cur := fun t j => by
      simp only [Layout.attach, Function.update_apply]
      split_ifs with ht
      · subst ht
        rw [Function.update_apply, hfree.link]
        split_ifs with hj <;> simp [hj, eq_comm]
        exact fun hij => hj hij.symm
      · exact h.cur t j
    primary := fun n j k m hk => by
      obtain ⟨-, -, rfl, -⟩ | hk := (attach_link hfree).mp hk
      · exact .inl hf
      · exact h.primary n j k m hk
    bound := fun t j k m hk => by
      obtain ⟨-, -, rfl, -⟩ | hk := (attach_link hfree).mp hk
      · exact (h.started _ (h.active _ hf)).1
      · exact h.bound t j k m hk
    sids := fun k m t j => by
      rw [attach_link hfree, ← h.sids]
      simp only [Layout.attach, Function.update_apply]
      split_ifs with hk
      · subst hk
        by_cases hm : m = sid
        · subst hm
          rw [AList.lookup_insert, hsid]
          simp [eq_comm]
        · rw [AList.lookup_insert_ne hm]
          simp [hm]
      · simp [hk]
    queued := fun k t => by
      refine (h.queued k t).trans (and_congr_right fun hq => exists₂_congr fun j m => ?_)
      rw [attach_link hfree]
      refine (or_iff_right ?_).symm
      rintro ⟨rfl, -⟩
      rw [hfree.tqflow] at hq
      cases hq
    lined := fun t ht => by
      simp only [Layout.attach, Function.update_apply]
      split_ifs
      · exact Option.some_ne_none _
      · exact h.lined t ht
    freshStream := fun n hn => by
      simp only [Layout.attach, Function.update_apply, if_neg (h.ne_fresh hlive hn)]
      exact h.freshStream n hn
    freshFlow := fun k hk => by
      simp only [Layout.attach, Function.update_apply, if_neg (h.ne_freshFlow hlive hk)]
      exact h.freshFlow k hk }

/-! ## The queue -/

/-- The stream `s` enters the queue of `f` with the priority `pri`, or enters it again. -/
def enqueue (l : Layout) (f : ℕ) (s : StrmId) (pri : ℤ) : Layout :=
  let priority := Function.update l.priority s pri
  { l with
    priority := priority
    stamp := Function.update l.stamp s l.clock
    tqflow := Function.update l.tqflow s true
    clock := l.clock + 1
    tstreams := Function.update l.tstreams f
      (insertBehind (fun t => pri ≤ priority t) s ((l.tstreams f).filter (· ≠ s))) }

theorem Sound.queued_flow (h : Sound d l) {k m : ℕ} {j : Fin 2} (hs : s ∈ l.tstreams f)
    (hl : l.link s j = some (k, m)) : k = f := by
  obtain ⟨i, sid, hi⟩ := ((h.queued f s).mp hs).2
  obtain rfl := h.slot_unique hi hl
  rw [hi] at hl
  cases hl
  rfl

/-- **Queueing** a stream on the flow to which it is attached. -/
theorem Sound.enqueue (h : Sound d l) (hs : l.link s i = some (f, sid)) (pri : ℤ) :
    Sound d (l.enqueue f s pri) := by
  -- Nothing changes for the other streams.
  have hne : ∀ t ∈ (l.tstreams f).filter (· ≠ s), t ≠ s := fun t ht => by
    simpa using (List.mem_filter.mp ht).2
  have hpri : ∀ t, t ≠ s → (l.enqueue f s pri).priority t = l.priority t := fun t ht =>
    Function.update_of_ne ht ..
  have hstamp : ∀ t, t ≠ s → (l.enqueue f s pri).stamp t = l.stamp t := fun t ht =>
    Function.update_of_ne ht ..
  have hbef : ∀ t u, t ≠ s → u ≠ s → l.Before t u → (l.enqueue f s pri).Before t u :=
    fun t u ht hu hb => by
      unfold Before
      rwa [hpri t ht, hpri u hu, hstamp t ht, hstamp u hu]
  have hself : (l.enqueue f s pri).priority s = pri ∧ (l.enqueue f s pri).stamp s = l.clock :=
    ⟨Function.update_self .., Function.update_self ..⟩
  exact { h with
    queued := fun k t => by
      simp only [Layout.enqueue, Function.update_apply]
      split_ifs with hk ht ht
      · subst hk ht
        simp only [mem_insertBehind, true_or, true_and, true_iff]
        exact ⟨i, sid, hs⟩
      · subst hk
        rw [mem_insertBehind, List.mem_filter, ← h.queued]
        simp [ht]
      · subst ht
        rw [h.queued]
        refine and_congr_left fun ht => ?_
        obtain ⟨j, m, hj⟩ := ht
        obtain rfl := h.slot_unique hs hj
        rw [hs] at hj
        cases hj
        exact absurd rfl hk
      · exact h.queued k t
    lined := fun t ht => by
      simp only [Layout.enqueue, Function.update_apply] at ht
      split_ifs at ht with hts
      · subst hts
        have := (h.cur t i).mpr (by rw [hs]; exact Option.some_ne_none _)
        change l.tcuratt t ≠ none
        rw [this]
        exact Option.some_ne_none _
      · exact h.lined t ht
    nodup := fun k => by
      simp only [Layout.enqueue, Function.update_apply]
      split_ifs
      · exact nodup_insertBehind ((h.nodup f).filter _) fun hm => hne s hm rfl
      · exact h.nodup k
    sorted := fun k => by
      have hold := h.sorted f
      simp only [Layout.enqueue, Function.update_apply]
      split_ifs with hk
      · have hsub := hold.filter fun t => decide (t ≠ s)
        refine pairwise_insertBehind ?_ ?_ ?_ ?_
        · refine hsub.imp_of_mem fun ht hu hb => hbef _ _ (hne _ ht) (hne _ hu) hb
        · intro t ht hp
          rw [if_neg (hne t ht), decide_eq_true_eq] at hp
          have hq := ((h.queued f t).mp (List.mem_of_mem_filter ht)).1
          have hst := h.stamps t hq
          unfold Before
          change (l.enqueue f s pri).priority s < (l.enqueue f s pri).priority t ∨
            (l.enqueue f s pri).priority t = (l.enqueue f s pri).priority s ∧
            (l.enqueue f s pri).stamp t < (l.enqueue f s pri).stamp s
          rw [hself.1, hself.2, hpri t (hne t ht), hstamp t (hne t ht)]
          omega
        · intro t ht hp
          rw [if_neg (hne t ht), decide_eq_false_iff_not] at hp
          refine .inl ?_
          change (l.enqueue f s pri).priority t < (l.enqueue f s pri).priority s
          rw [hself.1, hpri t (hne t ht)]
          omega
        · refine hsub.imp_of_mem fun {t u} ht hu hb hp => ?_
          rw [if_neg (hne u hu), decide_eq_true_eq] at hp
          rw [if_neg (hne t ht), decide_eq_true_eq]
          rcases hb with hb | ⟨hb, -⟩ <;> omega
      · refine (h.sorted k).imp_of_mem fun {t u} ht hu hb => hbef t u ?_ ?_ hb
        · rintro rfl
          exact hk (h.queued_flow ht hs).symm
        · rintro rfl
          exact hk (h.queued_flow hu hs).symm
    stamps := fun t ht => by
      change (l.enqueue f s pri).stamp t < l.clock + 1
      by_cases hts : t = s
      · rw [hts, hself.2]
        omega
      · rw [hstamp t hts]
        have ht' : l.tqflow t = true := by
          change Function.update l.tqflow s true t = true at ht
          rwa [Function.update_of_ne hts] at ht
        have := h.stamps t ht'
        omega }

theorem Sound.setPriority (h : Sound d l) (hs : l.tqflow s = false) (pri : ℤ) :
    Sound d { l with priority := Function.update l.priority s pri } :=
  { h with
    sorted := fun f => (h.sorted f).imp_of_mem fun {t u} ht hu hb => by
      have hne : ∀ v ∈ l.tstreams f, v ≠ s := by
        rintro v hv rfl
        exact h.not_queued hs f hv
      simp only [Before, Function.update_of_ne (hne t ht), Function.update_of_ne (hne u hu)]
      exact hb }

/-- The first stream in line has its turn. -/
def pick (l : Layout) (f : ℕ) (s : StrmId) (rest : List StrmId) : Layout :=
  { l with
    tqflow := Function.update l.tqflow s false
    tstreams := Function.update l.tstreams f rest }

/-- **Picking** the first stream in line. -/
theorem Sound.pick (h : Sound d l) {rest : List StrmId} (hrest : l.tstreams f = s :: rest) :
    Sound d (l.pick f s rest) := by
  have hnodup := h.nodup f
  have hsorted := h.sorted f
  rw [hrest] at hnodup hsorted
  have hs : s ∈ l.tstreams f := hrest ▸ List.mem_cons_self
  exact { h with
    queued := fun k t => by
      simp only [Layout.pick, Function.update_apply]
      split_ifs with hk ht ht
      · subst hk ht
        simp [(List.nodup_cons.mp hnodup).1]
      · subst hk
        rw [← h.queued, hrest, List.mem_cons]
        simp [ht]
      · subst ht
        refine iff_of_false (fun hm => ?_) (by simp)
        obtain ⟨i, sid, hi⟩ := ((h.queued f t).mp hs).2
        exact hk (h.queued_flow hm hi).symm
      · exact h.queued k t
    lined := fun t ht => by
      simp only [Layout.pick, Function.update_apply] at ht
      split_ifs at ht
      exact h.lined t ht
    nodup := fun k => by
      simp only [Layout.pick, Function.update_apply]
      split_ifs
      · exact (List.nodup_cons.mp hnodup).2
      · exact h.nodup k
    sorted := fun k => by
      simp only [Layout.pick, Function.update_apply]
      split_ifs
      · exact (List.pairwise_cons.mp hsorted).2
      · exact h.sorted k
    stamps := fun t ht => by
      simp only [Layout.pick, Function.update_apply] at ht
      split_ifs at ht
      exact h.stamps t ht }

/-! ## Detaching -/

/-- The slot `i` of the stream `s` is no longer in use. -/
def release (l : Layout) (f : ℕ) (s : StrmId) (sid : ℕ) (i : Fin 2) : Layout :=
  { l with
    link := Function.update l.link s (Function.update (l.link s) i none)
    tcuratt := Function.update l.tcuratt s none
    tqflow := Function.update l.tqflow s false
    txsids := Function.update l.txsids f ((l.txsids f).erase sid)
    tstreams := Function.update l.tstreams f ((l.tstreams f).filter (· ≠ s)) }

theorem Sound.release_link (h : Sound d l) (hs : l.link s i = some (f, sid)) (t : StrmId)
    (j : Fin 2) : (l.release f s sid i).link t j = if t = s then none else l.link t j := by
  simp only [Layout.release, Function.update_apply]
  split_ifs with ht
  · rw [Function.update_apply]
    split_ifs with hj
    · rfl
    · cases hk : l.link s j with
      | none => rfl
      | some k => exact absurd (h.slot_unique hk hs) hj
  · rfl

/-- **Releasing** a slot. -/
theorem Sound.release (h : Sound d l) (hs : l.link s i = some (f, sid)) :
    Sound d (l.release f s sid i) := by
  have hlink : ∀ {t j k}, (l.release f s sid i).link t j = some k ↔
      t ≠ s ∧ l.link t j = some k := by
    intro t j k
    rw [h.release_link hs]
    split_ifs with ht <;> simp [ht]
  have hsid : (l.txsids f).lookup sid = some (s, i) := (h.sids f sid s i).mpr hs
  exact { h with
    cur := fun t j => by
      rw [h.release_link hs]
      simp only [Layout.release, Function.update_apply]
      split_ifs
      · simp
      · exact h.cur t j
    primary := fun n j k m hk => h.primary n j k m (hlink.mp hk).2
    bound := fun t j k m hk => h.bound t j k m (hlink.mp hk).2
    sids := fun k m t j => by
      rw [hlink, ← h.sids]
      simp only [Layout.release, Function.update_apply]
      split_ifs with hk
      · subst hk
        by_cases hm : m = sid
        · subst hm
          rw [AList.lookup_erase, hsid]
          refine iff_of_false (fun hn => (nomatch hn)) ?_
          rintro ⟨hne, heq⟩
          cases heq
          exact hne rfl
        · rw [AList.lookup_erase_ne hm]
          refine (and_iff_right_of_imp ?_).symm
          rintro hl rfl
          have hl' := (h.sids k m t j).mp hl
          obtain rfl := h.slot_unique hs hl'
          rw [hs] at hl'
          cases hl'
          exact hm rfl
      · refine (and_iff_right_of_imp ?_).symm
        rintro hl rfl
        have hl' := (h.sids k m t j).mp hl
        obtain rfl := h.slot_unique hs hl'
        rw [hs] at hl'
        cases hl'
        exact hk rfl
    queued := fun k t => by
      simp only [hlink]
      simp only [Layout.release, Function.update_apply]
      split_ifs with hk ht ht
      · subst ht
        simp
      · subst hk
        rw [List.mem_filter, h.queued]
        simp [ht]
      · subst ht
        refine iff_of_false (fun hm => hk (h.queued_flow hm hs).symm) (by simp)
      · rw [h.queued]
        simp [ht]
    lined := fun t ht => by
      simp only [Layout.release, Function.update_apply] at ht ⊢
      split_ifs at ht ⊢
      exact h.lined t ht
    nodup := fun k => by
      simp only [Layout.release, Function.update_apply]
      split_ifs
      · exact (h.nodup f).filter _
      · exact h.nodup k
    sorted := fun k => by
      simp only [Layout.release, Function.update_apply]
      split_ifs
      · exact (h.sorted f).filter _
      · exact h.sorted k
    stamps := fun t ht => by
      simp only [Layout.release, Function.update_apply] at ht
      split_ifs at ht
      exact h.stamps t ht
    freshStream := fun n hn => by
      refine ⟨(h.freshStream n hn).1, ?_⟩
      simp only [Layout.release, Function.update_apply]
      split_ifs
      · rfl
      · exact (h.freshStream n hn).2
    freshFlow := fun k hk => by
      refine ⟨(h.freshFlow k hk).1, ?_⟩
      simp only [Layout.release, Function.update_apply]
      split_ifs
      · rfl
      · exact (h.freshFlow k hk).2 }

/-! ## Streams and flows that come and go -/

/-- A new stream; it has no attachments. -/
def create (l : Layout) : Layout :=
  { l with
    priority := Function.update l.priority (.sub l.nextStream) 0
    stamp := Function.update l.stamp (.sub l.nextStream) 0
    live := Function.update l.live (.sub l.nextStream) true
    nextStream := l.nextStream + 1 }

/-- **A new stream.** -/
theorem Sound.create (h : Sound d l) : Sound d l.create := by
  have hfree := h.free (h.freshStream _ le_rfl).2
  exact { h with
    sorted := fun f => (h.sorted f).imp_of_mem fun {t u} ht hu hb => by
      have hne : ∀ v ∈ l.tstreams f, v ≠ .sub l.nextStream := by
        rintro v hv rfl
        exact h.not_queued hfree.tqflow f hv
      simp only [Before, Layout.create, Function.update_of_ne (hne t ht),
        Function.update_of_ne (hne u hu)]
      exact hb
    stamps := fun t ht => by
      have hne : t ≠ .sub l.nextStream := by
        rintro rfl
        rw [show l.create.tqflow = l.tqflow from rfl, hfree.tqflow] at ht
        cases ht
      simp only [Layout.create, Function.update_of_ne hne]
      exact h.stamps t ht
    freshStream := fun n hn => by
      change l.nextStream + 1 ≤ n at hn
      refine ⟨?_, (h.freshStream n (by omega)).2⟩
      have hne : StrmId.sub n ≠ .sub l.nextStream := fun heq => by
        cases heq
        omega
      simp only [Layout.create, Function.update_of_ne hne]
      exact (h.freshStream n (by omega)).1
    freshFlow := fun f hf => by
      refine ⟨?_, (h.freshFlow f hf).2⟩
      simp only [Layout.create, Function.update_of_ne (fun heq => nomatch heq :
        StrmId.root f ≠ .sub l.nextStream)]
      exact (h.freshFlow f hf).1 }

/-- A new flow, with its root stream attached under the stream id `sid`. -/
def newFlow (l : Layout) (sid : ℕ) : Layout :=
  let s := StrmId.root l.nextFlow
  { l with
    link := Function.update l.link s (Function.update (fun _ => none) 0 (some (l.nextFlow, sid)))
    tcuratt := Function.update l.tcuratt s (some 0)
    tqflow := Function.update l.tqflow s false
    priority := Function.update l.priority s 0
    stamp := Function.update l.stamp s 0
    live := Function.update l.live s true
    txsids := Function.update l.txsids l.nextFlow (.singleton sid (s, 0))
    tstreams := Function.update l.tstreams l.nextFlow []
    active := Function.update l.active l.nextFlow false
    started := Function.update l.started l.nextFlow false
    nextFlow := l.nextFlow + 1 }

theorem Sound.inactive (h : Sound d l) (hf : l.nextFlow ≤ f) : l.active f = false :=
  Bool.eq_false_iff.mpr fun ha => absurd (h.started f ha).1 (by omega)

theorem Sound.newFlow_link (h : Sound d l) {t : StrmId} {j : Fin 2} {k m : ℕ} :
    (l.newFlow sid).link t j = some (k, m) ↔
      (t = .root l.nextFlow ∧ j = 0 ∧ k = l.nextFlow ∧ m = sid) ∨ l.link t j = some (k, m) := by
  have hfree := h.free (h.freshFlow l.nextFlow le_rfl).2
  simp only [Layout.newFlow, Function.update_apply]
  split_ifs with ht
  · subst ht
    rw [Function.update_apply, hfree.link]
    split_ifs with hj <;> simp [hj, eq_comm]
  · simp [ht]

/-- **A new flow.** -/
theorem Sound.newFlow (h : Sound d l) : Sound d (l.newFlow sid) := by
  have hfree := h.free (h.freshFlow l.nextFlow le_rfl).2
  have hne : ∀ f, ∀ v ∈ l.tstreams f, v ≠ .root l.nextFlow := by
    rintro f v hv rfl
    exact h.not_queued hfree.tqflow f hv
  exact { h with
    cur := fun t j => by
      simp only [Layout.newFlow, Function.update_apply]
      split_ifs
      · rw [Function.update_apply]
        split_ifs with hj <;> simp [hj, eq_comm]
      · exact h.cur t j
    primary := fun n j k m hk => by
      obtain ⟨ht, -⟩ | hk := h.newFlow_link.mp hk
      · cases ht
      · exact h.primary n j k m hk
    active := fun f hf => by
      have hlt := (h.started f (h.active f hf)).1
      simp only [Layout.newFlow, Function.update_of_ne hlt.ne]
      exact h.active f hf
    started := fun f ha => by
      simp only [Layout.newFlow, Function.update_apply] at ha ⊢
      split_ifs at ha ⊢ with hf
      obtain ⟨h1, h2⟩ := h.started f ha
      exact ⟨by omega, h2⟩
    bound := fun t j k m hk => by
      change k < l.nextFlow + 1
      obtain ⟨-, -, rfl, -⟩ | hk := h.newFlow_link.mp hk
      · omega
      · have := h.bound t j k m hk
        omega
    sids := fun k m t j => by
      rw [h.newFlow_link]
      simp only [Layout.newFlow, Function.update_apply]
      split_ifs with hk
      · subst hk
        have hold : l.link t j ≠ some (l.nextFlow, m) := fun hl => by
          have := h.bound t j _ _ hl
          omega
        rw [or_iff_left hold, ← AList.insert_empty]
        by_cases hm : m = sid
        · subst hm
          rw [AList.lookup_insert]
          simp [eq_comm]
        · rw [AList.lookup_insert_ne hm, AList.lookup_empty]
          simp [hm]
      · rw [h.sids]
        simp [hk]
    queued := fun k t => by
      simp only [h.newFlow_link]
      simp only [Layout.newFlow, Function.update_apply]
      split_ifs with hk ht ht
      · simp
      · subst hk
        refine iff_of_false (fun hm => (nomatch hm)) ?_
        rintro ⟨-, j, m, ⟨hts, -⟩ | hl⟩
        · exact ht hts
        · have := h.bound t j _ _ hl
          omega
      · subst ht
        exact iff_of_false (fun hm => hne k _ hm rfl) (by simp)
      · rw [h.queued]
        simp [ht]
    lined := fun t ht => by
      simp only [Layout.newFlow, Function.update_apply] at ht ⊢
      split_ifs at ht ⊢
      exact h.lined t ht
    nodup := fun k => by
      simp only [Layout.newFlow, Function.update_apply]
      split_ifs
      · exact List.nodup_nil
      · exact h.nodup k
    sorted := fun k => by
      simp only [Layout.newFlow, Function.update_apply]
      split_ifs
      · exact List.Pairwise.nil
      · refine (h.sorted k).imp_of_mem fun {t u} ht hu hb => ?_
        simp only [Before, Function.update_of_ne (hne k t ht), Function.update_of_ne (hne k u hu)]
        exact hb
    stamps := fun t ht => by
      simp only [Layout.newFlow, Function.update_apply] at ht ⊢
      split_ifs at ht ⊢
      exact h.stamps t ht
    freshStream := fun n hn => by
      simp only [Layout.newFlow, Function.update_of_ne (fun heq => nomatch heq :
        StrmId.sub n ≠ .root l.nextFlow)]
      exact h.freshStream n hn
    freshFlow := fun f hf => by
      change l.nextFlow + 1 ≤ f at hf
      have hf' : StrmId.root f ≠ .root l.nextFlow := fun heq => by
        cases heq
        omega
      simp only [Layout.newFlow, Function.update_of_ne hf']
      exact h.freshFlow f (by omega) }

/-- A flow starts. -/
def activate (l : Layout) (f : ℕ) : Layout :=
  { l with
    active := Function.update l.active f true
    started := Function.update l.started f true }

theorem Sound.activate (h : Sound d l) (hf : f < l.nextFlow) : Sound d (l.activate f) :=
  { h with
    active := fun k hk => by
      simp only [Layout.activate, Function.update_apply]
      split_ifs
      · rfl
      · exact h.active k hk
    started := fun k hk => by
      simp only [Layout.activate, Function.update_apply] at hk ⊢
      split_ifs at hk ⊢ with hkf
      · exact ⟨hkf ▸ hf, rfl⟩
      · exact h.started k hk }

theorem Sound.deactivate (h : Sound d l) (hf : l.flow ≠ some f) :
    Sound d { l with active := Function.update l.active f false } :=
  { h with
    active := fun k hk => by
      have hne : k ≠ f := by
        rintro rfl
        exact hf hk
      simp only [Function.update_of_ne hne]
      exact h.active k hk
    started := fun k hk => by
      simp only [Function.update_apply] at hk
      split_ifs at hk
      exact h.started k hk }

theorem Sound.promote (h : Sound none l) (hl : l.flow = none) (hf : l.active f = true) :
    Sound none { l with flow := some f } :=
  { h with
    primary := fun n j k m hk => by
      obtain hk | hk := h.primary n j k m hk
      · rw [hl] at hk
        cases hk
      · cases hk
    active := fun k hk => by
      cases hk
      exact hf }

theorem Sound.leave (h : Sound none l) (hf : l.flow = some f) :
    Sound (some f) { l with flow := none } :=
  { h with
    primary := fun n j k m hk => by
      obtain hk | hk := h.primary n j k m hk
      · exact .inr (hf.symm.trans hk)
      · cases hk
    active := fun k hk => (nomatch hk) }

theorem Sound.left (h : Sound (some f) l) (hl : ∀ s i sid, l.link s i ≠ some (f, sid)) :
    Sound none l :=
  { h with
    primary := fun n j k m hk => by
      refine (h.primary n j k m hk).imp_right fun heq => ?_
      cases heq
      exact absurd hk (hl _ _ _) }

theorem Sound.bury (h : Sound d l) (s : StrmId) :
    Sound d { l with live := Function.update l.live s false } :=
  { h with
    freshStream := fun n hn => by
      refine ⟨?_, (h.freshStream n hn).2⟩
      simp only [Function.update_apply]
      split_ifs
      · rfl
      · exact (h.freshStream n hn).1
    freshFlow := fun f hf => by
      refine ⟨?_, (h.freshFlow f hf).2⟩
      simp only [Function.update_apply]
      split_ifs
      · rfl
      · exact (h.freshFlow f hf).1 }


end Layout

end Sst.Strm
