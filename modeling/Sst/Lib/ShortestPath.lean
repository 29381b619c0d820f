import Mathlib.Algebra.BigOperators.Group.Finset.Basic
import Mathlib.Algebra.Order.BigOperators.Group.Finset
import Mathlib.Algebra.Order.Monoid.Unbundled.Basic
import Mathlib.Data.List.Sort

/-!
# Shortest paths with lazy deletion

Best-first search in a weighted graph with a queue that keeps the entries of nodes that have been
reached on a shorter way since. Of the weights only this is used: their order is linear, addition
keeps it, and no edge makes a path lighter. So rounded sums will do.

* `Walk g a b l w`: a walk from `a` over the nodes `l`, last first, to `b`, of weight `w`.
* `Frontier.relax`: the best known path to a node is replaced by a better one.
* `Relaxes`: what the relaxation of some edges of a node does.
* `Settled g a S σ`: the invariant of the search; the nodes `S` are settled, the last one first.
* **`Settled.settle`**, `Settled.skip`, `Settled.relaxAll_eq`: the search keeps it.
* **`Settled.optimal`**: the first entry of an unsettled node has the least weight of all walks.
* `Settled.exhausted`: a node that is not settled when the queue is empty is not reachable.
* **`Settled.trace`**: the predecessors of a node are a walk without loops.
* `potential`: a bound on the number of entries that are still to be taken.
-/

namespace ShortestPath

/-- The neighbours of each node, with the weights of the edges. -/
abbrev Graph (ν ω : Type*) := ν → List (ν × ω)

variable {ν ω : Type*}

/-- A walk from `a`, with its nodes but the last in reverse, and its weight. -/
inductive Walk [Zero ω] [Add ω] (g : Graph ν ω) (a : ν) : ν → List ν → ω → Prop
  | nil : Walk g a a [] 0
  | snoc {b c : ν} {l : List ν} {w d : ω} (h : Walk g a b l w) (hd : (c, d) ∈ g b) :
    Walk g a c (b :: l) (w + d)

/-- No edge makes a path lighter. -/
def Grows [LE ω] [Add ω] (g : Graph ν ω) : Prop :=
  ∀ n, ∀ e ∈ g n, ∀ w, w ≤ w + e.2

/-- The paths known so far: weights, predecessors and the queue. -/
structure Frontier (ν ω : Type*) where
  dist : ν → Option ω
  prev : ν → Option ν
  queue : List (ω × ν)

variable [LinearOrder ω]

/-- The order of a queue. -/
def Sorted (q : List (ω × ν)) : Prop := q.Pairwise fun e f => e.1 ≤ f.1

/-- A new entry goes before those of the same weight. -/
def enqueue (w : ω) (n : ν) (q : List (ω × ν)) : List (ω × ν) :=
  q.orderedInsert (fun e f => e.1 ≤ f.1) (w, n)

theorem mem_enqueue {w : ω} {n : ν} {q : List (ω × ν)} {e : ω × ν} :
    e ∈ enqueue w n q ↔ e = (w, n) ∨ e ∈ q :=
  List.mem_orderedInsert _

theorem Sorted.enqueue {w : ω} {n : ν} {q : List (ω × ν)} (h : Sorted q) :
    Sorted (enqueue w n q) := by
  have : Std.Total fun e f : ω × ν => e.1 ≤ f.1 := ⟨fun e f => le_total e.1 f.1⟩
  have : IsTrans (ω × ν) fun e f => e.1 ≤ f.1 := ⟨fun _ _ _ => le_trans⟩
  exact List.Pairwise.orderedInsert (w, n) q h

namespace Frontier

variable [Add ω] (n : ν) (w : ω)

/-- Whether no path of the weight `w` to `x` is needed. -/
def reaches (σ : Frontier ν ω) (x : ν) (w : ω) : Prop := ∃ v, σ.dist x = some v ∧ v ≤ w

instance (σ : Frontier ν ω) (x : ν) (w : ω) : Decidable (σ.reaches x w) :=
  decidable_of_iff ((σ.dist x).any (· ≤ w) = true) (by
    unfold reaches
    cases σ.dist x <;> simp)

variable [DecidableEq ν]

/-- Relax the edge `e` of the node `n`, which is at the distance `w`. -/
def relax (σ : Frontier ν ω) (e : ν × ω) : Frontier ν ω :=
  if σ.reaches e.1 (w + e.2) then σ
  else
    { dist := Function.update σ.dist e.1 (some (w + e.2))
      prev := Function.update σ.prev e.1 (some n)
      queue := enqueue (w + e.2) e.1 σ.queue }

/-- Relax some edges of the node `n`. -/
def relaxAll (es : List (ν × ω)) (σ : Frontier ν ω) : Frontier ν ω := es.foldl (relax n w) σ

end Frontier

open Frontier

/-! ## Relaxation -/

section Relaxes

variable [Add ω] {n x : ν} {v w : ω} {e : ν × ω} {es : List (ν × ω)} {σ τ υ : Frontier ν ω}

/-- A better path to `x` was found over one of the edges `es`. -/
structure Improves (n : ν) (w : ω) (es : List (ν × ω)) (σ τ : Frontier ν ω) (x : ν) (d : ω) :
    Prop where
  edge : (x, d) ∈ es
  dist : τ.dist x = some (w + d)
  prev : τ.prev x = some n
  queued : (w + d, x) ∈ τ.queue
  better : ∀ v, σ.dist x = some v → w + d < v

/-- What the relaxation of the edges `es` of `n` does. -/
structure Relaxes (n : ν) (w : ω) (es : List (ν × ω)) (σ τ : Frontier ν ω) : Prop where
  cases : ∀ x, τ.dist x = σ.dist x ∧ τ.prev x = σ.prev x ∨ ∃ d, Improves n w es σ τ x d
  bound : ∀ e ∈ es, τ.reaches e.1 (w + e.2)
  keeps : σ.queue ⊆ τ.queue
  entry : ∀ e ∈ τ.queue, e ∈ σ.queue ∨ ∃ d, (e.2, d) ∈ es ∧ e.1 = w + d
  sorted : Sorted σ.queue → Sorted τ.queue
  length : τ.queue.length ≤ σ.queue.length + es.length

theorem Relaxes.reaches (h : Relaxes n w es σ τ) (hx : σ.reaches x v) : τ.reaches x v := by
  obtain ⟨u, hu, hle⟩ := hx
  obtain ⟨hd, -⟩ | ⟨d, hd⟩ := h.cases x
  · exact ⟨u, hd.trans hu, hle⟩
  · exact ⟨w + d, hd.dist, (hd.better u hu).le.trans hle⟩

theorem Relaxes.nil : Relaxes n w [] σ σ where
  cases _ := .inl ⟨rfl, rfl⟩
  bound := nofun
  keeps := List.Subset.refl _
  entry _ he := .inl he
  sorted := id
  length := le_rfl

variable [DecidableEq ν]

theorem relaxes_relax : Relaxes n w [e] σ (σ.relax n w e) := by
  unfold relax
  split_ifs with h
  · refine ⟨fun _ => .inl ⟨rfl, rfl⟩, fun f hf => ?_, List.Subset.refl _, fun _ hf => .inl hf, id,
      Nat.le_add_right _ _⟩
    rwa [List.mem_singleton.mp hf]
  · refine ⟨fun x => ?_, fun f hf => ?_, fun f hf => mem_enqueue.mpr (.inr hf), fun f hf => ?_,
      Sorted.enqueue, ?_⟩
    · by_cases hx : x = e.1
      · subst hx
        refine .inr ⟨e.2, List.mem_singleton_self e, Function.update_self ..,
          Function.update_self .., mem_enqueue.mpr (.inl rfl), fun v hv => ?_⟩
        exact lt_of_not_ge fun hle => h ⟨v, hv, hle⟩
      · exact .inl ⟨Function.update_of_ne hx .., Function.update_of_ne hx ..⟩
    · rw [List.mem_singleton.mp hf]
      exact ⟨w + e.2, Function.update_self .., le_rfl⟩
    · obtain rfl | hf := mem_enqueue.mp hf
      · exact .inr ⟨e.2, List.mem_singleton_self e, rfl⟩
      · exact .inl hf
    · exact (List.orderedInsert_length ..).le

omit [DecidableEq ν] in
theorem Relaxes.cons (h₁ : Relaxes n w [e] σ τ) (h₂ : Relaxes n w es τ υ) :
    Relaxes n w (e :: es) σ υ where
  cases x := by
    obtain ⟨hd₂, hp₂⟩ | ⟨d, hd⟩ := h₂.cases x
    · obtain ⟨hd₁, hp₁⟩ | ⟨d, hd⟩ := h₁.cases x
      · exact .inl ⟨hd₂.trans hd₁, hp₂.trans hp₁⟩
      · have hedge : (x, d) = e := List.mem_singleton.mp hd.edge
        exact .inr ⟨d, hedge ▸ List.mem_cons_self, hd₂.trans hd.dist, hp₂.trans hd.prev,
          h₂.keeps hd.queued, hd.better⟩
    · refine .inr ⟨d, List.mem_cons_of_mem e hd.edge, hd.dist, hd.prev, hd.queued, fun v hv => ?_⟩
      obtain ⟨u, hu, hle⟩ := h₁.reaches ⟨v, hv, le_rfl⟩
      exact (hd.better u hu).trans_le hle
  bound f hf := by
    obtain rfl | hf := List.mem_cons.mp hf
    · exact h₂.reaches (h₁.bound f List.mem_cons_self)
    · exact h₂.bound f hf
  keeps f hf := h₂.keeps (h₁.keeps hf)
  entry f hf := by
    obtain hf | ⟨d, hd, heq⟩ := h₂.entry f hf
    · obtain hf | ⟨d, hd, heq⟩ := h₁.entry f hf
      · exact .inl hf
      · have hedge : (f.2, d) = e := List.mem_singleton.mp hd
        exact .inr ⟨d, hedge ▸ List.mem_cons_self, heq⟩
    · exact .inr ⟨d, List.mem_cons_of_mem e hd, heq⟩
  sorted h := h₂.sorted (h₁.sorted h)
  length := by
    have hle₁ := h₁.length
    have hle₂ := h₂.length
    simp only [List.length_cons, List.length_nil] at hle₁ ⊢
    omega

/-- **The relaxation of some edges.** -/
theorem relaxes_relaxAll : Relaxes n w es σ (σ.relaxAll n w es) := by
  induction es generalizing σ with
  | nil => exact .nil
  | cons e es ih => exact relaxes_relax.cons ih

theorem relaxAll_eq_self (h : ∀ e ∈ es, σ.reaches e.1 (w + e.2)) : σ.relaxAll n w es = σ := by
  induction es with
  | nil => rfl
  | cons e es ih =>
    obtain ⟨he, h⟩ := List.forall_mem_cons.mp h
    rw [relaxAll, List.foldl_cons, relax, if_pos he]
    exact ih h

end Relaxes

/-! ## The invariant -/

variable [Zero ω] [Add ω] {g : Graph ν ω} {a b n : ν} {w : ω} {S l : List ν} {σ : Frontier ν ω}
  {q : List (ω × ν)}

/-- The nodes `S` are settled, the last one first. -/
structure Settled (g : Graph ν ω) (a : ν) (S : List ν) (σ : Frontier ν ω) : Prop where
  sorted : Sorted σ.queue
  source : σ.dist a = some 0
  nodup : S.Nodup
  known : ∀ n ∈ S, ∃ w, σ.dist n = some w
  parent : ∀ n w, σ.dist n = some w → n ≠ a → ∃ m d v, σ.prev n = some m ∧ m ∈ S ∧
    (n, d) ∈ g m ∧ σ.dist m = some v ∧ w = v + d
  older : ∀ n l, n :: l <:+ S → n ≠ a → ∃ m ∈ l, σ.prev n = some m
  waiting : ∀ n w, σ.dist n = some w → n ∉ S → (w, n) ∈ σ.queue
  entry : ∀ e ∈ σ.queue, σ.reaches e.2 e.1
  nonneg : ∀ e ∈ σ.queue, 0 ≤ e.1
  low : ∀ n ∈ S, ∀ e ∈ σ.queue, ∀ w, σ.dist n = some w → w ≤ e.1
  relaxed : ∀ n ∈ S, ∀ w, σ.dist n = some w → ∀ e ∈ g n, σ.reaches e.1 (w + e.2)

namespace Settled

theorem head_le (h : Settled g a S σ) (hq : σ.queue = (w, n) :: q) {e : ω × ν}
    (he : e ∈ σ.queue) : w ≤ e.1 := by
  have hs := h.sorted
  rw [hq] at hs he
  obtain rfl | he := List.mem_cons.mp he
  · exact le_rfl
  · exact (List.pairwise_cons.mp hs).1 e he

/-- The first entry of a node that is not settled tells its distance. -/
theorem dist_head (h : Settled g a S σ) (hq : σ.queue = (w, n) :: q) (hn : n ∉ S) :
    σ.dist n = some w := by
  obtain ⟨v, hv, hle⟩ := h.entry (w, n) (hq ▸ List.mem_cons_self)
  have hge : w ≤ v := h.head_le hq (h.waiting n v hv hn)
  rw [hv, le_antisymm hle hge]

/-- **An entry that says nothing new** may be dropped. -/
theorem skip (h : Settled g a S σ) (hq : σ.queue = (w, n) :: q)
    (hold : n ∈ S ∨ σ.dist n ≠ some w) : Settled g a S { σ with queue := q } := by
  have hmem : ∀ e ∈ q, e ∈ σ.queue := fun e he => hq ▸ List.mem_cons_of_mem _ he
  refine { h with
    sorted := ?_
    waiting := fun x v hx hS => ?_
    entry := fun e he => h.entry e (hmem e he)
    nonneg := fun e he => h.nonneg e (hmem e he)
    low := fun x hx e he => h.low x hx e (hmem e he) }
  · have hs := h.sorted
    rw [hq] at hs
    exact (List.pairwise_cons.mp hs).2
  · have hin := h.waiting x v hx hS
    rw [hq] at hin
    obtain heq | hin := List.mem_cons.mp hin
    · cases heq
      exact (hold.elim hS fun hne => hne hx).elim
    · exact hin

/-! ## Walks -/

/-- A walk ends at a settled node, or has left the settled nodes at the queue. -/
theorem frontier_le [AddRightMono ω] (hg : Grows g) (h : Settled g a S σ) (hw : Walk g a b l w) :
    (b ∈ S ∧ σ.reaches b w) ∨ ∃ e ∈ σ.queue, e.1 ≤ w := by
  -- A known node is settled or has an entry.
  have hknown : ∀ x v, σ.reaches x v → (x ∈ S ∧ σ.reaches x v) ∨ ∃ e ∈ σ.queue, e.1 ≤ v := by
    rintro x v ⟨u, hu, hle⟩
    by_cases hx : x ∈ S
    · exact .inl ⟨hx, u, hu, hle⟩
    · exact .inr ⟨(u, x), h.waiting x u hu hx, hle⟩
  induction hw with
  | nil => exact hknown a 0 ⟨0, h.source, le_rfl⟩
  | @snoc b c l w d hb hd ih =>
    obtain ⟨hbS, v, hv, hle⟩ | ⟨e, he, hle⟩ := ih
    · obtain ⟨u, hu, hud⟩ := h.relaxed b hbS v hv (c, d) hd
      exact hknown c (w + d) ⟨u, hu, hud.trans (by gcongr)⟩
    · exact .inr ⟨e, he, hle.trans (hg b (c, d) hd w)⟩

/-- **The first entry of a node that is not settled** has the weight of its shortest walk. -/
theorem optimal [AddRightMono ω] (hg : Grows g) (h : Settled g a S σ)
    (hq : σ.queue = (w, b) :: q) (hb : b ∉ S) {v : ω} (hw : Walk g a b l v) : w ≤ v := by
  obtain ⟨hS, -⟩ | ⟨e, he, hle⟩ := h.frontier_le hg hw
  · exact absurd hS hb
  · exact (h.head_le hq he).trans hle

/-- When the queue is empty, all reachable nodes are settled. -/
theorem exhausted [AddRightMono ω] (hg : Grows g) (h : Settled g a S σ) (hq : σ.queue = [])
    (hb : b ∉ S) : ¬Walk g a b l w := by
  intro hw
  obtain ⟨hS, -⟩ | ⟨e, he, -⟩ := h.frontier_le hg hw
  · exact hb hS
  · rw [hq] at he
    cases he

/-- **The predecessors of a node** lie on a walk to it, on which no node occurs twice. -/
theorem trace (h : Settled g a S σ) {T : List ν} (hT : T <:+ S) (hd : σ.dist n = some w)
    (hn : n ∉ T) (hp : n ≠ a → ∃ m ∈ T, σ.prev n = some m) :
    ∃ l, Walk g a n l w ∧ (n :: l).Nodup ∧ (n :: l).IsChain (fun x y => σ.prev x = some y) ∧
      (n :: l).getLast? = some a ∧ l ⊆ T := by
  induction hlen : T.length using Nat.strong_induction_on generalizing T n w with
  | _ k ih =>
    by_cases hna : n = a
    · subst hna
      cases h.source.symm.trans hd
      exact ⟨[], .nil, List.nodup_singleton n, List.isChain_singleton n, rfl, List.nil_subset _⟩
    obtain ⟨m, hm, hprev⟩ := hp hna
    obtain ⟨m', d, v, hm', -, hedge, hv, rfl⟩ := h.parent n w hd hna
    cases hprev.symm.trans hm'
    obtain ⟨T₁, T₂, rfl⟩ := List.append_of_mem hm
    have hsuf : m :: T₂ <:+ S := (List.suffix_append T₁ _).trans hT
    have hnodup : (m :: T₂).Nodup := h.nodup.sublist hsuf.sublist
    obtain ⟨l, hl, hnd, hchain, hlast, hsub⟩ := ih T₂.length
      (by rw [← hlen, List.length_append, List.length_cons]; omega)
      ((List.suffix_cons m T₂).trans hsuf) hv (List.nodup_cons.mp hnodup).1
      (h.older m T₂ hsuf) rfl
    have hsub' : m :: l ⊆ T₁ ++ m :: T₂ := by
      refine List.cons_subset.mpr ⟨hm, fun x hx => ?_⟩
      exact List.mem_append_right T₁ (List.mem_cons_of_mem m (hsub hx))
    refine ⟨m :: l, hl.snoc hedge, List.nodup_cons.mpr ⟨fun hin => hn (hsub' hin), hnd⟩,
      List.isChain_cons_cons.mpr ⟨hprev, hchain⟩, ?_, hsub'⟩
    rw [List.getLast?_cons_cons]
    exact hlast

end Settled

/-! ## The search -/

section Search

variable [DecidableEq ν]

/-- Only the source is known. -/
def Frontier.start (a : ν) : Frontier ν ω :=
  ⟨Function.update (fun _ => none) a (some 0), fun _ => none, [(0, a)]⟩

omit [LinearOrder ω] [Add ω] in
theorem start_dist : (Frontier.start a : Frontier ν ω).dist n = if n = a then some 0 else none := by
  simp only [Frontier.start, Function.update_apply]

omit [LinearOrder ω] [Add ω] in
theorem eq_source {v : ω} (h : (Frontier.start a).dist n = some v) : n = a ∧ v = 0 := by
  rw [start_dist] at h
  split_ifs at h with hn
  exact ⟨hn, (Option.some.inj h).symm⟩

theorem settled_start : Settled g a [] (.start a) where
  sorted := List.pairwise_singleton ..
  source := by rw [start_dist, if_pos rfl]
  nodup := List.nodup_nil
  known := nofun
  parent n w hn hne := absurd (eq_source hn).1 hne
  older n l hl := by cases List.suffix_nil.mp hl
  waiting n w hn _ := by
    obtain ⟨rfl, rfl⟩ := eq_source hn
    exact List.mem_cons_self
  entry e he := by
    rw [List.mem_singleton.mp he]
    exact ⟨0, by rw [start_dist, if_pos rfl], le_rfl⟩
  nonneg e he := by rw [List.mem_singleton.mp he]
  low := nofun
  relaxed := nofun

namespace Settled

/-- A node that was settled before has nothing to relax. -/
theorem relaxAll_eq (h : Settled g a S σ) (hn : n ∈ S) (hd : σ.dist n = some w) :
    σ.relaxAll n w (g n) = σ :=
  relaxAll_eq_self (h.relaxed n hn w hd)

/-- **The first entry is settled**, and its edges are relaxed. -/
theorem settle (hg : Grows g) (h : Settled g a S σ) (hq : σ.queue = (w, n) :: q) (hn : n ∉ S) :
    Settled g a (n :: S) (relaxAll n w (g n) { σ with queue := q }) := by
  have hR : Relaxes n w (g n) { σ with queue := q } (relaxAll n w (g n) { σ with queue := q }) :=
    relaxes_relaxAll
  generalize relaxAll n w (g n) { σ with queue := q } = τ at hR
  have hd := h.dist_head hq hn
  have hmem : ∀ e ∈ q, e ∈ σ.queue := fun e he => hq ▸ List.mem_cons_of_mem _ he
  have hw : 0 ≤ w := h.nonneg (w, n) (hq ▸ List.mem_cons_self)
  -- What is not farther than `n` stays as it is.
  have hkeep : ∀ x v, σ.dist x = some v → v ≤ w → τ.dist x = some v ∧ τ.prev x = σ.prev x := by
    intro x v hx hle
    obtain ⟨hdist, hprev⟩ | ⟨d, hd⟩ := hR.cases x
    · exact ⟨hdist.trans hx, hprev⟩
    · exact absurd ((hg n (x, d) hd.edge w).trans_lt (hd.better v hx)) hle.not_gt
  have hnear : ∀ x ∈ n :: S, ∃ v, σ.dist x = some v ∧ v ≤ w ∧ τ.dist x = some v ∧
      τ.prev x = σ.prev x := by
    intro x hx
    obtain rfl | hx := List.mem_cons.mp hx
    · exact ⟨w, hd, le_rfl, hkeep x w hd le_rfl⟩
    · obtain ⟨v, hv⟩ := h.known x hx
      have hle := h.low x hx (w, n) (hq ▸ List.mem_cons_self) v hv
      exact ⟨v, hv, hle, hkeep x v hv hle⟩
  have hfar : ∀ e ∈ τ.queue, w ≤ e.1 := by
    intro e he
    obtain he | ⟨d, hd, heq⟩ := hR.entry e he
    · exact h.head_le hq (hmem e he)
    · exact heq ▸ hg n (e.2, d) hd w
  constructor
  · refine hR.sorted ?_
    have hs := h.sorted
    rw [hq] at hs
    exact (List.pairwise_cons.mp hs).2
  · exact (hkeep a 0 h.source hw).1
  · exact List.nodup_cons.mpr ⟨hn, h.nodup⟩
  · intro x hx
    obtain ⟨v, -, -, hv, -⟩ := hnear x hx
    exact ⟨v, hv⟩
  · intro x v hx hne
    obtain ⟨hdist, hprev⟩ | ⟨d, himp⟩ := hR.cases x
    · obtain ⟨m, d, u, hm, hmS, hedge, hu, rfl⟩ := h.parent x v (hdist.symm.trans hx) hne
      obtain ⟨u', hu', -, hτ, -⟩ := hnear m (List.mem_cons_of_mem n hmS)
      cases hu.symm.trans hu'
      exact ⟨m, d, u, hprev.trans hm, List.mem_cons_of_mem n hmS, hedge, hτ, rfl⟩
    · refine ⟨n, d, w, himp.prev, List.mem_cons_self, himp.edge, (hkeep n w hd le_rfl).1, ?_⟩
      exact Option.some.inj (hx.symm.trans himp.dist)
  · intro x l hl hne
    obtain heq | hl := List.suffix_cons_iff.mp hl
    · cases heq
      obtain ⟨m, -, -, hm, hmS, -⟩ := h.parent n w hd hne
      exact ⟨m, hmS, (hkeep n w hd le_rfl).2.trans hm⟩
    · obtain ⟨m, hm, hp⟩ := h.older x l hl hne
      obtain ⟨v, -, -, -, hprev⟩ := hnear x (List.mem_cons_of_mem n (hl.subset List.mem_cons_self))
      exact ⟨m, hm, hprev.trans hp⟩
  · intro x v hx hnot
    obtain ⟨hdist, -⟩ | ⟨d, himp⟩ := hR.cases x
    · have hin := h.waiting x v (hdist.symm.trans hx) fun hS => hnot (List.mem_cons_of_mem n hS)
      rw [hq] at hin
      obtain heq | hin := List.mem_cons.mp hin
      · cases heq
        exact absurd List.mem_cons_self hnot
      · exact hR.keeps hin
    · cases hx.symm.trans himp.dist
      exact himp.queued
  · intro e he
    obtain he | ⟨d, hd, heq⟩ := hR.entry e he
    · exact hR.reaches (h.entry e (hmem e he))
    · exact heq ▸ hR.bound (e.2, d) hd
  · exact fun e he => hw.trans (hfar e he)
  · intro x hx e he v hv
    obtain ⟨u, -, hle, hu, -⟩ := hnear x hx
    cases hu.symm.trans hv
    exact hle.trans (hfar e he)
  · intro x hx v hv e he
    obtain rfl | hxS := List.mem_cons.mp hx
    · cases (hkeep x w hd le_rfl).1.symm.trans hv
      exact hR.bound e he
    · obtain ⟨u, hu, -, hτ, -⟩ := hnear x hx
      cases hτ.symm.trans hv
      exact hR.reaches (h.relaxed x hxS v hu e he)

end Settled

/-! ## Termination -/

/-- The entries of the queue and the edges that are still to be relaxed. -/
def potential (g : Graph ν ω) (V : Finset ν) (S : List ν) (σ : Frontier ν ω) : ℕ :=
  σ.queue.length + ∑ x ∈ V \ S.toFinset, (g x).length

omit [LinearOrder ω] [Zero ω] [Add ω] in
theorem potential_skip {V : Finset ν} (hq : σ.queue = (w, n) :: q) :
    potential g V S { σ with queue := q } < potential g V S σ := by
  unfold potential
  dsimp only
  rw [hq, List.length_cons]
  omega

omit [Zero ω] in
theorem potential_settle {V : Finset ν} (hq : σ.queue = (w, n) :: q) (hn : n ∉ S) (hV : n ∈ V) :
    potential g V (n :: S) (relaxAll n w (g n) { σ with queue := q }) < potential g V S σ := by
  have hR : Relaxes n w (g n) { σ with queue := q } (relaxAll n w (g n) { σ with queue := q }) :=
    relaxes_relaxAll
  have hlen := hR.length
  have hmem : n ∈ V \ S.toFinset := by simp [hV, hn]
  unfold potential
  rw [← Finset.sum_erase_add _ _ hmem, hq, List.length_cons, List.toFinset_cons,
    Finset.sdiff_insert]
  dsimp only at hlen
  omega

omit [LinearOrder ω] [Add ω] in
theorem potential_start {V : Finset ν} :
    potential g V [] (.start a) = 1 + ∑ x ∈ V, (g x).length := by
  simp [potential, Frontier.start]

end Search

end ShortestPath
