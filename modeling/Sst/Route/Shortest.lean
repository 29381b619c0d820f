import Mathlib.Algebra.BigOperators.Group.Finset.Basic
import Sst.Lib.ShortestPath
import Sst.Route.Network

/-!
# The shortest path

`shortestPath` searches the neighbour graph from its first argument; entries of the queue that have
become stale are skipped when they are taken.

* `searchLoop`, `traceLoop`: the search, and the way back along the predecessors.
* `Network.shortestPath`: both; `none` is a failed assertion, a null pointer or a lack of fuel.
* `Network.graph`: the neighbour graph.
* `Search.frontier`: the search as a search in a graph.
* **`searchLoop_spec`**: the search ends at the target with the weight of a shortest walk.
* **`shortest_path`**: the path found is a shortest one, and has no loop.
-/

namespace Sst.Route

open ShortestPath

variable {ω : Type*} [LinearOrder ω] [Zero ω] [Add ω]

/-- What is known of the shortest path to a node; no weight is an infinite one. -/
structure ShortestPathInfo (ω : Type*) where
  weight : Option ω := none
  prev : Option NodeId := none

/-- The state of a search. -/
structure Search (ω : Type*) where
  spi : NodeId → ShortestPathInfo ω
  nq : List (ω × NodeId)

/-- The body of the loop over the neighbours of the node `n`. -/
def relaxNeighbor (n : NodeId) (nweight : ω) (σ : Search ω) (nb : NodeId × Neighbor ω) : Search ω :=
  let nnweight := nweight + nb.2.dist
  if (σ.spi nb.1).weight.any (· ≤ nnweight) then σ
  else
    { spi := Function.update σ.spi nb.1 ⟨some nnweight, some n⟩
      nq := enqueue nnweight nb.1 σ.nq }

/-- The main loop; `some none` says that there is no path. -/
def searchLoop (net : Network ω) (nb : NodeId) : ℕ → Search ω → Option (Option (Search ω))
  | 0, _ => none
  | fuel + 1, σ =>
    match σ.nq with
    | [] => some none
    | (nweight, n) :: nq =>
      let σ := { σ with nq := nq }
      if n = nb then some (some σ)
      else if (σ.spi n).weight = some nweight then
        (net.nodes n).bind fun node =>
          searchLoop net nb fuel (node.neighbors.foldl (relaxNeighbor n nweight) σ)
      else if (σ.spi n).weight.any (· < nweight) then searchLoop net nb fuel σ
      else none

/-- The loop that builds the path from the target back to the node `na`. -/
def traceLoop (na : NodeId) (σ : Search ω) : ℕ → NodeId → Path ω → Option (Path ω)
  | 0, _, _ => none
  | fuel + 1, n, p =>
    if n = na then some p
    else (σ.spi n).prev.bind fun m => traceLoop na σ fuel m (p.append 0 m 0)

/-- `shortestPath`. -/
def Network.shortestPath (net : Network ω) (fuel : ℕ) (a b : NodeId) : Option (Path ω) :=
  let start : Search ω :=
    ⟨Function.update (fun _ => {}) a ⟨some 0, none⟩, [(0, a)]⟩
  (searchLoop net b fuel start).bind fun
    | none => some .null
    | some σ => (traceLoop a σ fuel b (.ofStart b)).bind fun p =>
      (σ.spi b).weight.map fun w => Path.reverse { p with weight := w }

/-! ## The graph -/

/-- The neighbours and distances of each node. -/
def Network.graph (net : Network ω) : ShortestPath.Graph NodeId ω := fun id =>
  match net.nodes id with
  | some n => n.neighbors.map fun nb => (nb.1, nb.2.dist)
  | none => []

/-- The number of nodes and of pairs of neighbours. -/
def Network.size (net : Network ω) : ℕ :=
  net.nodelist.length + (net.nodelist.map fun id => (net.graph id).length).sum

/-- A path leads from neighbour to neighbour, and has the weight of all distances. -/
def Network.Walk (net : Network ω) (a b : NodeId) (nodes : List NodeId) (w : ω) : Prop :=
  ∃ l, ShortestPath.Walk net.graph a b l w ∧ nodes = (b :: l).reverse

/-- The search as one in a graph. -/
def Search.frontier (σ : Search ω) : Frontier NodeId ω :=
  ⟨fun id => (σ.spi id).weight, fun id => (σ.spi id).prev, σ.nq⟩

variable {net : Network ω} {a b n : NodeId} {w : ω} {σ : Search ω}

theorem frontier_relaxNeighbor (nb : NodeId × Neighbor ω) :
    (relaxNeighbor n w σ nb).frontier = σ.frontier.relax n w (nb.1, nb.2.dist) := by
  have hcond : (σ.spi nb.1).weight.any (· ≤ w + nb.2.dist) = true ↔
      σ.frontier.reaches nb.1 (w + nb.2.dist) := by
    unfold Frontier.reaches Search.frontier
    dsimp only
    cases (σ.spi nb.1).weight <;> simp
  unfold relaxNeighbor Frontier.relax
  simp only [hcond]
  split_ifs
  · rfl
  · unfold Search.frontier
    congr 1
    · funext id
      simp only [Function.update_apply]
      split_ifs <;> rfl
    · funext id
      simp only [Function.update_apply]
      split_ifs <;> rfl

theorem frontier_foldl (l : List (NodeId × Neighbor ω)) :
    (l.foldl (relaxNeighbor n w) σ).frontier =
      σ.frontier.relaxAll n w (l.map fun nb => (nb.1, nb.2.dist)) := by
  induction l generalizing σ with
  | nil => rfl
  | cons nb l ih =>
    rw [List.foldl_cons, ih, frontier_relaxNeighbor]
    rfl

/-! ## The search -/

variable [AddRightMono ω]

/-- The state in which the search has found the node `b`. -/
structure Found (net : Network ω) (a b : NodeId) (S : List NodeId) (τ : Search ω) (w : ω) :
    Prop where
  settled : Settled net.graph a S τ.frontier
  unsettled : b ∉ S
  dist : (τ.spi b).weight = some w
  least : ∀ l v, ShortestPath.Walk net.graph a b l v → w ≤ v

/-- **The search** ends with a shortest walk to the target, or if there is none. -/
theorem searchLoop_spec (hnet : net.Valid) (hg : Grows net.graph) {S : List NodeId}
    (h : Settled net.graph a S σ.frontier) (hb : b ∉ S) (hS : S ⊆ net.nodelist)
    (hnq : ∀ e ∈ σ.nq, e.2 ∈ net.nodelist) {fuel : ℕ}
    (hfuel : potential net.graph net.nodelist.toFinset S σ.frontier < fuel) :
    (searchLoop net b fuel σ = some none ∧ ∀ l w, ¬ShortestPath.Walk net.graph a b l w) ∨
      ∃ S' τ w, searchLoop net b fuel σ = some (some τ) ∧ S' ⊆ net.nodelist ∧
        Found net a b S' { τ with nq := (w, b) :: τ.nq } w := by
  induction fuel generalizing S σ with
  | zero => omega
  | succ fuel ih =>
    rw [searchLoop]
    split
    · next hq => exact .inl ⟨rfl, fun l w => h.exhausted hg hq hb⟩
    · next nweight n nq hq =>
      have hqf : σ.frontier.queue = (nweight, n) :: nq := hq
      have hn : n ∈ net.nodelist := hnq (nweight, n) (hq ▸ List.mem_cons_self)
      have htail : ∀ e ∈ nq, e.2 ∈ net.nodelist := fun e he =>
        hnq e (hq ▸ List.mem_cons_of_mem _ he)
      have hskip : potential net.graph net.nodelist.toFinset S
          (Search.frontier { σ with nq := nq }) < fuel :=
        (potential_skip hqf).trans_le (Nat.le_of_lt_succ hfuel)
      dsimp only
      split_ifs with hnb hcur hstale
      · subst hnb
        refine .inr ⟨S, _, nweight, rfl, hS, ?_⟩
        dsimp only
        rw [← hq]
        exact ⟨h, hb, h.dist_head hqf hb, fun l v hw => h.optimal hg hqf hb hw⟩
      · -- The entry is current: the edges of the node are relaxed.
        obtain ⟨node, hnode, -⟩ := hnet.get hn
        have hedges : net.graph n = node.neighbors.map fun nb => (nb.1, nb.2.dist) := by
          rw [Network.graph, hnode]
        have hnext := frontier_foldl (n := n) (w := nweight) (σ := { σ with nq := nq })
          node.neighbors
        rw [← hedges] at hnext
        have hqueue : ∀ e ∈ (node.neighbors.foldl (relaxNeighbor n nweight)
            { σ with nq := nq }).nq, e.2 ∈ net.nodelist := fun e he => by
          have hR : Relaxes n nweight (net.graph n) { σ.frontier with queue := nq }
              (Frontier.relaxAll n nweight (net.graph n) { σ.frontier with queue := nq }) :=
            relaxes_relaxAll
          obtain he | ⟨d, hd, -⟩ := hR.entry e (by
            have := congrArg Frontier.queue hnext
            exact this ▸ he)
          · exact htail e he
          · rw [hedges] at hd
            obtain ⟨nb, hnb, heq⟩ := List.mem_map.mp hd
            have hid : nb.1 = e.2 := congrArg Prod.fst heq
            exact hid ▸ hnet.neighbor n node hnode nb hnb
        rw [hnode, Option.bind_some]
        by_cases hnS : n ∈ S
        · have hsame : (node.neighbors.foldl (relaxNeighbor n nweight)
              { σ with nq := nq }).frontier = { σ.frontier with queue := nq } :=
            hnext.trans ((h.skip hqf (.inl hnS)).relaxAll_eq hnS hcur)
          refine ih (hsame ▸ h.skip hqf (.inl hnS)) hb hS hqueue ?_
          rw [hsame]
          exact hskip
        · refine ih (S := n :: S) (hnext ▸ h.settle hg hqf hnS) ?_
            (List.cons_subset.mpr ⟨hn, hS⟩) hqueue ?_
          · exact fun hin => (List.mem_cons.mp hin).elim (fun heq => hnb heq.symm) hb
          · rw [hnext]
            exact (potential_settle hqf hnS (List.mem_toFinset.mpr hn)).trans_le
              (Nat.le_of_lt_succ hfuel)
      · exact ih (h.skip hqf (.inr hcur)) hb hS htail hskip
      · -- The best known weight of a node is never above an entry.
        obtain ⟨v, hv, hle⟩ := h.entry (nweight, n) (hqf ▸ List.mem_cons_self)
        have hv' : (σ.spi n).weight = some v := hv
        rw [hv', Option.some.injEq] at hcur
        rw [hv', Option.any_some, decide_eq_true_eq] at hstale
        exact absurd (lt_of_le_of_ne hle hcur) hstale

omit [LinearOrder ω] [AddRightMono ω] in
/-- The way back along a list of predecessors. -/
theorem traceLoop_eq {l : List NodeId} (hlast : (n :: l).getLast? = some a) (hnd : (n :: l).Nodup)
    (hchain : (n :: l).IsChain fun x y => (σ.spi x).prev = some y) {fuel : ℕ}
    (hfuel : l.length < fuel) (p : Path ω) :
    ∃ q, traceLoop a σ fuel n p = some q ∧ q.nodes = p.nodes ++ l := by
  induction l generalizing n p fuel with
  | nil =>
    obtain ⟨fuel, rfl⟩ := Nat.exists_eq_add_of_lt hfuel
    cases hlast
    exact ⟨p, if_pos rfl, by simp⟩
  | cons m l ih =>
    obtain ⟨fuel, rfl⟩ : ∃ k, fuel = k + 1 := ⟨fuel - 1, by omega⟩
    obtain ⟨hprev, hchain⟩ := List.isChain_cons_cons.mp hchain
    rw [List.getLast?_cons_cons] at hlast
    have hne : n ≠ a := fun heq =>
      (List.nodup_cons.mp hnd).1 (heq ▸ List.mem_of_getLast? hlast)
    obtain ⟨q, hq, hnodes⟩ := ih hlast (List.nodup_cons.mp hnd).2 hchain
      (by simpa using hfuel) (p.append 0 m 0)
    refine ⟨q, ?_, by rw [hnodes, Path.nodes_append, List.append_assoc]; rfl⟩
    rw [traceLoop, if_neg hne, hprev, Option.bind_some, hq]

/-- **The shortest path.** In a network whose distances make no path lighter, the search from a node
ends. It finds a path to the other node, from neighbour to neighbour and without loops, no heavier
than any other and of the weight of its distances; or it finds none, and there is none. -/
theorem shortest_path (net : Network ω) (hnet : net.Valid)
    (hdist : ∀ id n, net.nodes id = some n → ∀ nb ∈ n.neighbors, ∀ w, w ≤ w + nb.2.dist)
    {a b : NodeId} (ha : a ∈ net.nodelist) {fuel : ℕ}
    (hfuel : net.size + 1 < fuel) :
    (∃ p, net.shortestPath fuel a b = some p ∧ p.originId = a ∧ p.targetId = b ∧
      p.looping = false ∧ net.Walk a b p.nodes p.weight ∧
      ∀ nodes w, net.Walk a b nodes w → p.weight ≤ w) ∨
    net.shortestPath fuel a b = some .null ∧ ∀ nodes w, ¬net.Walk a b nodes w := by
  have hg : Grows net.graph := by
    intro id e he w
    unfold Network.graph at he
    split at he
    · next n hn =>
      obtain ⟨nb, hnb, rfl⟩ := List.mem_map.mp he
      exact hdist id n hn nb hnb w
    · cases he
  have hstart : (⟨Function.update (fun _ => {}) a ⟨some 0, none⟩, [(0, a)]⟩ : Search ω).frontier =
      .start a := by
    unfold Search.frontier Frontier.start
    congr 1
    · funext id
      simp only [Function.update_apply]
      split_ifs <;> rfl
    · funext id
      simp only [Function.update_apply]
      split_ifs <;> rfl
  have hpot : potential net.graph net.nodelist.toFinset []
      (⟨Function.update (fun _ => {}) a ⟨some 0, none⟩, [(0, a)]⟩ : Search ω).frontier < fuel := by
    rw [hstart, potential_start, List.sum_toFinset _ hnet.nodup]
    unfold Network.size at hfuel
    omega
  have hloop := searchLoop_spec (b := b) hnet hg (hstart ▸ settled_start) List.not_mem_nil
    (List.nil_subset _) (fun e he => by rw [List.mem_singleton.mp he]; exact ha) hpot
  unfold Network.shortestPath
  dsimp only
  obtain ⟨hnone, hno⟩ | ⟨S, τ, w, hsome, hS, hfound⟩ := hloop
  · refine .inr ⟨by rw [hnone]; rfl, ?_⟩
    rintro nodes w ⟨l, hl, -⟩
    exact hno l w hl
  · refine .inl ?_
    obtain ⟨l, hwalk, hnd, hchain, hlast, hsub⟩ := hfound.settled.trace List.suffix_rfl hfound.dist
      hfound.unsettled fun hne => by
        obtain ⟨m, -, -, hm, hmS, -⟩ := hfound.settled.parent b w hfound.dist hne
        exact ⟨m, hmS, hm⟩
    have hlen : l.length ≤ net.nodelist.length :=
      ((List.nodup_cons.mp hnd).2.subperm (List.Subset.trans hsub hS)).length_le
    obtain ⟨q, hq, hnodes⟩ := traceLoop_eq (σ := τ) hlast hnd hchain
      (show l.length < fuel by unfold Network.size at hfuel; omega) (.ofStart b)
    have hweight : (τ.spi b).weight = some w := hfound.dist
    set p : Path ω := Path.reverse { q with weight := w } with hp
    have hpn : p.nodes = (b :: l).reverse := by
      rw [hp, Path.nodes_reverse]
      exact congrArg List.reverse hnodes
    refine ⟨p, ?_, ?_, ?_, ?_, ⟨l, hwalk, hpn⟩, ?_⟩
    · rw [hsome, Option.bind_some]
      dsimp only
      rw [hq, Option.bind_some, hweight]
      rfl
    · refine Option.some.inj ?_
      rw [← p.originId_eq, hpn, List.head?_reverse, hlast]
    · refine Option.some.inj ?_
      rw [p.targetId_eq, hpn, List.getLast?_reverse]
      rfl
    · rw [Path.looping_eq_false, hpn, List.nodup_reverse]
      exact hnd
    · rintro nodes v ⟨l', hl', -⟩
      exact hfound.least l' v hl'

/-- Three nodes in a row, and a longer way between the first and the last. -/
def threeNodes : Network ℕ where
  nodelist := [[0], [1], [2]]
  nodes id :=
    if id = [0] then some ⟨⟨[0], []⟩, [([1], ⟨2, 0⟩), ([2], ⟨7, 0⟩)]⟩
    else if id = [1] then some ⟨⟨[1], []⟩, [([0], ⟨2, 0⟩), ([2], ⟨3, 0⟩)]⟩
    else if id = [2] then some ⟨⟨[2], []⟩, [([0], ⟨7, 0⟩), ([1], ⟨3, 0⟩)]⟩
    else none

theorem threeNodes_valid : threeNodes.Valid where
  nodup := by decide
  mem id := by
    simp only [threeNodes, List.mem_cons, List.not_mem_nil, or_false]
    split_ifs with h0 h1 h2 <;> simp [*]
  id id n h := by
    simp only [threeNodes] at h
    split_ifs at h <;> cases h <;> simp [Node.id, *]
  neighbor id n h := by
    simp only [threeNodes] at h
    split_ifs at h <;> cases h <;> decide

theorem shortest_path_three : ∃ p, threeNodes.shortestPath 11 [0] [2] = some p ∧
    p.nodes = [[0], [1], [2]] ∧ p.weight = 5 ∧
    ∀ nodes w, threeNodes.Walk [0] [2] nodes w → p.weight ≤ w := by
  have hrun : (threeNodes.shortestPath 11 [0] [2]).map (fun p => (p.nodes, p.weight)) =
      some ([[0], [1], [2]], 5) := by decide +kernel
  obtain ⟨p, hp, -, -, -, -, hle⟩ | ⟨hnull, -⟩ := shortest_path threeNodes threeNodes_valid
    (fun _ _ _ _ _ w => Nat.le_add_right w _) (a := [0]) (b := [2]) (by decide)
    (show threeNodes.size + 1 < 11 by decide +kernel)
  · rw [hp, Option.map_some, Option.some.injEq, Prod.mk.injEq] at hrun
    exact ⟨p, hp, hrun.1, hrun.2, hle⟩
  · rw [hnull] at hrun
    cases hrun

end Sst.Route
