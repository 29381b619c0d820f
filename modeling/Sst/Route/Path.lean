import Mathlib.Data.List.Nodup
import Mathlib.Data.List.TakeDrop
import Mathlib.Data.Int.Notation
import Mathlib.Data.Nat.Basic
import Mathlib.Order.Basic

/-!
# Routing paths

A path is a node and the hops from it. Two paths are composed at the last node of the second that
lies on the first, so that no loop arises.

* `Path.hopsBefore`, `Path.looping`: where a node lies on a path, and whether a node occurs twice.
* `Path.splice`: the search for the node at which two paths are joined.
* `Path.plus`: composition; a failed assertion of the code is `none`.
* `Path.nodes`: the nodes of a path, in order.
* **`Path.splice_spec`**: where the paths are joined.
* **`path_composition`**: the composition of two paths without loops.
-/

namespace Sst.Route

abbrev NodeId := List UInt8

/-- One hop on a path. -/
structure Hop where
  rid : UInt32
  nid : NodeId
  deriving DecidableEq

/-- A path with its weight, a number of any kind, and the time of its discovery. -/
structure Path (ω : Type*) where
  start : NodeId
  hops : List Hop
  weight : ω
  stamp : ℤ

namespace Path

variable {ω : Type*} (p tail : Path ω)

def numHops : ℕ := p.hops.length

def originId : NodeId := p.start

def targetId : NodeId := (p.hops.getLast?.map Hop.nid).getD p.start

/-- The node just before a hop, or after the last one. -/
def beforeHopId (hopno : ℕ) : Option NodeId :=
  if hopno = 0 then some p.start else p.hops[hopno - 1]?.map Hop.nid

def afterHopId (hopno : ℕ) : Option NodeId := p.hops[hopno]?.map Hop.nid

/-- The number of hops to reach a node, or `none` if it is not on the path. -/
def hopsBefore (nid : NodeId) : Option ℕ :=
  if p.start = nid then some 0 else (p.hops.findIdx? fun hop => hop.nid = nid).map (· + 1)

def looping : Bool :=
  (List.range p.numHops).any fun i => (List.range p.numHops).any fun j =>
    i ≤ j && p.beforeHopId i = p.afterHopId j

/-- The hops up to the node `tnid`, and those of `tail` from the hop `i`. -/
def join (tnid : NodeId) (nhops i : ℕ) : Option (Path ω) :=
  if p.beforeHopId nhops = some tnid then
    some { p with hops := p.hops.take nhops ++ tail.hops.drop i }
  else none

/-- The loop of `operator+=`, from the hop `i` of `tail` downwards. -/
def splice : ℕ → Option (Path ω)
  | 0 => (tail.beforeHopId 0).bind fun tnid =>
    (p.hopsBefore tnid).bind fun nhops => p.join tail tnid nhops 0
  | i + 1 => (tail.beforeHopId (i + 1)).bind fun tnid =>
    match p.hopsBefore tnid with
    | none => splice i
    | some nhops => p.join tail tnid nhops (i + 1)

/-- `operator+=`. -/
def plus [Add ω] : Option (Path ω) :=
  if p.targetId ≠ tail.originId then none
  else
    (p.splice tail tail.numHops).bind fun q =>
      let q := { q with weight := q.weight + tail.weight, stamp := min q.stamp tail.stamp }
      if q.looping then none else some q

/-! ## Nodes -/

/-- The nodes of a path, in order. -/
def nodes : List NodeId := p.start :: p.hops.map Hop.nid

@[simp] theorem length_nodes : p.nodes.length = p.numHops + 1 := by
  simp only [nodes, numHops, List.length_cons, List.length_map]

theorem beforeHopId_eq (i : ℕ) : p.beforeHopId i = p.nodes[i]? := by
  cases i with
  | zero => rfl
  | succ i =>
    rw [beforeHopId, if_neg i.succ_ne_zero, nodes, List.getElem?_cons_succ, List.getElem?_map,
      Nat.add_sub_cancel]

theorem afterHopId_eq (i : ℕ) : p.afterHopId i = p.nodes[i + 1]? := by
  rw [afterHopId, nodes, List.getElem?_cons_succ, List.getElem?_map]

theorem targetId_eq : some p.targetId = p.nodes.getLast? := by
  rw [nodes, List.getLast?_cons, List.getLast?_map]
  rfl

theorem hopsBefore_eq (nid : NodeId) : p.hopsBefore nid = p.nodes.findIdx? (· = nid) := by
  rw [nodes, List.findIdx?_cons, List.findIdx?_map]
  simp only [decide_eq_true_eq]
  rfl

theorem looping_eq_false : p.looping = false ↔ p.nodes.Nodup := by
  rw [List.nodup_iff_getElem?_ne_getElem?, length_nodes, looping, List.any_eq_false]
  constructor
  · intro h i j hij hj heq
    have hrow := h i (List.mem_range.mpr (by omega))
    rw [Bool.not_eq_true, List.any_eq_false] at hrow
    refine hrow (j - 1) (List.mem_range.mpr (by omega)) ?_
    rw [Bool.and_eq_true, decide_eq_true_eq, decide_eq_true_eq, beforeHopId_eq, afterHopId_eq,
      Nat.sub_add_cancel (by omega)]
    exact ⟨by omega, heq⟩
  · intro h i hi
    rw [Bool.not_eq_true, List.any_eq_false]
    intro j hj hand
    rw [Bool.and_eq_true, decide_eq_true_eq, decide_eq_true_eq, beforeHopId_eq,
      afterHopId_eq] at hand
    exact h i (j + 1) (by omega) (by have := List.mem_range.mp hj; omega) hand.2

/-! ## Joining -/

variable {p tail}

theorem nodes_of_hopsBefore {nid : NodeId} {m : ℕ} (h : p.hopsBefore nid = some m) :
    p.nodes[m]? = some nid := by
  rw [hopsBefore_eq, List.findIdx?_eq_some_iff_getElem] at h
  obtain ⟨hm, heq, -⟩ := h
  rw [List.getElem?_eq_getElem hm, of_decide_eq_true heq]

theorem not_mem_of_hopsBefore {nid : NodeId} (h : p.hopsBefore nid = none) : nid ∉ p.nodes := by
  rw [hopsBefore_eq, List.findIdx?_eq_none_iff] at h
  intro hmem
  exact of_decide_eq_false (h nid hmem) rfl

/-- Where the search may end: at a common node, if no later node of `tail` lies on `p`. -/
structure JoinedAt (p tail : Path ω) (i m n : ℕ) : Prop where
  le : n ≤ i
  node : p.nodes[m]? = tail.nodes[n]?
  last : ∀ k, n < k → k ≤ i → ∀ x, tail.nodes[k]? = some x → x ∉ p.nodes

/-- **The search** ends at the last node of `tail`, up to the hop `i`, that lies on `p`. -/
theorem splice_spec (h : tail.start ∈ p.nodes) {i : ℕ} (hi : i ≤ tail.numHops) :
    ∃ m n, p.splice tail i = some { p with hops := p.hops.take m ++ tail.hops.drop n } ∧
      JoinedAt p tail i m n := by
  induction i with
  | zero =>
    have hnode : tail.beforeHopId 0 = some tail.start := rfl
    cases hm : p.hopsBefore tail.start with
    | none => exact absurd h (not_mem_of_hopsBefore hm)
    | some m =>
      have hp := nodes_of_hopsBefore hm
      refine ⟨m, 0, ?_, le_rfl, hp, fun k h1 h2 => absurd h1 h2.not_gt⟩
      rw [splice, hnode, Option.bind_some, hm, Option.bind_some, join,
        if_pos ((p.beforeHopId_eq m).trans hp)]
  | succ i ih =>
    have hlt : i + 1 < tail.nodes.length := by rw [length_nodes]; omega
    have hnode := List.getElem?_eq_getElem hlt
    have hbefore := (tail.beforeHopId_eq (i + 1)).trans hnode
    generalize tail.nodes[i + 1] = tnid at hnode hbefore
    cases hm : p.hopsBefore tnid with
    | none =>
      obtain ⟨m, n, heq, hle, hjoin, hlast⟩ := ih (by omega)
      refine ⟨m, n, ?_, hle.trans (Nat.le_succ i), hjoin, fun k h1 h2 x hx => ?_⟩
      · rw [splice, hbefore, Option.bind_some, hm]
        exact heq
      · rcases h2.lt_or_eq with h2 | rfl
        · exact hlast k h1 (by omega) x hx
        · obtain rfl : tnid = x := Option.some.inj (hnode.symm.trans hx)
          exact not_mem_of_hopsBefore hm
    | some m =>
      have hp := nodes_of_hopsBefore hm
      refine ⟨m, i + 1, ?_, le_rfl, hp.trans hnode.symm, fun k h1 h2 => absurd h1 h2.not_gt⟩
      rw [splice, hbefore, Option.bind_some, hm]
      dsimp only
      rw [join, if_pos ((p.beforeHopId_eq m).trans hp)]

theorem nodes_join (p tail : Path ω) (m n : ℕ) :
    nodes { p with hops := p.hops.take m ++ tail.hops.drop n } =
      p.nodes.take (m + 1) ++ tail.nodes.drop (n + 1) := by
  simp only [nodes, List.map_append, List.take_succ_cons, List.drop_succ_cons, List.map_take,
    List.map_drop, List.cons_append]

variable {m n : ℕ}

theorem JoinedAt.nodup (h : JoinedAt p tail tail.numHops m n) (hp : p.nodes.Nodup)
    (ht : tail.nodes.Nodup) : (p.nodes.take (m + 1) ++ tail.nodes.drop (n + 1)).Nodup := by
  refine List.nodup_append.mpr
    ⟨hp.sublist (List.take_sublist ..), ht.sublist (List.drop_sublist ..),
    ?_⟩
  rintro x hx y hy rfl
  obtain ⟨k, hk⟩ := List.mem_iff_getElem?.mp hy
  rw [List.getElem?_drop] at hk
  have hlen := (List.getElem?_eq_some_iff.mp hk).1
  rw [length_nodes] at hlen
  exact h.last (n + 1 + k) (by omega) (by omega) x hk (List.mem_of_mem_take hx)

theorem JoinedAt.getLast? (h : JoinedAt p tail tail.numHops m n) :
    (p.nodes.take (m + 1) ++ tail.nodes.drop (n + 1)).getLast? = tail.nodes.getLast? := by
  have hn : n < tail.nodes.length := by rw [length_nodes]; have := h.le; omega
  have hm : m < p.nodes.length := by
    by_contra hm
    have hnode := h.node
    rw [List.getElem?_eq_none (not_lt.mp hm), List.getElem?_eq_getElem hn] at hnode
    cases hnode
  rcases h.le.lt_or_eq with hlt | heq
  · rw [List.getLast?_append_of_ne_nil, List.getLast?_drop, if_neg]
    · rw [length_nodes]; omega
    · rw [Ne, List.drop_eq_nil_iff, length_nodes]; omega
  · rw [List.drop_eq_nil_of_le (by rw [length_nodes]; omega), List.append_nil,
      List.getLast?_eq_getElem?, List.getLast?_eq_getElem?, List.length_take, length_nodes,
      length_nodes, Nat.add_sub_cancel, ← heq, ← h.node, List.getElem?_take_of_lt (by omega)]
    congr 1
    rw [length_nodes] at hm
    omega

end Path

/-- **Composition.** The composition of two paths without loops, the first of which ends where the
second begins, is a path without loops from the origin of the first to the target of the second: a
prefix of the hops of the first and a suffix of those of the second, joined at the last node of the
second that lies on the first. -/
theorem path_composition {ω : Type*} [Add ω] (a b : Path ω) (ha : a.looping = false)
    (hb : b.looping = false) (h : a.targetId = b.originId) :
    ∃ c m n, a.plus b = some c ∧ c.looping = false ∧ c.originId = a.originId ∧
      c.targetId = b.targetId ∧ c.hops = a.hops.take m ++ b.hops.drop n ∧ m ≤ a.numHops ∧
      n ≤ b.numHops ∧ a.beforeHopId m = b.beforeHopId n ∧
      ∀ k, n < k → k ≤ b.numHops → ∀ j ≤ a.numHops, a.beforeHopId j ≠ b.beforeHopId k := by
  have hstart : b.start ∈ a.nodes := by
    rw [show b.start = a.targetId from h.symm]
    exact List.mem_of_getLast? (a.targetId_eq).symm
  obtain ⟨m, n, hsplice, hjoin⟩ := Path.splice_spec hstart le_rfl
  have hnodes := Path.nodes_join a b m n
  generalize hq : { a with hops := a.hops.take m ++ b.hops.drop n } = q at hsplice hnodes
  have hloop : q.looping = false := by
    rw [Path.looping_eq_false, hnodes]
    exact hjoin.nodup (a.looping_eq_false.mp ha) (b.looping_eq_false.mp hb)
  have htarget : q.targetId = b.targetId := by
    refine Option.some.inj ?_
    rw [q.targetId_eq, hnodes, hjoin.getLast?, b.targetId_eq]
  have hplus : a.plus b = some { q with
      weight := q.weight + b.weight, stamp := min q.stamp b.stamp } := by
    rw [Path.plus, if_neg (not_not.mpr h), hsplice, Option.bind_some]
    exact if_neg (by rw [Bool.not_eq_true]; exact hloop)
  refine ⟨_, m, n, hplus, hloop, hq ▸ rfl, htarget, hq ▸ rfl, ?_, hjoin.le, ?_, ?_⟩
  · have hn : n < b.nodes.length := by rw [Path.length_nodes]; have := hjoin.le; omega
    have hnode := hjoin.node
    rw [List.getElem?_eq_getElem hn] at hnode
    have hm := (List.getElem?_eq_some_iff.mp hnode).1
    rw [Path.length_nodes] at hm
    omega
  · rw [a.beforeHopId_eq, b.beforeHopId_eq]
    exact hjoin.node
  · intro k h1 h2 j hj heq
    have hk : k < b.nodes.length := by rw [Path.length_nodes]; omega
    have hnode := List.getElem?_eq_getElem hk
    rw [a.beforeHopId_eq, b.beforeHopId_eq, hnode] at heq
    exact hjoin.last k h1 h2 _ hnode (List.mem_of_getElem? heq)

/-- From 1 over 2 to 3. -/
def pathThere : Path ℕ := ⟨[1], [⟨10, [2]⟩, ⟨11, [3]⟩], 5, 100⟩

/-- From 3 back over 2 to 4. -/
def pathBack : Path ℕ := ⟨[3], [⟨12, [2]⟩, ⟨13, [4]⟩], 6, 90⟩

theorem path_composition_back : ∃ c, pathThere.plus pathBack = some c ∧ c.looping = false ∧
    c.originId = [1] ∧ c.targetId = [4] ∧ ∃ m n, m ≤ 2 ∧ n ≤ 2 ∧
      c.hops = pathThere.hops.take m ++ pathBack.hops.drop n := by
  obtain ⟨c, m, n, hc, hloop, horigin, htarget, hhops, hm, hn, -⟩ :=
    path_composition pathThere pathBack (by decide) (by decide) rfl
  exact ⟨c, hc, hloop, horigin, htarget, m, n, hm, hn, hhops⟩

end Sst.Route
