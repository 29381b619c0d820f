import Sst.Route.Router

/-!
# Networks

The nodes of a network by their ids, each with its neighbours and its routing table, and the
construction and reversal of paths.

* `Node`, `Network`: the state of all nodes.
* `Network.Valid`: nodes are found under their ids, and neighbours are nodes.
* `Path.append`, `Path.reverse`: `append` and `reversePath`.
* **`Path.nodes_reverse`**: a reversed path has the nodes in reverse.
-/

namespace Sst.Route

variable {ω : Type*}

/-! ## Nodes -/

/-- What a node knows of a neighbour. -/
structure Neighbor (ω : Type*) where
  dist : ω
  loss : ω

/-- A node, with its neighbours in the order in which the hash table lists them. -/
structure Node (ω : Type*) where
  rtr : Router ω
  neighbors : List (NodeId × Neighbor ω)

def Node.id (n : Node ω) : NodeId := n.rtr.id

/-- The nodes, in the order in which they were made, and by their ids. -/
structure Network (ω : Type*) where
  nodelist : List NodeId
  nodes : NodeId → Option (Node ω)

/-- Nodes are found under their ids, and all neighbours are nodes. -/
structure Network.Valid (net : Network ω) : Prop where
  nodup : net.nodelist.Nodup
  mem : ∀ id, id ∈ net.nodelist ↔ ∃ n, net.nodes id = some n
  id : ∀ id n, net.nodes id = some n → n.id = id
  neighbor : ∀ id n, net.nodes id = some n → ∀ x ∈ n.neighbors, x.1 ∈ net.nodelist

theorem Network.Valid.get {net : Network ω} (h : net.Valid) {id : NodeId}
    (hid : id ∈ net.nodelist) :
    ∃ n, net.nodes id = some n ∧ n.id = id := by
  obtain ⟨n, hn⟩ := (h.mem id).mp hid
  exact ⟨n, hn, h.id id n hn⟩

/-! ## Paths -/

namespace Path

/-- A path without hops. -/
def ofStart [Zero ω] (start : NodeId) : Path ω := ⟨start, [], 0, 0⟩

def append [Add ω] (p : Path ω) (rid : UInt32) (nid : NodeId) (hopWeight : ω) : Path ω :=
  { p with hops := p.hops ++ [⟨rid, nid⟩], weight := p.weight + hopWeight }

/-- The loop of `reversePath` over the first `i` hops of `p`, from the last to the first. -/
def reverseLoop [Zero ω] [Add ω] (p : Path ω) : ℕ → Path ω → Path ω
  | 0, np => np
  | i + 1, np => reverseLoop p i (np.append 0 ((p.beforeHopId i).getD []) 0)

/-- `reversePath`. -/
def reverse [Zero ω] [Add ω] (p : Path ω) : Path ω :=
  { reverseLoop p p.numHops (ofStart p.targetId) with weight := p.weight, stamp := p.stamp }

variable {p : Path ω}

@[simp] theorem nodes_append [Add ω] (rid : UInt32) (nid : NodeId) (hopWeight : ω) :
    (p.append rid nid hopWeight).nodes = p.nodes ++ [nid] := by
  simp [nodes, append]

@[simp] theorem nodes_ofStart [Zero ω] (start : NodeId) :
    (ofStart start : Path ω).nodes = [start] :=
  rfl

theorem nodes_reverseLoop [Zero ω] [Add ω] {i : ℕ} (hi : i ≤ p.numHops) (np : Path ω) :
    (reverseLoop p i np).nodes = np.nodes ++ (p.nodes.take i).reverse := by
  induction i generalizing np with
  | zero => simp [reverseLoop]
  | succ i ih =>
    have hlt : i < p.nodes.length := by
      rw [length_nodes]
      omega
    rw [reverseLoop, ih (by omega), nodes_append, beforeHopId_eq, List.getElem?_eq_getElem hlt,
      List.take_succ_eq_append_getElem hlt, List.reverse_append]
    simp

/-- **A reversed path** has the nodes in reverse. -/
@[simp] theorem nodes_reverse [Zero ω] [Add ω] : p.reverse.nodes = p.nodes.reverse := by
  have hlast : p.nodes = p.nodes.take p.numHops ++ [p.targetId] := by
    have htarget := p.targetId_eq
    rw [List.getLast?_eq_getElem?, length_nodes, Nat.add_sub_cancel] at htarget
    conv_lhs => rw [← List.take_append_drop p.numHops p.nodes]
    rw [List.drop_eq_getElem?_toList_append, ← htarget,
      List.drop_eq_nil_of_le (by rw [length_nodes])]
    rfl
  have hloop : p.reverse.nodes = [p.targetId] ++ (p.nodes.take p.numHops).reverse :=
    nodes_reverseLoop le_rfl _
  rw [hloop, hlast, List.reverse_append]
  simp

theorem originId_eq : p.nodes.head? = some p.originId := rfl

theorem originId_reverse [Zero ω] [Add ω] : p.reverse.originId = p.targetId := by
  have h := p.reverse.originId_eq
  rw [nodes_reverse, List.head?_reverse, ← p.targetId_eq] at h
  exact (Option.some.inj h).symm

theorem targetId_reverse [Zero ω] [Add ω] : p.reverse.targetId = p.originId := by
  have h := p.reverse.targetId_eq
  rw [nodes_reverse, List.getLast?_reverse, p.originId_eq] at h
  exact Option.some.inj h

theorem looping_reverse [Zero ω] [Add ω] (h : p.looping = false) : p.reverse.looping = false := by
  rw [looping_eq_false, nodes_reverse]
  exact List.nodup_reverse.mpr (looping_eq_false p |>.mp h)

end Path

end Sst.Route
