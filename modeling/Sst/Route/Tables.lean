import Mathlib.Data.List.Chain
import Sst.Route.Network

/-!
# Sound routing tables

The paths in the tables of a network lead from neighbour to neighbour, and no step of the routing
algorithms spoils that.

* `Network.Linked`: one of two nodes knows the other as a neighbour.
* `Network.Track net id p`: `p` is a path from `id` over the links of the network, without loops.
* **`Network.Track.plus`**: tracks compose, and the composition fails no assertion.
* `Network.Track.reverse`: a reversed track is a track.
* `Tables base net len`: the tables of the network `net`, which has the nodes and links of `base`.
* **`Tables.insertPath`**: the tables stay sound if a track is inserted.
-/

namespace Sst.Route

variable {ω : Type*}

/-- One of two nodes knows the other as a neighbour. -/
def Network.Linked (net : Network ω) (x y : NodeId) : Prop :=
  ∃ n, (net.nodes x = some n ∧ ∃ nb ∈ n.neighbors, nb.1 = y) ∨
    (net.nodes y = some n ∧ ∃ nb ∈ n.neighbors, nb.1 = x)

theorem Network.Linked.symm {net : Network ω} {x y : NodeId} (h : net.Linked x y) :
    net.Linked y x := by
  obtain ⟨n, hn⟩ := h
  exact ⟨n, hn.symm⟩

/-! ## Tracks -/

/-- A path from the node `id` over the links of the network, without loops. -/
structure Network.Track (net : Network ω) (id : NodeId) (p : Path ω) : Prop where
  origin : p.originId = id
  loopless : p.looping = false
  linked : p.nodes.IsChain net.Linked
  inside : ∀ x ∈ p.nodes, x ∈ net.nodelist

namespace Network.Track

variable {net : Network ω} {id : NodeId} {p q : Path ω}

theorem target_mem (h : net.Track id p) : p.targetId ∈ net.nodelist :=
  h.inside _ (List.mem_of_getLast? p.targetId_eq.symm)

theorem origin_mem (h : net.Track id p) : id ∈ net.nodelist := by
  rw [← h.origin]
  exact h.inside _ List.mem_cons_self

theorem ofStart [Zero ω] (h : id ∈ net.nodelist) : net.Track id (.ofStart id) where
  origin := rfl
  loopless := rfl
  linked := List.isChain_singleton _
  inside x hx := by rwa [List.mem_singleton.mp hx]

theorem hop {w : ω} {stamp : ℤ} {rid : UInt32} {x y : NodeId} (h : net.Linked x y) (hne : x ≠ y)
    (hx : x ∈ net.nodelist) (hy : y ∈ net.nodelist) : net.Track x ⟨x, [⟨rid, y⟩], w, stamp⟩ where
  origin := rfl
  loopless := by
    rw [Path.looping_eq_false]
    simpa [Path.nodes] using hne
  linked := List.isChain_pair.mpr h
  inside z hz := by
    simp only [Path.nodes, List.map_cons, List.map_nil, List.mem_cons, List.not_mem_nil,
      or_false] at hz
    obtain rfl | rfl := hz
    · exact hx
    · exact hy

theorem reverse [Zero ω] [Add ω] (h : net.Track id p) : net.Track p.targetId p.reverse where
  origin := Path.originId_reverse
  loopless := Path.looping_reverse h.loopless
  linked := by
    rw [Path.nodes_reverse, List.isChain_reverse]
    exact h.linked.imp fun _ _ => Network.Linked.symm
  inside x hx := by
    rw [Path.nodes_reverse, List.mem_reverse] at hx
    exact h.inside x hx

/-- **Routes compose.** -/
theorem plus [Add ω] (hp : net.Track id p) (hq : net.Track p.targetId q) :
    ∃ r, p.plus q = some r ∧ net.Track id r ∧ r.targetId = q.targetId ∧
      r.weight = p.weight + q.weight := by
  have hstart : q.start ∈ p.nodes := by
    rw [show q.start = p.targetId from hq.origin]
    exact List.mem_of_getLast? p.targetId_eq.symm
  obtain ⟨m, n, hsplice, hjoin⟩ := Path.splice_spec hstart le_rfl
  have hnodes := Path.nodes_join p q m n
  generalize hr : { p with hops := p.hops.take m ++ q.hops.drop n } = r at hsplice hnodes
  have hloop : r.looping = false := by
    rw [Path.looping_eq_false, hnodes]
    exact hjoin.nodup (p.looping_eq_false.mp hp.loopless) (q.looping_eq_false.mp hq.loopless)
  have htarget : r.targetId = q.targetId := by
    refine Option.some.inj ?_
    rw [r.targetId_eq, hnodes, hjoin.getLast?, q.targetId_eq]
  refine ⟨{ r with weight := r.weight + q.weight, stamp := min r.stamp q.stamp }, ?_,
    ⟨?_, hloop, ?_, ?_⟩, htarget, ?_⟩
  · rw [Path.plus, if_neg (not_not.mpr hq.origin.symm), hsplice, Option.bind_some]
    exact if_neg (by rw [Bool.not_eq_true]; exact hloop)
  · exact (congrArg Path.start hr.symm).trans hp.origin
  · -- The two parts are joined at a common node.
    change r.nodes.IsChain net.Linked
    rw [hnodes, List.isChain_append]
    refine ⟨hp.linked.take _, hq.linked.drop _, fun x hx y hy => ?_⟩
    have hx' : p.nodes[m]? = some x := by
      have hm : m < p.nodes.length := by
        by_contra hm
        have hn : n < q.nodes.length := by
          have := hjoin.le
          rw [Path.length_nodes]
          omega
        have hnode := hjoin.node
        rw [List.getElem?_eq_none (not_lt.mp hm), List.getElem?_eq_getElem hn] at hnode
        cases hnode
      rw [Option.mem_def, List.getLast?_take, if_neg m.succ_ne_zero, Nat.add_sub_cancel,
        List.getElem?_eq_getElem hm, Option.some_or] at hx
      rw [List.getElem?_eq_getElem hm, hx]
    have hy' : q.nodes[n + 1]? = some y := by
      rw [Option.mem_def, List.head?_drop] at hy
      exact hy
    rw [hjoin.node] at hx'
    obtain ⟨hn, rfl⟩ := List.getElem?_eq_some_iff.mp hx'
    obtain ⟨hn', rfl⟩ := List.getElem?_eq_some_iff.mp hy'
    exact List.isChain_iff_getElem.mp hq.linked n hn'
  · intro x hx
    change x ∈ r.nodes at hx
    rw [hnodes] at hx
    obtain hx | hx := List.mem_append.mp hx
    · exact hp.inside x (List.mem_of_mem_take hx)
    · exact hq.inside x (List.mem_of_mem_drop hx)
  · exact congrArg (· + q.weight) (congrArg Path.weight hr).symm

end Network.Track

/-! ## Tables -/

section Tables

variable [LinearOrder ω]

/-- Replace the table of a node. -/
def Network.setRouter (net : Network ω) (id : NodeId) (rtr : Router ω) : Network ω :=
  { net with nodes := fun k =>
      if k = id then (net.nodes id).map fun n => { n with rtr := rtr } else net.nodes k }

/-- The tables of `net` hold tracks of `base`, and `net` has the nodes and links of `base`; the ids
have the length `len`. -/
structure Tables (base net : Network ω) (len : ℕ) : Prop where
  valid : base.Valid
  length : ∀ id ∈ base.nodelist, id.length = len
  nodelist : net.nodelist = base.nodelist
  shape : ∀ id, (net.nodes id).map (fun n => (n.id, n.neighbors)) =
    (base.nodes id).map fun n => (n.id, n.neighbors)
  tracks : ∀ id n, net.nodes id = some n → ∀ i, ∀ p ∈ (n.rtr.bucketAt i).paths,
    base.Track id p ∧ p.targetId ≠ id ∧ affinity id p.targetId = i
  buckets : ∀ id n, net.nodes id = some n → n.rtr.buckets.length ≤ 8 * len

namespace Tables

variable {base net : Network ω} {len : ℕ} {id id' : NodeId} {n : Node ω} {p : Path ω}

omit [LinearOrder ω] in
theorem get (h : Tables base net len) (hid : id ∈ base.nodelist) :
    ∃ n n', net.nodes id = some n ∧ base.nodes id = some n' ∧ n.rtr.id = id ∧
      n.neighbors = n'.neighbors := by
  obtain ⟨n', hn', hid'⟩ := h.valid.get hid
  have hshape := h.shape id
  rw [hn', Option.map_some] at hshape
  obtain ⟨n, hn, heq⟩ := Option.map_eq_some_iff.mp hshape
  rw [Prod.mk.injEq] at heq
  exact ⟨n, n', hn, hn', heq.1.trans hid', heq.2⟩

omit [LinearOrder ω] in
theorem affinity_lt (h : Tables base net len) (hid : id ∈ base.nodelist)
    (hid' : id' ∈ base.nodelist) (hne : id' ≠ id) : affinity id id' < 8 * len := by
  have hlen := h.length id hid
  have hlen' := h.length id' hid'
  rw [← hlen]
  exact Route.affinity_lt (hlen'.trans hlen.symm) hne.symm

/-- **Insertion of a track** keeps the tables sound. -/
theorem insertPath (h : Tables base net len) (hn : net.nodes id = some n)
    (hp : base.Track id p) (ht : p.targetId ≠ id) :
    Tables base (net.setRouter id (n.rtr.insertPath p).1) len := by
  have hid : id ∈ base.nodelist := hp.origin_mem
  obtain ⟨n', -, hn', -, hrid, -⟩ := h.get hid
  cases hn.symm.trans hn'
  have hnodes : ∀ k m, (net.setRouter id (n.rtr.insertPath p).1).nodes k = some m →
      k = id ∧ m = { n with rtr := (n.rtr.insertPath p).1 } ∨ k ≠ id ∧ net.nodes k = some m := by
    intro k m hm
    unfold Network.setRouter at hm
    dsimp only at hm
    split_ifs at hm with hk
    · rw [hn, Option.map_some, Option.some.injEq] at hm
      exact .inl ⟨hk, hm.symm⟩
    · exact .inr ⟨hk, hm⟩
  refine ⟨h.valid, h.length, h.nodelist, fun k => ?_, fun k m hm i q hq => ?_, fun k m hm => ?_⟩
  · rw [← h.shape k]
    unfold Network.setRouter
    dsimp only
    split_ifs with hk
    · rw [hk, hn]
      rfl
    · rfl
  · obtain ⟨rfl, rfl⟩ | ⟨-, hm⟩ := hnodes k m hm
    · dsimp only at hq
      rw [Router.insertPath_bucketAt] at hq
      split_ifs at hq with haff
      · obtain rfl | hq := Bucket.of_mem_insert hq
        · exact ⟨hp, ht, hrid ▸ haff⟩
        · exact h.tracks k n hn i q hq
      · exact h.tracks k n hn i q hq
    · exact h.tracks k m hm i q hq
  · obtain ⟨rfl, rfl⟩ | ⟨-, hm⟩ := hnodes k m hm
    · dsimp only
      rw [Router.length_insertPath]
      have := h.affinity_lt hid hp.target_mem ht
      have := h.buckets k n hn
      rw [Router.affinityWith, hrid]
      omega
    · exact h.buckets k m hm

end Tables

end Tables

end Sst.Route
