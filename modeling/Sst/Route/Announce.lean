import Sst.Lib.Partiality
import Sst.Route.Tables

/-!
# Announcements

A node announces itself to its neighbours; who finds the way back to it useful passes the
announcement on, over the paths in its own table.

* `gotAnnounce`, `sendAnnounce`: the recursion over the nodes; a failed assertion, an index out of
  range and a null pointer are `none`.
* **`gotAnnounce_spec`**: an announcement along a track fails nowhere and keeps the tables sound.
* **`sendAnnounce_spec`**: a node that announces itself does.
-/

namespace Sst.Route

open Partiality

variable {ω : Type*} [LinearOrder ω] [Zero ω] [Add ω]

/-- The nodes, and those that an announcement has visited. -/
structure Announcing (ω : Type*) where
  net : Network ω
  visited : List NodeId

/-- The loop bodies of `gotAnnounce` for the path `p` in the table of the node `id`. -/
def forwardTo (recv : NodeId → Path ω → Announcing ω → Option (Announcing ω × Bool)) (id : NodeId)
    (revpath : Path ω) (acc : Announcing ω × Bool) (p : Path ω) : Option (Announcing ω × Bool) :=
  if p.originId ≠ id ∨ p.numHops = 0 then none
  else if acc.1.visited.contains p.targetId then some acc
  else if (revpath.hopsBefore p.targetId).isSome then some acc
  else
    (p.reverse.plus revpath).bind fun newrev =>
      (recv p.targetId newrev acc.1).map fun r => (r.1, acc.2 || r.2)

/-- `gotAnnounce`. A node does not change its own table while it passes an announcement on, as it
has been visited. -/
def gotAnnounce : ℕ → ℕ → NodeId → Path ω → Announcing ω → Option (Announcing ω × Bool)
  | range, aff, id, revpath, σ =>
    (σ.net.nodes id).bind fun n =>
      if revpath.originId ≠ id then none
      else if σ.visited.contains id then some (σ, false)
      else if affinity id revpath.targetId < aff then none
      else if revpath.looping then none
      else
        let (rtr, progress) := n.rtr.insertPath revpath
        let τ : Announcing ω := ⟨σ.net.setRouter id rtr, id :: σ.visited⟩
        match range with
        | 0 => some (τ, progress)
        | range + 1 =>
          if progress then
            -- The announcement was useful: it goes to all nodes of at least its affinity.
            (List.range' aff (rtr.buckets.length - aff)).foldlM (fun acc i =>
              (rtr.bucketAt i).paths.foldlM
                (forwardTo (gotAnnounce range aff) id revpath) acc) (τ, progress)
          else
            -- It has exhausted its range: it goes on with the next higher affinity.
            let target := affinity id revpath.targetId
            let minaff := if aff < target then aff + 1 else aff
            let maxaff := min (if aff < target then target else aff) rtr.buckets.length
            (List.range' minaff (maxaff + 1 - minaff)).foldlM (fun acc i =>
              if rtr.buckets.length ≤ i then none
              else (rtr.bucketAt i).paths.foldlM (fun acc p =>
                if rtr.affinityWith p.targetId ≠ i then none
                else forwardTo (gotAnnounce range (aff + 1)) id revpath acc p) acc) (τ, progress)

/-- `sendAnnounce`. -/
def sendAnnounce (range : ℕ) (id : NodeId) (net : Network ω) : Option (Network ω × Bool) :=
  (net.nodes id).bind fun n =>
    (n.neighbors.foldlM (fun (acc : Announcing ω × Bool) nb =>
      if nb.1 = id then some acc
      else
        (gotAnnounce range 0 nb.1 ⟨nb.1, [⟨0, id⟩], nb.2.dist, 0⟩ acc.1).map fun r =>
          (r.1, acc.2 || r.2)) (⟨net, []⟩, false)).map fun r => (r.1.net, r.2)

/-! ## Announcements -/

variable {base net : Network ω} {len aff range : ℕ} {id : NodeId} {revpath p : Path ω}
  {σ : Announcing ω}

/-- What an announcement that reaches the state `σ` leaves behind. -/
structure Passed (base : Network ω) (len : ℕ) (σ : Announcing ω) (acc : Announcing ω × Bool) :
    Prop where
  tables : Tables base acc.1.net len
  visited : σ.visited ⊆ acc.1.visited
  kept : ∀ x ∈ σ.visited, acc.1.net.nodes x = σ.net.nodes x

omit [LinearOrder ω] [Zero ω] [Add ω] in
theorem Passed.refl (h : Tables base σ.net len) (b : Bool) : Passed base len σ (σ, b) :=
  ⟨h, List.Subset.refl _, fun _ _ => rfl⟩

omit [LinearOrder ω] [Zero ω] [Add ω] in
theorem Passed.trans {τ : Announcing ω} {b c : Bool} {r : Announcing ω × Bool}
    (h : Passed base len σ (τ, b)) (hr : Passed base len τ r) : Passed base len σ (r.1, c) :=
  ⟨hr.tables, List.Subset.trans h.visited hr.visited,
    fun x hx => (hr.kept x (h.visited hx)).trans (h.kept x hx)⟩

/-- What is to be shown of the nodes that an announcement is passed on to. -/
def Receives (base : Network ω) (len aff : ℕ)
    (recv : NodeId → Path ω → Announcing ω → Option (Announcing ω × Bool)) : Prop :=
  ∀ id revpath σ, Tables base σ.net len → base.Track id revpath → revpath.targetId ≠ id →
    aff ≤ affinity id revpath.targetId → Yields True (Passed base len σ) (recv id revpath σ)

omit [LinearOrder ω] in
/-- **An announcement is passed on** to the target of a path. -/
theorem forwardTo_spec {recv : NodeId → Path ω → Announcing ω → Option (Announcing ω × Bool)}
    (hrecv : Receives base len aff recv) (htrack : base.Track id revpath) (hp : base.Track id p)
    (hne : p.targetId ≠ id) (haff : aff ≤ affinity p.targetId revpath.targetId)
    {acc : Announcing ω × Bool} (h : Passed base len σ acc) :
    Yields True (Passed base len σ) (forwardTo recv id revpath acc p) := by
  have hhops : p.numHops ≠ 0 := by
    intro hzero
    have hnil : p.hops = [] := List.length_eq_zero_iff.mp hzero
    refine hne (Eq.trans ?_ hp.origin)
    rw [Path.targetId, hnil]
    rfl
  unfold forwardTo
  rw [if_neg (not_or.mpr ⟨not_not.mpr hp.origin, hhops⟩)]
  split_ifs with hvisited hbefore
  · exact .some h
  · exact .some h
  · have hrev : base.Track p.reverse.targetId revpath := by
      rw [Path.targetId_reverse, hp.origin]
      exact htrack
    obtain ⟨newrev, hnew, htrack', htarget, -⟩ := hp.reverse.plus hrev
    have hoff : newrev.targetId ≠ p.targetId := by
      intro heq
      rw [Bool.not_eq_true, Option.isSome_eq_false_iff, Option.isNone_iff_eq_none] at hbefore
      refine Path.not_mem_of_hopsBefore hbefore ?_
      rw [← heq, htarget]
      exact List.mem_of_getLast? revpath.targetId_eq.symm
    rw [hnew, Option.bind_some]
    exact (hrecv p.targetId newrev acc.1 h.tables htrack' hoff (by rw [htarget]; exact haff)).map
      fun r hr => Passed.trans h hr

omit [Zero ω] [Add ω] in
theorem passed_insert {n : Node ω} (h : Tables base σ.net len) (hn : σ.net.nodes id = some n)
    (htrack : base.Track id revpath) (hne : revpath.targetId ≠ id) (hid : id ∉ σ.visited)
    (b : Bool) :
    Passed base len σ
      (⟨σ.net.setRouter id (n.rtr.insertPath revpath).1, id :: σ.visited⟩, b) where
  tables := h.insertPath hn htrack hne
  visited := List.subset_cons_self ..
  kept x hx := by
    unfold Network.setRouter
    refine if_neg fun heq => hid ?_
    rwa [← heq]

/-- **An announcement along a track** fails nowhere, and keeps the tables sound. -/
theorem gotAnnounce_spec (range aff : ℕ) :
    Receives base len aff (gotAnnounce (ω := ω) range aff) := by
  induction range generalizing aff with
  | zero =>
    intro id revpath σ h htrack hne haff
    obtain ⟨n, -, hn, -⟩ := h.get htrack.origin_mem
    rw [gotAnnounce, hn, Option.bind_some, if_neg (not_not.mpr htrack.origin)]
    by_cases hid : σ.visited.contains id = true
    · rw [if_pos hid]
      exact .some (.refl h _)
    · rw [if_neg hid, if_neg (not_lt.mpr haff), htrack.loopless]
      rw [List.contains_iff_mem] at hid
      exact .some (passed_insert h hn htrack hne hid _)
  | succ range ih =>
    intro id revpath σ h htrack hne haff
    have hmem : id ∈ base.nodelist := htrack.origin_mem
    obtain ⟨n, -, hn, -, hrid, -⟩ := h.get hmem
    rw [gotAnnounce, hn, Option.bind_some, if_neg (not_not.mpr htrack.origin)]
    by_cases hid : σ.visited.contains id = true
    · rw [if_pos hid]
      exact .some (.refl h _)
    rw [if_neg hid, if_neg (not_lt.mpr haff), htrack.loopless]
    rw [List.contains_iff_mem] at hid
    have hins := passed_insert h hn htrack hne hid
    have hlen : (n.rtr.insertPath revpath).1.buckets.length =
        max n.rtr.buckets.length (affinity id revpath.targetId + 1) := by
      rw [Router.length_insertPath, Router.affinityWith, hrid]
    have htracks : ∀ i, ∀ p ∈ ((n.rtr.insertPath revpath).1.bucketAt i).paths,
        base.Track id p ∧ p.targetId ≠ id ∧ affinity id p.targetId = i :=
      (hins true).tables.tracks id _ (by
        unfold Network.setRouter
        dsimp only
        rw [if_pos rfl, hn]
        rfl)
    have hrid' : (n.rtr.insertPath revpath).1.id = id := hrid
    generalize n.rtr.insertPath revpath = r at hins hlen htracks hrid' ⊢
    obtain ⟨rtr, progress⟩ := r
    dsimp only at hins hlen htracks hrid'
    simp only [Bool.false_eq_true, if_false]
    by_cases hprogress : progress = true
    · rw [if_pos hprogress]
      refine Yields.foldlM (fun i hi acc hacc => ?_) (hins _)
      refine Yields.foldlM (fun p hp acc hacc => ?_) hacc
      obtain ⟨hp, hpne, hpaff⟩ := htracks i p hp
      obtain ⟨hle, -⟩ := List.mem_range'_1.mp hi
      exact forwardTo_spec (ih aff) htrack hp hpne
        (affinity_trans (by rw [hpaff]; exact hle) haff) hacc
    · rw [if_neg hprogress]
      refine Yields.foldlM (fun i hi acc hacc => ?_) (hins _)
      obtain ⟨hle, hlt⟩ := List.mem_range'_1.mp hi
      have hbound : i < rtr.buckets.length := by
        rw [hlen] at hlt ⊢
        split_ifs at hle hlt <;> omega
      rw [if_neg (not_le.mpr hbound)]
      refine Yields.foldlM (fun p hp acc hacc => ?_) hacc
      obtain ⟨hp, hpne, hpaff⟩ := htracks i p hp
      rw [if_neg (not_not.mpr (by rw [Router.affinityWith, hrid', hpaff]))]
      refine forwardTo_spec (ih (aff + 1)) htrack hp hpne ?_ hacc
      split_ifs at hle hlt with htarget
      · exact affinity_trans (by rw [hpaff]; exact hle) htarget
      · -- Both part from this node at the bit `aff`.
        have heq : affinity id revpath.targetId = aff := le_antisymm (not_lt.mp htarget) haff
        have hk := h.length id hmem
        refine lt_affinity ((h.length _ hp.target_mem).trans hk.symm)
          ((h.length _ htrack.target_mem).trans hk.symm) (hpaff.trans ?_) heq ?_
        · omega
        · rw [hk, ← heq]
          exact h.affinity_lt hmem htrack.target_mem hne

/-- **A node announces itself**: nothing fails, and the tables stay sound. -/
theorem sendAnnounce_spec (h : Tables base net len) (hid : id ∈ base.nodelist) (range : ℕ) :
    Yields True (fun r => Tables base r.1 len) (sendAnnounce range id net) := by
  obtain ⟨n, n', hn, hn', hrid, hnb⟩ := h.get hid
  unfold sendAnnounce
  rw [hn, Option.bind_some]
  refine Yields.map (I := fun r => Tables base r.1.net len) (.foldlM (fun nb hmem acc hacc => ?_) h)
    fun r hr => hr
  split_ifs with hself
  · exact .some hacc
  · rw [hnb] at hmem
    have hlink : base.Linked nb.1 id := ⟨n', .inr ⟨hn', nb, hmem, rfl⟩⟩
    have htrack : base.Track nb.1 ⟨nb.1, [⟨0, id⟩], nb.2.dist, 0⟩ :=
      .hop hlink hself (h.valid.neighbor id n' hn' nb hmem) hid
    exact (gotAnnounce_spec range 0 nb.1 _ acc.1 hacc htrack (Ne.symm hself) (Nat.zero_le _)).map
      fun r hr => hr.tables

end Sst.Route
