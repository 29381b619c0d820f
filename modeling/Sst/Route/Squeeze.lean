import Sst.Route.Announce
import Sst.Route.Shortest

/-!
# Squeezing paths

Two nodes are led towards each other over their tables until they meet; the better of several such
paths is taken, and tables are improved by it.

* `Router.nearestNeighborPath`: the path to the neighbour that is the nearest to a node.
* `squeezeLoop`, `squeezePath`: the search; a failed assertion, a null pointer and a lack of fuel
  are `none`.
* `optimizePath`, `optimize`: the improvement of a table.
* **`nearestNeighborPath_spec`**: the neighbour found is nearer, and the nearest of its bucket.
* **`squeezePath_spec`**: the path found is a track between the two nodes, and the search ends.
* **`routing`**: any sequence of announcements and improvements.
-/

namespace Sst.Route

open Partiality

variable {ω : Type*} [LinearOrder ω] [Zero ω] [Add ω]

/-! ## The nearest neighbour -/

/-- The best path so far, its affinity and weight; no weight is an infinite one. -/
structure Candidate (ω : Type*) where
  maxi : Option (Path ω) := none
  maxaff : ℕ
  maxdist : Option ω := none

/-- The loop body of `nearestNeighborPath`. -/
def nearerStep (id : NodeId) (aff : ℕ) (best : Candidate ω) (p : Path ω) : Option (Candidate ω) :=
  let naff := affinity id p.targetId
  if naff ≤ aff then none
  else if best.maxaff < naff ∨ naff = best.maxaff ∧ best.maxdist.all (p.weight < ·) = true then
    some ⟨some p, naff, some p.weight⟩
  else some best

/-- `Router::nearestNeighborPath`; `none` is a failed assertion. -/
def Router.nearestNeighborPath (r : Router ω) (id : NodeId) : Option (Path ω) :=
  let aff := r.affinityWith id
  if r.buckets.length ≤ aff then some .null
  else
    let b := r.bucketAt aff
    if b.paths.isEmpty then some .null
    else (b.paths.foldlM (nearerStep id aff) { maxaff := aff }).bind Candidate.maxi

/-! ## Squeezing -/

/-- The paths from two nodes towards each other, or none. -/
def approach (net : Network ω) (hn tn : NodeId) : Option (Option (Path ω × Path ω)) :=
  (net.nodes hn).bind fun h => (net.nodes tn).bind fun t =>
    let aff := affinity h.id t.id
    (h.rtr.nearestNeighborPath t.id).bind fun hnp =>
      if hnp.targetId.isEmpty then some none
      else if affinity hnp.targetId t.id ≤ aff then none
      else
        (t.rtr.nearestNeighborPath h.id).bind fun tnp =>
          if tnp.targetId.isEmpty then some none
          else if affinity tnp.targetId h.id ≤ aff then none
          else some (some (hnp, tnp))

/-- The loop that leads the nodes `hn` and `tn` to a common midpoint. -/
def squeezeLoop (net : Network ω) :
    ℕ → NodeId → NodeId → Path ω → Path ω → Option (Option (Path ω × Path ω))
  | 0, _, _, _, _ => none
  | fuel + 1, hn, tn, head, tail =>
    if hn = tn then some (some (head, tail))
    else
      (approach net hn tn).bind fun
      | none => some none
      | some (hnp, tnp) =>
        if hnp.weight ≤ tnp.weight then
          (head.plus hnp).bind fun head => squeezeLoop net fuel hnp.targetId tn head tail
        else
          (tnp.reverse.plus tail).bind fun tail => squeezeLoop net fuel hn tnp.targetId head tail

/-- The path `p`, or `q` if that is a lighter one. -/
def Path.lighter (p q : Path ω) : Path ω := if !q.isNull && q.weight < p.weight then q else p

/-- `squeezePath`. -/
def squeezePath (net : Network ω) (postrecurse : Bool) : ℕ → ℕ → NodeId → NodeId → Option (Path ω)
  | 0, _, _, _ => none
  | fuel + 1, prerecurse, origid, targid =>
    if origid ≠ targid ∧ 0 < prerecurse then
      (approach net origid targid).bind fun
      | none => some .null
      | some (hnp, tnp) =>
        (squeezePath net postrecurse fuel (prerecurse - 1) hnp.targetId targid).bind fun htp =>
          (if htp.isNull then some .null else hnp.plus htp).bind fun hp =>
            (squeezePath net postrecurse fuel (prerecurse - 1) origid tnp.targetId).bind fun thp =>
              (if thp.isNull then some .null else thp.plus tnp.reverse).bind fun tp =>
                some (if tp.isNull ∨ hp.weight ≤ tp.weight then hp else tp)
    else
      (squeezeLoop net fuel origid targid (.ofStart origid) (.ofStart targid)).bind fun
      | none => some .null
      | some (head, tail) =>
        (if postrecurse && !head.hops.isEmpty && !tail.hops.isEmpty then
          (squeezePath net postrecurse fuel prerecurse head.originId head.targetId).bind
            fun nhead =>
              (squeezePath net postrecurse fuel prerecurse tail.originId tail.targetId).bind
                fun ntail => some (head.lighter nhead, tail.lighter ntail)
        else some (head, tail)).bind fun (head, tail) =>
          if head.originId ≠ origid ∨ head.targetId ≠ tail.originId ∨ tail.targetId ≠ targid then
            none
          else head.plus tail

/-! ## Improvement -/

/-- `optimizePath` of the node `id`. -/
def optimizePath (fuel : ℕ) (net : Network ω) (id : NodeId) (oldpath : Path ω) :
    Option (Network ω × Bool) :=
  let targid := oldpath.targetId
  if targid = id then none
  else
    (squeezePath net false fuel 2 id targid).bind fun newpath =>
      if newpath.isNull then some (net, false)
      else if newpath.originId ≠ id ∨ newpath.targetId ≠ targid then none
      else if oldpath.weight ≤ newpath.weight then some (net, false)
      else (net.nodes id).map fun n => (net.setRouter id (n.rtr.insertPath newpath).1, true)

/-- `optimize`: the paths are read from the table as it has become. As the new path has the target
of an old one, there are no more buckets and paths than before. -/
def optimize (fuel : ℕ) (net : Network ω) (id : NodeId) : Option (Network ω × Bool) :=
  (net.nodes id).bind fun n =>
    (List.range n.rtr.buckets.length).foldlM (fun acc i =>
      (List.range bucketSize).foldlM (fun acc j =>
        (acc.1.nodes id).bind fun n =>
          match (n.rtr.bucketAt i).paths[j]? with
          | none => some acc
          | some p => (optimizePath fuel acc.1 id p).map fun r => (r.1, acc.2 || r.2)) acc)
      (net, false)

/-! ## The nearest of a bucket -/

/-- The best of the paths that were looked at. -/
structure Candidate.Of (id : NodeId) (aff : ℕ) (l : List (Path ω)) (best : Candidate ω) : Prop where
  empty : l = [] → best.maxaff = aff
  path : l ≠ [] → ∃ p ∈ l, best.maxi = some p ∧ best.maxaff = affinity id p.targetId ∧
    best.maxdist = some p.weight
  least : ∀ q ∈ l, ∀ p, best.maxi = some p → affinity id q.targetId ≤ best.maxaff ∧
    (affinity id q.targetId = best.maxaff → p.weight ≤ q.weight)

section Nearest

variable {id : NodeId} {aff : ℕ} {l : List (Path ω)} {best : Candidate ω} {p : Path ω}

omit [Zero ω] [Add ω] in
theorem Candidate.Of.step (h : best.Of id aff l) (hp : aff < affinity id p.targetId) :
    ∃ best', nearerStep id aff best p = some best' ∧ best'.Of id aff (l ++ [p]) := by
  have hne : l ++ [p] ≠ [] := by simp
  unfold nearerStep
  dsimp only
  rw [if_neg (not_le.mpr hp)]
  split_ifs with hnear
  · refine ⟨_, rfl, fun hnil => absurd hnil hne, fun _ => ⟨p, by simp, rfl, rfl, rfl⟩, ?_⟩
    rintro q hq _ ⟨⟩
    dsimp only
    obtain hq | hq := List.mem_append.mp hq
    · obtain ⟨p₀, -, hmaxi, -, hdist⟩ := h.path (List.ne_nil_of_mem hq)
      obtain ⟨hle, hleast⟩ := h.least q hq p₀ hmaxi
      obtain hlt | ⟨heq, hw⟩ := hnear
      · exact ⟨hle.trans hlt.le, fun heq => absurd (heq ▸ hle) hlt.not_ge⟩
      · rw [hdist, Option.all_some, decide_eq_true_eq] at hw
        exact ⟨hle.trans heq.ge, fun hqa => hw.le.trans (hleast (hqa.trans heq))⟩
    · rw [List.mem_singleton.mp hq]
      exact ⟨le_rfl, fun _ => le_rfl⟩
  · obtain ⟨hfar, heavy⟩ := not_or.mp hnear
    have hl : l ≠ [] := fun hnil => hfar (h.empty hnil ▸ hp)
    obtain ⟨p₀, hp₀, hmaxi, haff, hdist⟩ := h.path hl
    refine ⟨best, rfl, fun hnil => absurd hnil hne,
      fun _ => ⟨p₀, List.mem_append_left _ hp₀, hmaxi, haff, hdist⟩, fun q hq p' hp' => ?_⟩
    obtain hq | hq := List.mem_append.mp hq
    · exact h.least q hq p' hp'
    · rw [List.mem_singleton.mp hq]
      cases hmaxi.symm.trans hp'
      refine ⟨not_lt.mp hfar, fun heq => le_of_not_gt fun hlt => heavy ⟨heq, ?_⟩⟩
      rw [hdist, Option.all_some, decide_eq_true_eq]
      exact hlt

omit [Zero ω] [Add ω] in
theorem Candidate.Of.loop {l' : List (Path ω)} (h : best.Of id aff l)
    (hl' : ∀ p ∈ l', aff < affinity id p.targetId) :
    ∃ best', l'.foldlM (nearerStep id aff) best = some best' ∧ best'.Of id aff (l ++ l') := by
  induction l' generalizing l best with
  | nil => exact ⟨best, rfl, by rwa [List.append_nil]⟩
  | cons p l' ih =>
    obtain ⟨hp, hl'⟩ := List.forall_mem_cons.mp hl'
    obtain ⟨best', hstep, hof⟩ := h.step hp
    obtain ⟨best'', hloop, hof⟩ := ih hof hl'
    refine ⟨best'', ?_, ?_⟩
    · rw [List.foldlM_cons, hstep]
      exact hloop
    · rwa [List.append_assoc] at hof

end Nearest

variable {base net : Network ω} {len : ℕ} {id id' : NodeId}

/-- A track from `id` to a node that is nearer to `id'`. -/
def Towards (base : Network ω) (id id' : NodeId) (p : Path ω) : Prop :=
  base.Track id p ∧ affinity id id' < affinity id' p.targetId

omit [Add ω] in
/-- **The nearest neighbour.** The search fails no assertion; it finds no path, or one to a node
that is nearer, the nearest of its bucket and of these the one on the lightest path. -/
theorem nearestNeighborPath_spec (h : Tables base net len) {n : Node ω} (hn : net.nodes id = some n)
    (hid : id ∈ base.nodelist) (hid' : id' ∈ base.nodelist) (hne : id' ≠ id) :
    ∃ p, n.rtr.nearestNeighborPath id' = some p ∧ (p = .null ∨ Towards base id id' p ∧
      ∀ q ∈ (n.rtr.bucketAt (affinity id id')).paths,
        affinity id' q.targetId ≤ affinity id' p.targetId ∧
          (affinity id' q.targetId = affinity id' p.targetId → p.weight ≤ q.weight)) := by
  obtain ⟨n', -, hn', -, hrid, -⟩ := h.get hid
  cases hn.symm.trans hn'
  have hnearer : ∀ p ∈ (n.rtr.bucketAt (affinity id id')).paths,
      affinity id id' < affinity id' p.targetId := fun p hp => by
    obtain ⟨htrack, hpne, hpaff⟩ := h.tracks id n hn _ p hp
    have hlen := h.length id hid
    refine lt_affinity ((h.length id' hid').trans hlen.symm)
      ((h.length _ htrack.target_mem).trans hlen.symm) rfl hpaff ?_
    rw [hlen]
    exact h.affinity_lt hid hid' hne
  unfold Router.nearestNeighborPath Router.affinityWith
  rw [hrid]
  dsimp only
  split_ifs with hsize hempty
  · exact ⟨_, rfl, .inl rfl⟩
  · exact ⟨_, rfl, .inl rfl⟩
  · have hstart : ({ maxaff := affinity id id' } : Candidate ω).Of id' (affinity id id') [] :=
      ⟨fun _ => rfl, fun hnil => absurd rfl hnil, nofun⟩
    obtain ⟨best, hloop, hof⟩ := hstart.loop hnearer
    rw [List.nil_append] at hof
    obtain ⟨p, hp, hmaxi, haff, -⟩ := hof.path fun hnil => hempty (by rw [hnil]; rfl)
    refine ⟨p, by rw [hloop]; exact hmaxi, .inr ⟨⟨(h.tracks id n hn _ p hp).1, hnearer p hp⟩, ?_⟩⟩
    intro q hq
    rw [← haff]
    exact hof.least q hq p hmaxi

/-! ## Meeting -/

omit [Add ω] in
theorem approach_spec (h : Tables base net len) (hid : id ∈ base.nodelist)
    (hid' : id' ∈ base.nodelist) (hne : id' ≠ id) :
    Yields True (fun o => ∀ r, o = some r → Towards base id id' r.1 ∧ Towards base id' id r.2)
      (approach net id id') := by
  obtain ⟨n, -, hn, -, hrid, -⟩ := h.get hid
  obtain ⟨n', -, hn', -, hrid', -⟩ := h.get hid'
  have hnid : n.id = id := hrid
  have hnid' : n'.id = id' := hrid'
  unfold approach
  rw [hn, Option.bind_some, hn', Option.bind_some, hnid, hnid']
  obtain ⟨p, hp, hp'⟩ := nearestNeighborPath_spec h hn hid hid' hne
  obtain ⟨q, hq, hq'⟩ := nearestNeighborPath_spec h hn' hid' hid hne.symm
  dsimp only
  rw [hp, Option.bind_some]
  split_ifs with hempty haff
  · exact .some nofun
  · obtain rfl | ⟨⟨-, hlt⟩, -⟩ := hp'
    · exact absurd rfl hempty
    · rw [affinity_comm] at haff
      exact absurd hlt haff.not_gt
  · rw [hq, Option.bind_some]
    split_ifs with hempty' haff'
    · exact .some nofun
    · obtain rfl | ⟨⟨-, hlt⟩, -⟩ := hq'
      · exact absurd rfl hempty'
      · rw [affinity_comm, affinity_comm (a := id) (b := id')] at haff'
        exact absurd hlt haff'.not_gt
    · refine .some ?_
      rintro r ⟨⟩
      obtain rfl | ⟨hp', -⟩ := hp'
      · exact absurd rfl hempty
      obtain rfl | ⟨hq', -⟩ := hq'
      · exact absurd rfl hempty'
      exact ⟨hp', hq'⟩

/-- Two tracks that meet lead from `origid` to `targid`. -/
def Meeting (base : Network ω) (origid targid : NodeId) (r : Path ω × Path ω) : Prop :=
  base.Track origid r.1 ∧ base.Track r.1.targetId r.2 ∧ r.2.targetId = targid

/-- **The loop**: the nodes come nearer in each round. -/
theorem squeezeLoop_spec (h : Tables base net len) {origid targid : NodeId} {fuel : ℕ}
    {head tail : Path ω} (hhead : base.Track origid head) (htail : base.Track tail.originId tail)
    (htarg : tail.targetId = targid) :
    Yields (8 * len < fuel + affinity head.targetId tail.originId)
      (fun o => ∀ r, o = some r → Meeting base origid targid r)
      (squeezeLoop net fuel head.targetId tail.originId head tail) := by
  have hlen := h.length _ hhead.target_mem
  induction fuel generalizing head tail with
  | zero =>
    refine ⟨nofun, fun hlt => ?_⟩
    have := affinity_le (a := head.targetId) (b := tail.originId)
    omega
  | succ fuel ih =>
    rw [squeezeLoop]
    split_ifs with hmeet
    · refine .some ?_
      rintro r ⟨⟩
      exact ⟨hhead, hmeet ▸ htail, htarg⟩
    refine ((approach_spec h hhead.target_mem htail.origin_mem (Ne.symm hmeet)).weaken
      fun _ => trivial).bind fun o ho => ?_
    cases o with
    | none => exact .some nofun
    | some r =>
      obtain ⟨⟨hhnp, hhlt⟩, ⟨htnp, htlt⟩⟩ := ho r rfl
      obtain ⟨hnp, tnp⟩ := r
      dsimp only at hhnp hhlt htnp htlt ⊢
      split_ifs with hlight
      · obtain ⟨head', hplus, htrack, htarget, -⟩ := hhead.plus hhnp
        rw [hplus, Option.bind_some, ← htarget]
        refine (ih htrack htail htarg (h.length _ htrack.target_mem)).weaken fun hlt => ?_
        rw [htarget, affinity_comm (a := hnp.targetId)]
        omega
      · have htail' : base.Track tnp.reverse.targetId tail := by
          rw [Path.targetId_reverse, htnp.origin]
          exact htail
        obtain ⟨tail', hplus, htrack, htarget, -⟩ := htnp.reverse.plus htail'
        have horigin : tail'.originId = tnp.targetId := htrack.origin
        rw [hplus, Option.bind_some, ← horigin]
        refine (ih hhead (horigin ▸ htrack) (htarget.trans htarg) hlen).weaken fun hlt => ?_
        rw [horigin]
        rw [affinity_comm] at hlt
        omega

/-! ## Squeezing -/

/-- No path, or a track between the two nodes. -/
def Squeezed (base : Network ω) (origid targid : NodeId) (p : Path ω) : Prop :=
  p = .null ∨ base.Track origid p ∧ p.targetId = targid

omit [LinearOrder ω] [Add ω] in
theorem Squeezed.track {origid targid : NodeId} {p : Path ω} (h : Squeezed base origid targid p)
    (hnull : ¬p.isNull = true) : base.Track origid p ∧ p.targetId = targid := by
  obtain rfl | h := h
  · exact absurd rfl hnull
  · exact h

omit [Add ω] in
theorem lighter_route {p q : Path ω} (hp : base.Track id p)
    (hq : Squeezed base p.originId p.targetId q) :
    base.Track id (p.lighter q) ∧ (p.lighter q).targetId = p.targetId := by
  unfold Path.lighter
  split_ifs with hlight
  · rw [Bool.and_eq_true, Bool.not_eq_true', decide_eq_true_eq] at hlight
    have := hq.track (by rw [hlight.1]; exact Bool.false_ne_true)
    rwa [hp.origin] at this
  · exact ⟨hp, rfl⟩

/-- **Squeezing.** The path found is a track between the two nodes; without recursion at the end the
search ends. -/
theorem squeezePath_spec (h : Tables base net len) (postrecurse : Bool) {fuel prerecurse : ℕ}
    {origid targid : NodeId} (horig : origid ∈ base.nodelist) (htarg : targid ∈ base.nodelist) :
    Yields (postrecurse = false ∧ prerecurse + 8 * len + 1 < fuel) (Squeezed base origid targid)
      (squeezePath net postrecurse fuel prerecurse origid targid) := by
  induction fuel generalizing prerecurse origid targid with
  | zero => exact ⟨nofun, fun hlt => by omega⟩
  | succ fuel ih =>
    rw [squeezePath]
    split_ifs with hpre
    · obtain ⟨hne, hpos⟩ := hpre
      have hfuel : postrecurse = false ∧ prerecurse + 8 * len + 1 < fuel + 1 →
          postrecurse = false ∧ prerecurse - 1 + 8 * len + 1 < fuel := fun hc => ⟨hc.1, by omega⟩
      refine ((approach_spec h horig htarg hne.symm).weaken fun _ => trivial).bind fun o ho => ?_
      cases o with
      | none => exact .some (.inl rfl)
      | some r =>
        obtain ⟨⟨hhnp, -⟩, ⟨htnp, -⟩⟩ := ho r rfl
        obtain ⟨hnp, tnp⟩ := r
        dsimp only at hhnp htnp ⊢
        refine ((ih hhnp.target_mem htarg).weaken hfuel).bind fun htp hhtp => ?_
        refine Yields.bind (I := Squeezed base origid targid) ?_ fun hp hhp => ?_
        · split_ifs with hnull
          · exact .some (.inl rfl)
          · obtain ⟨htrack, htarget⟩ := hhtp.track hnull
            obtain ⟨p, hplus, hp, hpt, -⟩ := hhnp.plus htrack
            rw [hplus]
            exact .some (.inr ⟨hp, hpt.trans htarget⟩)
        refine ((ih horig htnp.target_mem).weaken hfuel).bind fun thp hthp => ?_
        refine Yields.bind (I := Squeezed base origid targid) ?_ fun tp htp' => ?_
        · split_ifs with hnull
          · exact .some (.inl rfl)
          · obtain ⟨htrack, htarget⟩ := hthp.track hnull
            obtain ⟨p, hplus, hp, hpt, -⟩ := htrack.plus (htarget ▸ htnp.reverse)
            rw [hplus]
            exact .some (.inr ⟨hp, hpt.trans (Path.targetId_reverse.trans htnp.origin)⟩)
        refine .some ?_
        split_ifs
        · exact hhp
        · exact htp'
    · have hhead : base.Track origid (Path.ofStart origid) := .ofStart horig
      have htail : base.Track (Path.ofStart targid : Path ω).originId (.ofStart targid) :=
        .ofStart htarg
      refine ((squeezeLoop_spec h hhead htail rfl).weaken fun hc => by omega).bind fun o ho => ?_
      cases o with
      | none => exact .some (.inl rfl)
      | some r =>
        obtain ⟨hhead, htail, htarget⟩ := ho r rfl
        obtain ⟨head, tail⟩ := r
        dsimp only at hhead htail htarget ⊢
        refine Yields.bind (I := Meeting base origid targid) ?_ fun r hr => ?_
        · split_ifs with hpost
          · have hc : postrecurse = false ∧ prerecurse + 8 * len + 1 < fuel + 1 →
                postrecurse = false ∧ prerecurse + 8 * len + 1 < fuel := fun hc => by
              rw [hc.1] at hpost
              cases hpost
            have horigin := hhead.origin
            refine ((ih (horigin ▸ horig) hhead.target_mem).weaken hc).bind fun nhead hnhead => ?_
            refine ((ih (htail.origin ▸ hhead.target_mem) htail.target_mem).weaken hc).bind
              fun ntail hntail => ?_
            obtain ⟨hhead', hheadt⟩ := lighter_route hhead hnhead
            obtain ⟨htail', htailt⟩ := lighter_route htail hntail
            exact .some ⟨hhead', hheadt ▸ htail', htailt.trans htarget⟩
          · exact .some ⟨hhead, htail, htarget⟩
        · obtain ⟨hhead, htail, htarget⟩ := hr
          rw [if_neg (by rw [hhead.origin, htail.origin, htarget]; simp)]
          obtain ⟨p, hplus, hp, hpt, -⟩ := hhead.plus htail
          rw [hplus]
          exact .some (.inr ⟨hp, hpt.trans htarget⟩)

/-- **Improvement of a path** in the table of a node. -/
theorem optimizePath_spec (h : Tables base net len) {fuel : ℕ} {oldpath : Path ω}
    (hold : base.Track id oldpath) (hne : oldpath.targetId ≠ id) :
    Yields (8 * len + 3 < fuel) (fun r => Tables base r.1 len)
      (optimizePath fuel net id oldpath) := by
  unfold optimizePath
  dsimp only
  rw [if_neg hne]
  refine ((squeezePath_spec h false hold.origin_mem hold.target_mem).weaken
    fun hc => ⟨rfl, by omega⟩).bind fun newpath hnew => ?_
  by_cases hnull : newpath.isNull = true
  · rw [if_pos hnull]
    exact .some h
  · obtain ⟨htrack, htarget⟩ := hnew.track hnull
    rw [if_neg hnull, if_neg (by rw [htrack.origin, htarget]; simp)]
    split_ifs
    · exact .some h
    · obtain ⟨n, -, hn, -⟩ := h.get hold.origin_mem
      rw [hn]
      exact .some (h.insertPath hn htrack (htarget ▸ hne))

/-- **Improvement of a table.** -/
theorem optimize_spec (h : Tables base net len) (hid : id ∈ base.nodelist) {fuel : ℕ} :
    Yields (8 * len + 3 < fuel) (fun r => Tables base r.1 len) (optimize fuel net id) := by
  obtain ⟨n, -, hn, -⟩ := h.get hid
  unfold optimize
  rw [hn, Option.bind_some]
  refine .foldlM (fun i _ acc hacc => .foldlM (fun j _ acc hacc => ?_) hacc) h
  obtain ⟨m, -, hm, -⟩ := hacc.get hid
  rw [hm, Option.bind_some]
  split
  · exact .some hacc
  · next p hp =>
    obtain ⟨htrack, hne, -⟩ := hacc.tracks id m hm i p (List.mem_of_getElem? hp)
    exact (optimizePath_spec hacc htrack hne).map fun r hr => hr

/-! ## Runs -/

/-- What the nodes do. -/
inductive Event
  | sendAnnounce (id : NodeId) (range : ℕ)
  | optimize (id : NodeId)

/-- The node that does it. -/
def Event.actor : Event → NodeId
  | .sendAnnounce id _ | .optimize id => id

def Event.run (fuel : ℕ) (net : Network ω) : Event → Option (Network ω)
  | .sendAnnounce id range => (Route.sendAnnounce range id net).map Prod.fst
  | .optimize id => (Route.optimize fuel net id).map Prod.fst

/-- **Routing.** In a network of nodes with ids of one length that starts with empty tables, nodes
announce themselves and improve their tables, in any order and as often as they like. No assertion
fails on the way, nor an index or a pointer; then every path in a table is a track over links of the
network, without loops, from the node to another one of the affinity of the bucket; and from every
node to every other the search for a path ends without failure, with such a track or with none. -/
theorem routing (base : Network ω) (hvalid : base.Valid) {len : ℕ}
    (hlen : ∀ id ∈ base.nodelist, id.length = len)
    (hempty : ∀ id n, base.nodes id = some n → n.rtr.buckets = []) (events : List Event)
    (hevents : ∀ e ∈ events, e.actor ∈ base.nodelist) {fuel : ℕ} (hfuel : 8 * len + 3 < fuel) :
    ∃ net, events.foldlM (Event.run fuel) base = some net ∧
      (∀ id n, net.nodes id = some n → ∀ i, ∀ p ∈ (n.rtr.bucketAt i).paths,
        base.Track id p ∧ p.targetId ≠ id ∧ affinity id p.targetId = i) ∧
      ∀ origid ∈ base.nodelist, ∀ targid ∈ base.nodelist, ∃ p,
        squeezePath net false fuel 2 origid targid = some p ∧
          (p = .null ∨ base.Track origid p ∧ p.targetId = targid) := by
  have hstart : Tables base base len := by
    refine ⟨hvalid, hlen, rfl, fun _ => rfl, fun id n hn i p hp => ?_, fun id n hn => ?_⟩
    · rw [Router.bucketAt, hempty id n hn] at hp
      cases hp
    · rw [hempty id n hn]
      exact Nat.zero_le _
  have hrun : Yields (8 * len + 3 < fuel) (fun net => Tables base net len)
      (events.foldlM (Event.run fuel) base) := by
    refine .foldlM (fun e he net hnet => ?_) hstart
    have hid := hevents e he
    cases e with
    | sendAnnounce id range =>
      have hspec := sendAnnounce_spec hnet hid range
      exact (hspec.weaken fun _ => trivial).map (J := fun net => Tables base net len) fun r hr => hr
    | optimize id =>
      exact (optimize_spec hnet hid).map (J := fun net => Tables base net len) fun r hr => hr
  obtain ⟨net, hnet, htables⟩ := hrun.get hfuel
  refine ⟨net, hnet, htables.tracks, fun origid horig targid htarg => ?_⟩
  exact (squeezePath_spec htables false horig htarg).get ⟨rfl, by omega⟩

/-- Three nodes in a row that announce themselves: the ends find each other. -/
theorem routing_three : ∃ net,
    [Event.sendAnnounce [2] 2, .sendAnnounce [1] 2, .sendAnnounce [0] 2, .optimize [0]].foldlM
      (Event.run 12) threeNodes = some net ∧
    ∃ p, squeezePath net false 12 2 [0] [2] = some p ∧ p.nodes = [[0], [1], [2]] ∧
      threeNodes.Track [0] p ∧ p.targetId = [2] := by
  have hlen : ∀ id ∈ threeNodes.nodelist, id.length = 1 := by decide
  have hempty : ∀ id n, threeNodes.nodes id = some n → n.rtr.buckets = [] := by
    intro id n h
    simp only [threeNodes] at h
    split_ifs at h <;> cases h <;> rfl
  have heval : ([Event.sendAnnounce [2] 2, .sendAnnounce [1] 2, .sendAnnounce [0] 2,
      .optimize [0]].foldlM (Event.run 12) threeNodes).bind (fun net =>
        (squeezePath net false 12 2 [0] [2]).map Path.nodes) = some [[0], [1], [2]] := by
    decide +kernel
  obtain ⟨net, hnet, -, hsqueeze⟩ := routing threeNodes threeNodes_valid hlen hempty
    [.sendAnnounce [2] 2, .sendAnnounce [1] 2, .sendAnnounce [0] 2, .optimize [0]]
    (by decide) (show 8 * 1 + 3 < 12 by decide)
  obtain ⟨p, hp, htrack⟩ := hsqueeze [0] (by decide) [2] (by decide)
  rw [hnet, Option.bind_some, hp, Option.map_some, Option.some.injEq] at heval
  obtain rfl | htrack := htrack
  · cases heval
  · exact ⟨net, hnet, p, hp, heval, htrack⟩

end Sst.Route
