import Mathlib.Data.List.Basic
import Sst.Lib.Nearest
import Sst.Route.Affinity

/-!
# Routing tables

The table of a router has a bucket for each affinity, with the paths to the nearest nodes of that
affinity.

* `Bucket.insert`: insertion of a path that was found.
* `Router.insertPath`, `Router.pathTo`: insertion into the bucket of the target, and its search.
* **`Bucket.insert_eq`**: insertion offers the path to a table of the nearest.
* `Router.Holds P r`: the buckets hold the nearest of the paths `P`.
* **`nearest_paths`**: what the table holds after any insertions, and what `pathTo` finds.
-/

namespace Sst.Route

open Best

variable {ω : Type*} [LinearOrder ω]

/-- The path that stands for no path. -/
def Path.null [Zero ω] : Path ω := ⟨[], [], 0, 0⟩

def Path.isNull (p : Path ω) : Bool := p.start.isEmpty

/-! ## Buckets -/

/-- The most paths that a bucket holds. -/
def bucketSize : ℕ := 5

/-- The paths to the nearest nodes of one affinity. -/
structure Bucket (ω : Type*) where
  paths : List (Path ω) := []

namespace Bucket

/-- The first loop of `insert`: the path to the same target is taken out, unless it is as short. -/
def dropTarget (npi : Path ω) : List (Path ω) → Option (List (Path ω))
  | [] => some []
  | pi :: paths =>
    if pi.targetId ≠ npi.targetId then (dropTarget npi paths).map (pi :: ·)
    else if pi.weight ≤ npi.weight then none
    else some paths

/-- `Bucket::insert`: the bucket, and whether the path was accepted. -/
def insert (b : Bucket ω) (npi : Path ω) : Bucket ω × Bool :=
  match dropTarget npi b.paths with
  | none => (b, false)
  | some paths =>
    if bucketSize ≤ (paths.takeWhile fun p => p.weight ≤ npi.weight).length then (⟨paths⟩, false)
    else
      (⟨(Priority.insertBehind (fun p => p.weight ≤ npi.weight) npi paths).take bucketSize⟩, true)

variable {b : Bucket ω} {npi : Path ω} {l : List (Path ω)}

theorem dropTarget_eq (h : (l.map Path.targetId).Nodup) : dropTarget npi l =
    if Beaten Path.targetId Path.weight npi l then none
    else some (l.filter fun p => p.targetId ≠ npi.targetId) := by
  induction l with
  | nil => simp [dropTarget, Beaten]
  | cons pi l ih =>
    obtain ⟨hpi, h⟩ := List.nodup_cons.mp h
    rw [dropTarget]
    by_cases ht : pi.targetId = npi.targetId
    · have hne : ∀ p ∈ l, p.targetId ≠ npi.targetId := fun p hp heq =>
        hpi (List.mem_map.mpr ⟨p, hp, heq.trans ht.symm⟩)
      have hbeaten : Beaten Path.targetId Path.weight npi (pi :: l) ↔ pi.weight ≤ npi.weight := by
        constructor
        · rintro ⟨p, hp, hpt, hle⟩
          obtain rfl | hp := List.mem_cons.mp hp
          · exact hle
          · exact absurd hpt (hne p hp)
        · exact fun hle => ⟨pi, List.mem_cons_self, ht, hle⟩
      have hfilter : (pi :: l).filter (fun p => p.targetId ≠ npi.targetId) = l := by
        rw [List.filter_cons_of_neg (by simp [ht])]
        exact List.filter_eq_self.mpr fun p hp => by simpa using hne p hp
      rw [if_neg (not_not.mpr ht), hfilter]
      simp only [hbeaten]
    · have hbeaten : Beaten Path.targetId Path.weight npi (pi :: l) ↔
          Beaten Path.targetId Path.weight npi l := by
        simp [Beaten, ht]
      rw [if_pos ht, ih h, List.filter_cons_of_pos (by simp [ht])]
      simp only [hbeaten]
      split_ifs <;> rfl

/-- **Insertion** offers the path to the table. -/
theorem insert_eq (h : (b.paths.map Path.targetId).Nodup) (hsize : b.paths.length ≤ bucketSize) :
    (b.insert npi).1.paths = improve Path.targetId Path.weight bucketSize npi b.paths := by
  unfold insert improve
  rw [dropTarget_eq h]
  split_ifs with hbeaten
  · rfl
  · dsimp only
    generalize hl : (b.paths.filter fun p => p.targetId ≠ npi.targetId) = l
    have hle : l.length ≤ bucketSize := hl ▸ (List.length_filter_le ..).trans hsize
    rw [place, hl]
    split_ifs with hfull
    · have hall : l.takeWhile (fun p => p.weight ≤ npi.weight) = l :=
        (List.takeWhile_prefix _).eq_of_length_le (hle.trans hfull)
      rw [hall] at hfull
      rw [Priority.insertBehind, hall, List.take_append_of_le_length hfull,
        List.take_of_length_le hle]
    · rfl

theorem of_mem_dropTarget {l' : List (Path ω)} (h : dropTarget npi l = some l') {p : Path ω}
    (hp : p ∈ l') : p ∈ l := by
  induction l generalizing l' with
  | nil =>
    cases h
    exact hp
  | cons pi l ih =>
    rw [dropTarget] at h
    split_ifs at h
    · obtain ⟨l'', hl'', rfl⟩ := Option.map_eq_some_iff.mp h
      obtain rfl | hp := List.mem_cons.mp hp
      · exact List.mem_cons_self
      · exact List.mem_cons_of_mem pi (ih hl'' hp)
    · cases h
      exact List.mem_cons_of_mem pi hp

theorem of_mem_insert {p : Path ω} (hp : p ∈ (b.insert npi).1.paths) : p = npi ∨ p ∈ b.paths := by
  unfold insert at hp
  cases hdrop : dropTarget npi b.paths with
  | none =>
    rw [hdrop] at hp
    exact .inr hp
  | some paths =>
    rw [hdrop] at hp
    dsimp only at hp
    split_ifs at hp
    · exact .inr (of_mem_dropTarget hdrop hp)
    · obtain rfl | hp := Priority.mem_insertBehind.mp (List.mem_of_mem_take hp)
      · exact .inl rfl
      · exact .inr (of_mem_dropTarget hdrop hp)

end Bucket

/-! ## Routers -/

/-- The buckets of a node, by affinity. -/
structure Router (ω : Type*) where
  id : NodeId
  buckets : List (Bucket ω) := []

namespace Router

/-- The buckets up to the affinity `aff` are made. -/
def grow (r : Router ω) (aff : ℕ) : Router ω :=
  { r with buckets := r.buckets ++ List.replicate (aff + 1 - r.buckets.length) {} }

/-- A bucket, empty if it was not made. -/
def bucketAt (r : Router ω) (aff : ℕ) : Bucket ω := r.buckets.getD aff {}

def affinityWith (r : Router ω) (otherId : NodeId) : ℕ := affinity r.id otherId

/-- `Router::insertPath`. -/
def insertPath (r : Router ω) (p : Path ω) : Router ω × Bool :=
  let aff := r.affinityWith p.targetId
  let r := r.grow aff
  let (b, accepted) := (r.bucketAt aff).insert p
  ({ r with buckets := r.buckets.set aff b }, accepted)

/-- The loop of `pathTo`. -/
def findPath [Zero ω] (id targid : NodeId) : List (Path ω) → Option (Path ω)
  | [] => some .null
  | p :: paths =>
    if p.originId ≠ id then none
    else if p.targetId = targid then some p
    else findPath id targid paths

/-- `Router::pathTo`: the path to a node, or no path; `none` is a failed assertion. -/
def pathTo [Zero ω] (r : Router ω) (targid : NodeId) : Option (Path ω) :=
  let bn := r.affinityWith targid
  if r.buckets.length ≤ bn then some .null else findPath r.id targid (r.bucketAt bn).paths

variable {r : Router ω} {p : Path ω} {i : ℕ} {P : Path ω → Prop}

omit [LinearOrder ω] in
theorem grow_bucketAt (aff : ℕ) : (r.grow aff).bucketAt i = r.bucketAt i := by
  unfold bucketAt grow
  dsimp only
  rw [List.getD_eq_getElem?_getD, List.getD_eq_getElem?_getD]
  by_cases hi : i < r.buckets.length
  · rw [List.getElem?_append_left hi]
  · rw [List.getElem?_append_right (not_lt.mp hi), List.getElem?_replicate,
      List.getElem?_eq_none (not_lt.mp hi)]
    split_ifs <;> rfl

omit [LinearOrder ω] in
theorem length_grow (aff : ℕ) : (r.grow aff).buckets.length = max r.buckets.length (aff + 1) := by
  simp only [grow, List.length_append, List.length_replicate]
  omega

theorem insertPath_bucketAt : (r.insertPath p).1.bucketAt i =
    if r.affinityWith p.targetId = i then ((r.bucketAt i).insert p).1 else r.bucketAt i := by
  unfold insertPath
  dsimp only
  rw [grow_bucketAt, bucketAt, List.getD_eq_getElem?_getD, List.getElem?_set]
  split_ifs with h1 h2
  · subst h1
    rfl
  · exact absurd h2 (by rw [h1, length_grow]; omega)
  · rw [← List.getD_eq_getElem?_getD]
    exact grow_bucketAt _

theorem length_insertPath : (r.insertPath p).1.buckets.length =
    max r.buckets.length (r.affinityWith p.targetId + 1) := by
  unfold insertPath
  dsimp only
  rw [List.length_set, length_grow]

/-- The buckets hold the nearest of the paths `P`. -/
def Holds (P : Path ω → Prop) (r : Router ω) : Prop :=
  ∀ i, Nearest Path.targetId Path.weight bucketSize
    (fun p => P p ∧ r.affinityWith p.targetId = i) (r.bucketAt i).paths

theorem holds_new (id : NodeId) : Holds (fun _ => False) ({ id := id } : Router ω) :=
  fun _ => Nearest.nil.congr fun _ => ⟨False.elim, And.left⟩

/-- **The buckets hold the nearest paths** after another insertion. -/
theorem Holds.insertPath (h : Holds P r) : Holds (fun q => q = p ∨ P q) (r.insertPath p).1 := by
  intro i
  have hi := h i
  change Nearest _ _ _ (fun q => (q = p ∨ P q) ∧ r.affinityWith q.targetId = i) _
  rw [insertPath_bucketAt]
  split_ifs with haff
  · rw [Bucket.insert_eq hi.keys hi.size]
    refine hi.improve.congr fun q => ⟨?_, ?_⟩
    · rintro (rfl | ⟨hq, hqi⟩)
      · exact ⟨.inl rfl, haff⟩
      · exact ⟨.inr hq, hqi⟩
    · rintro ⟨rfl | hq, hqi⟩
      · exact .inl rfl
      · exact .inr ⟨hq, hqi⟩
  · refine hi.congr fun q => ⟨fun ⟨hq, hqi⟩ => ⟨.inr hq, hqi⟩, ?_⟩
    rintro ⟨rfl | hq, hqi⟩
    · exact absurd hqi haff
    · exact ⟨hq, hqi⟩

omit [LinearOrder ω] in
theorem findPath_eq [Zero ω] {id targid : NodeId} {l : List (Path ω)}
    (h : ∀ p ∈ l, p.originId = id) : ∃ p, findPath id targid l = some p ∧
      (p ∈ l ∧ p.targetId = targid ∨ p = .null ∧ ∀ q ∈ l, q.targetId ≠ targid) := by
  induction l with
  | nil => exact ⟨_, rfl, .inr ⟨rfl, nofun⟩⟩
  | cons q l ih =>
    obtain ⟨hq, h⟩ := List.forall_mem_cons.mp h
    rw [findPath, if_neg (not_not.mpr hq)]
    by_cases ht : q.targetId = targid
    · exact ⟨q, if_pos ht, .inl ⟨List.mem_cons_self, ht⟩⟩
    · rw [if_neg ht]
      obtain ⟨p, hp, hin | ⟨hnull, hall⟩⟩ := ih h
      · exact ⟨p, hp, .inl ⟨List.mem_cons_of_mem q hin.1, hin.2⟩⟩
      · exact ⟨p, hp, .inr ⟨hnull, List.forall_mem_cons.mpr ⟨ht, hall⟩⟩⟩

omit [LinearOrder ω] in
theorem pathTo_eq [Zero ω] (targid : NodeId)
    (h : ∀ p ∈ (r.bucketAt (r.affinityWith targid)).paths, p.originId = r.id) :
    ∃ p, r.pathTo targid = some p ∧
      (p ∈ (r.bucketAt (r.affinityWith targid)).paths ∧ p.targetId = targid ∨
        p = .null ∧ ∀ q ∈ (r.bucketAt (r.affinityWith targid)).paths, q.targetId ≠ targid) := by
  unfold pathTo
  dsimp only
  split_ifs with hlen
  · refine ⟨_, rfl, .inr ⟨rfl, fun q hq => ?_⟩⟩
    rw [bucketAt, List.getD_eq_getElem?_getD, List.getElem?_eq_none hlen] at hq
    cases hq
  · exact findPath_eq h

/-- A table after the insertion of some paths. -/
def insertPaths (r : Router ω) (ps : List (Path ω)) : Router ω :=
  ps.foldl (fun r p => (r.insertPath p).1) r

theorem insertPaths_id (ps : List (Path ω)) : (r.insertPaths ps).id = r.id := by
  induction ps generalizing r with
  | nil => rfl
  | cons p ps ih => exact ih

theorem Holds.insertPaths {ps : List (Path ω)} (h : Holds P r) :
    Holds (fun q => q ∈ ps ∨ P q) (r.insertPaths ps) := by
  induction ps generalizing r P with
  | nil =>
    intro i
    exact (h i).congr fun q => by simp [Router.insertPaths]
  | cons p ps ih =>
    intro i
    refine (ih h.insertPath i).congr fun q => ?_
    simp only [List.mem_cons]
    tauto

end Router

/-- **The nearest paths.** However many paths were found and in whatever order, each bucket has at
most five paths, sorted by weight, to different targets of its affinity, each the shortest that was
found to its target; of the other targets only paths no shorter than five of these were found. The
search for a target finds the path of the bucket to it, and no path only if the bucket has none. -/
theorem nearest_paths [Zero ω] (id : NodeId) (ps : List (Path ω))
    (horigin : ∀ p ∈ ps, p.originId = id) :
    (∀ i, let paths := ((Router.insertPaths { id := id } ps).bucketAt i).paths
      paths.Pairwise (fun p q => p.weight ≤ q.weight) ∧ (paths.map Path.targetId).Nodup ∧
      paths.length ≤ bucketSize ∧
      (∀ p ∈ paths, p ∈ ps ∧ affinity id p.targetId = i ∧
        ∀ q ∈ ps, q.targetId = p.targetId → p.weight ≤ q.weight) ∧
      ∀ q ∈ ps, affinity id q.targetId = i → (∃ p ∈ paths, p.targetId = q.targetId) ∨
        paths.length = bucketSize ∧ ∀ p ∈ paths, p.weight ≤ q.weight) ∧
    ∀ targid, ∃ p, (Router.insertPaths { id := id } ps).pathTo targid = some p ∧
      let paths := ((Router.insertPaths { id := id } ps).bucketAt (affinity id targid)).paths
      (p ∈ paths ∧ p ∈ ps ∧ p.targetId = targid ∧
          (∀ q ∈ ps, q.targetId = targid → p.weight ≤ q.weight) ∨
        p = .null ∧ (∀ p' ∈ paths, p'.targetId ≠ targid) ∧ ∀ q ∈ ps, q.targetId = targid →
          paths.length = bucketSize ∧ ∀ p' ∈ paths, p'.weight ≤ q.weight) := by
  have hh : Router.Holds (fun q => q ∈ ps ∨ False) (Router.insertPaths { id := id } ps) :=
    (Router.holds_new id).insertPaths
  have hid : (Router.insertPaths { id := id } ps : Router ω).id = id := Router.insertPaths_id ps
  generalize Router.insertPaths { id := id } ps = r at hh hid
  subst hid
  have hlight : ∀ i, ∀ p ∈ (r.bucketAt i).paths, ∀ q ∈ ps, q.targetId = p.targetId →
      p.weight ≤ q.weight := fun i p hp q hq ht => by
    refine (hh i).weight_le hp ⟨.inl hq, ?_⟩ ht.symm
    rw [ht]
    exact ((hh i).offered p hp).2
  have hmem : ∀ i, ∀ p ∈ (r.bucketAt i).paths, p ∈ ps := fun i p hp =>
    ((hh i).offered p hp).1.resolve_right id
  refine ⟨fun i => ⟨(hh i).sorted, (hh i).keys, (hh i).size, fun p hp =>
    ⟨hmem i p hp, ((hh i).offered p hp).2, hlight i p hp⟩, fun q hq hqi => ?_⟩, fun targid => ?_⟩
  · obtain ⟨p, hp, ht, -⟩ | hfull := (hh i).nearest q ⟨.inl hq, hqi⟩
    · exact .inl ⟨p, hp, ht⟩
    · exact .inr hfull
  · obtain ⟨p, hp, ⟨hin, rfl⟩ | ⟨hnull, hall⟩⟩ := r.pathTo_eq targid
      fun p hp => horigin p (hmem _ p hp)
    · exact ⟨p, hp, .inl ⟨hin, hmem _ p hin, rfl, hlight _ p hin⟩⟩
    · refine ⟨p, hp, .inr ⟨hnull, hall, fun q hq ht => ?_⟩⟩
      obtain ⟨p', hp', ht', -⟩ | hfull := (hh (r.affinityWith targid)).nearest q
        ⟨.inl hq, by rw [ht]⟩
      · exact absurd (ht'.trans ht) (hall p' hp')
      · exact hfull

/-- Six nodes of one affinity, and a shorter path to the third of them: its bucket is full, and the
shorter path is found. -/
theorem nearest_paths_full :
    ∃ p : Path ℕ, (Router.insertPaths { id := [0] } [⟨[0], [⟨1, [128]⟩], 3, 0⟩,
        ⟨[0], [⟨1, [129]⟩], 4, 0⟩, ⟨[0], [⟨1, [130]⟩], 9, 0⟩, ⟨[0], [⟨1, [131]⟩], 5, 0⟩,
        ⟨[0], [⟨1, [132]⟩], 6, 0⟩, ⟨[0], [⟨1, [133]⟩], 8, 0⟩,
        ⟨[0], [⟨2, [130]⟩], 7, 0⟩]).pathTo [130] = some p ∧
      p.targetId = [130] ∧ p.weight ≤ 7 := by
  obtain ⟨p, hp, ⟨-, -, ht, hle⟩ | ⟨-, hnone, -⟩⟩ := (nearest_paths [0] [⟨[0], [⟨1, [128]⟩], 3, 0⟩,
    ⟨[0], [⟨1, [129]⟩], 4, 0⟩, ⟨[0], [⟨1, [130]⟩], 9, 0⟩, ⟨[0], [⟨1, [131]⟩], 5, 0⟩,
    ⟨[0], [⟨1, [132]⟩], 6, 0⟩, ⟨[0], [⟨1, [133]⟩], 8, 0⟩, ⟨[0], [⟨2, [130]⟩], 7, 0⟩]
    (by decide)).2 [130]
  · exact ⟨p, hp, ht, hle ⟨[0], [⟨2, [130]⟩], 7, 0⟩ (by simp) rfl⟩
  · exact absurd rfl
      (List.forall_mem_map (P := fun t => t ≠ [130]) |>.mpr hnone [130] (by decide +kernel))

end Sst.Route
