import Sst.Lib.Priority
import Mathlib.Order.Lattice

/-!
# Tables of the nearest

A table of at most `k` entries in the order of their weights, one for each key.

* `improve key weight k a l`: offer the entry `a` to the table `l`.
* `Nearest key weight k P l`: the table holds the nearest of the entries `P` that were offered.
* **`Nearest.improve`**: it still does after another offer.
* `Nearest.weight_le`: the entry of a key is the lightest that was offered for it.
-/

namespace Best

variable {α κ ω : Type*} [DecidableEq κ] [LinearOrder ω] (key : α → κ) (weight : α → ω) (k : ℕ)

/-- Whether there is an entry of the key of `a` that is as light. -/
def Beaten (a : α) (l : List α) : Prop := ∃ b ∈ l, key b = key a ∧ weight b ≤ weight a

instance (a : α) (l : List α) : Decidable (Beaten key weight a l) :=
  inferInstanceAs (Decidable (∃ b ∈ l, key b = key a ∧ weight b ≤ weight a))

/-- The table with `a` in the place of the entry of its key, behind those that are as light. -/
def place (a : α) (l : List α) : List α :=
  Priority.insertBehind (fun b => weight b ≤ weight a) a (l.filter fun b => key b ≠ key a)

/-- Offer `a`: it is turned down if it is beaten. -/
def improve (a : α) (l : List α) : List α :=
  if Beaten key weight a l then l else (place key weight a l).take k

/-- The table `l` holds the nearest of the entries `P`. -/
structure Nearest (P : α → Prop) (l : List α) : Prop where
  sorted : l.Pairwise fun a b => weight a ≤ weight b
  keys : (l.map key).Nodup
  size : l.length ≤ k
  offered : ∀ a ∈ l, P a
  nearest : ∀ a, P a → Beaten key weight a l ∨ l.length = k ∧ ∀ b ∈ l, weight b ≤ weight a

variable {key weight k} {P : α → Prop} {a b : α} {l : List α}

omit [DecidableEq κ] in
theorem Nearest.nil : Nearest key weight k (fun _ => False) [] where
  sorted := .nil
  keys := List.nodup_nil
  size := Nat.zero_le k
  offered := nofun
  nearest _ h := h.elim

theorem mem_place : b ∈ place key weight a l ↔ b = a ∨ b ∈ l ∧ key b ≠ key a := by
  simp [place]

theorem perm_place : (place key weight a l).Perm (a :: l.filter fun b => key b ≠ key a) := by
  unfold place Priority.insertBehind
  refine List.perm_middle.trans ?_
  rw [List.takeWhile_append_dropWhile]

theorem sorted_place (h : l.Pairwise fun a b => weight a ≤ weight b) :
    (place key weight a l).Pairwise fun a b => weight a ≤ weight b := by
  refine Priority.pairwise_insertBehind (h.sublist List.filter_sublist) ?_ ?_ ?_
  · intro b _ hb
    exact of_decide_eq_true hb
  · intro b _ hb
    exact (lt_of_not_ge (of_decide_eq_false hb)).le
  · refine (h.sublist List.filter_sublist).imp fun {c d} hcd hd => ?_
    simp only [decide_eq_true_eq] at hd ⊢
    exact hcd.trans hd

theorem keys_place (h : (l.map key).Nodup) : ((place key weight a l).map key).Nodup := by
  rw [(perm_place.map key).nodup_iff, List.map_cons, List.nodup_cons]
  refine ⟨fun hmem => ?_, h.sublist (List.filter_sublist.map key)⟩
  obtain ⟨b, hb, heq⟩ := List.mem_map.mp hmem
  simp [heq] at hb

theorem length_place (h : (l.map key).Nodup) : l.length ≤ (place key weight a l).length := by
  rw [perm_place.length_eq, List.length_cons]
  induction l with
  | nil => simp
  | cons b l ih =>
    obtain ⟨hb, h⟩ := List.nodup_cons.mp h
    by_cases hk : key b = key a
    · have hall : l.filter (fun c => key c ≠ key a) = l := by
        refine List.filter_eq_self.mpr fun c hc => ?_
        simpa using fun heq : key c = key a => hb (List.mem_map.mpr ⟨c, hc, heq.trans hk.symm⟩)
      rw [List.filter_cons_of_neg (by simp [hk]), hall, List.length_cons]
    · rw [List.filter_cons_of_pos (by simp [hk]), List.length_cons, List.length_cons]
      exact Nat.succ_le_succ (ih h)

/-- What a sorted table loses is not nearer than what it keeps. -/
theorem mem_take_or (h : l.Pairwise fun a b => weight a ≤ weight b) (hb : b ∈ l) :
    b ∈ l.take k ∨ (l.take k).length = k ∧ ∀ c ∈ l.take k, weight c ≤ weight b := by
  rw [← List.take_append_drop k l] at h hb
  obtain ⟨-, -, hle⟩ := List.pairwise_append.mp h
  obtain hb | hb := List.mem_append.mp hb
  · exact .inl hb
  · refine .inr ⟨?_, fun c hc => hle c hc b hb⟩
    have hpos := List.length_pos_of_mem hb
    rw [List.length_drop] at hpos
    rw [List.length_take]
    omega

namespace Nearest

omit [DecidableEq κ] in
/-- The entry of a key is the lightest that was offered for it. -/
theorem weight_le (h : Nearest key weight k P l) (hb : b ∈ l) (ha : P a) (hk : key b = key a) :
    weight b ≤ weight a := by
  obtain ⟨c, hc, hck, hle⟩ | ⟨-, hall⟩ := h.nearest a ha
  · have heq : c = b := List.inj_on_of_nodup_map h.keys hc hb (hck.trans hk.symm)
    exact heq ▸ hle
  · exact hall b hb

/-- Whatever is placed in the table is near enough, or the table is full of nearer ones. -/
theorem of_placed (h : Nearest key weight k P l) (hb : b ∈ place key weight a l) {c : α}
    (hk : key b = key c) (hle : weight b ≤ weight c) :
    Beaten key weight c ((place key weight a l).take k) ∨
      ((place key weight a l).take k).length = k ∧
        ∀ d ∈ (place key weight a l).take k, weight d ≤ weight c := by
  obtain hin | ⟨hlen, hall⟩ := mem_take_or (sorted_place h.sorted) hb
  · exact .inl ⟨b, hin, hk, hle⟩
  · exact .inr ⟨hlen, fun d hd => (hall d hd).trans hle⟩

theorem lighter (h : Nearest key weight k P l) (hbeaten : ¬Beaten key weight a l)
    (hfull : l.length = k) (ha : a ∈ (place key weight a l).take k) :
    ∃ c ∈ l, weight a ≤ weight c := by
  by_cases hk : ∃ c ∈ l, key c = key a
  · obtain ⟨c, hc, hck⟩ := hk
    exact ⟨c, hc, (lt_of_not_ge fun hle => hbeaten ⟨c, hc, hck, hle⟩).le⟩
  · have hall : l.filter (fun c => key c ≠ key a) = l :=
      List.filter_eq_self.mpr fun c hc => by simpa using fun heq => hk ⟨c, hc, heq⟩
    have hperm : (place key weight a l).Perm (a :: l) := by
      refine perm_place.trans ?_
      rw [hall]
    -- One entry is lost, and it is not `a`.
    obtain ⟨z, hz⟩ : ∃ z, z ∈ (place key weight a l).drop k := by
      refine List.exists_mem_of_length_pos ?_
      rw [List.length_drop, hperm.length_eq, List.length_cons]
      omega
    have hsplit := List.take_append_drop k (place key weight a l)
    have hnd : (place key weight a l).Nodup := (keys_place h.keys).of_map
    have hs : (place key weight a l).Pairwise fun a b => weight a ≤ weight b :=
      sorted_place h.sorted
    rw [← hsplit] at hnd hs
    have hza : z ≠ a := fun heq => (List.nodup_append.mp hnd).2.2 a ha z hz heq.symm
    have hzl : z ∈ l := by
      obtain heq | hzl := mem_place.mp (List.mem_of_mem_drop hz)
      · exact absurd heq hza
      · exact hzl.1
    exact ⟨z, hzl, (List.pairwise_append.mp hs).2.2 a ha z hz⟩

/-- **The table holds the nearest entries** after another offer. -/
theorem improve (h : Nearest key weight k P l) :
    Nearest key weight k (fun b => b = a ∨ P b) (improve key weight k a l) := by
  unfold Best.improve
  split_ifs with hbeaten
  · refine ⟨h.sorted, h.keys, h.size, fun b hb => .inr (h.offered b hb), ?_⟩
    rintro b (rfl | hb)
    · exact .inl hbeaten
    · exact h.nearest b hb
  refine ⟨(sorted_place h.sorted).sublist (List.take_sublist ..),
    (keys_place h.keys).sublist ((List.take_sublist ..).map key), List.length_take_le .., ?_, ?_⟩
  · intro b hb
    obtain rfl | ⟨hb, -⟩ := mem_place.mp (List.mem_of_mem_take hb)
    · exact .inl rfl
    · exact .inr (h.offered b hb)
  have hmem : a ∈ place key weight a l := mem_place.mpr (.inl rfl)
  rintro b (rfl | hb)
  · exact h.of_placed hmem rfl le_rfl
  obtain ⟨c, hc, hck, hle⟩ | ⟨hfull, hall⟩ := h.nearest b hb
  · by_cases hca : key c = key a
    · have hlt : weight a < weight c := lt_of_not_ge fun hle => hbeaten ⟨c, hc, hca, hle⟩
      exact h.of_placed hmem (hca.symm.trans hck) (hlt.le.trans hle)
    · exact h.of_placed (mem_place.mpr (.inr ⟨hc, hca⟩)) hck hle
  · refine .inr ⟨?_, fun d hd => ?_⟩
    · have : l.length ≤ (place key weight a l).length := length_place h.keys
      rw [List.length_take]
      omega
    · obtain rfl | ⟨hdl, -⟩ := mem_place.mp (List.mem_of_mem_take hd)
      · obtain ⟨c, hc, hle⟩ := h.lighter hbeaten hfull hd
        exact hle.trans (hall c hc)
      · exact hall d hdl

omit [DecidableEq κ] in
theorem congr {Q : α → Prop} (h : Nearest key weight k P l) (heq : ∀ a, P a ↔ Q a) :
    Nearest key weight k Q l :=
  ⟨h.sorted, h.keys, h.size, fun a ha => (heq a).mp (h.offered a ha),
    fun a ha => h.nearest a ((heq a).mpr ha)⟩

end Nearest

end Best
