import Mathlib.Data.List.DropRight
import Mathlib.Data.List.Nodup
import Mathlib.Data.List.TakeWhile

/-!
# Queues by priority

A queue in which a new element goes behind all that come before it.

* `insertBehind`: insertion behind the leading elements that meet a test.
* **`pairwise_insertBehind`**: it keeps a queue in order.
* `insertAhead`: insertion ahead of the trailing elements that meet a test.
* **`pairwise_insertAhead_iff`**: it keeps a queue in order if and only if the test is right on all
  elements beyond the new one and on the last of the others.
-/

namespace Priority

variable {α : Type*} {R : α → α → Prop} {p : α → Bool} {a b : α} {l : List α}

/-- Insert `a` behind the leading elements that meet `p`. -/
def insertBehind (p : α → Bool) (a : α) (l : List α) : List α :=
  l.takeWhile p ++ a :: l.dropWhile p

@[simp] theorem mem_insertBehind : b ∈ insertBehind p a l ↔ b = a ∨ b ∈ l := by
  conv_rhs => rw [← List.takeWhile_append_dropWhile (p := p) (l := l)]
  simp only [insertBehind, List.mem_append, List.mem_cons]
  tauto

theorem nodup_insertBehind (h : l.Nodup) (ha : a ∉ l) : (insertBehind p a l).Nodup := by
  rw [insertBehind, List.nodup_middle, List.takeWhile_append_dropWhile]
  exact List.nodup_cons.mpr ⟨ha, h⟩

/-- If the test fails once it fails for good, then it fails on all the rest. -/
theorem of_mem_dropWhile (h : l.Pairwise fun c d => p d = true → p c = true)
    (hb : b ∈ l.dropWhile p) : p b = false := by
  induction l with
  | nil => cases hb
  | cons c l ih =>
    obtain ⟨hc, hl⟩ := List.pairwise_cons.mp h
    rw [List.dropWhile_cons] at hb
    split_ifs at hb with hpc
    · exact ih hl hb
    · obtain rfl | hb := List.mem_cons.mp hb
      · exact Bool.eq_false_iff.mpr hpc
      · exact Bool.eq_false_iff.mpr fun h => hpc (hc b hb h)

/-- **Insertion** keeps a queue in order, if the test tells what comes before the new element. -/
theorem pairwise_insertBehind (h : l.Pairwise R) (hp : ∀ b ∈ l, p b = true → R b a)
    (hn : ∀ b ∈ l, p b = false → R a b) (hR : l.Pairwise fun c d => p d = true → p c = true) :
    (insertBehind p a l).Pairwise R := by
  have hsplit := List.takeWhile_append_dropWhile (p := p) (l := l)
  rw [← hsplit] at h
  obtain ⟨h1, h2, h3⟩ := List.pairwise_append.mp h
  refine List.pairwise_append.mpr ⟨h1, List.pairwise_cons.mpr ⟨fun b hb => ?_, h2⟩, ?_⟩
  · exact hn b ((List.dropWhile_suffix p).subset hb) (of_mem_dropWhile hR hb)
  · intro b hb c hc
    obtain rfl | hc := List.mem_cons.mp hc
    · exact hp b ((List.takeWhile_prefix p).subset hb) (List.mem_takeWhile_imp hb)
    · exact h3 b hb c hc

/-! ## Insertion from the end -/

/-- Insert `a` ahead of the trailing elements that meet `p`. -/
def insertAhead (p : α → Bool) (a : α) (l : List α) : List α :=
  l.rdropWhile p ++ a :: l.rtakeWhile p

theorem insertAhead_perm (p : α → Bool) (a : α) (l : List α) :
    (insertAhead p a l).Perm (a :: l) := by
  have h : (insertAhead p a l).Perm (a :: (l.rdropWhile p ++ l.rtakeWhile p)) := List.perm_middle
  rwa [List.rdropWhile_append_rtakeWhile] at h

@[simp] theorem mem_insertAhead : b ∈ insertAhead p a l ↔ b = a ∨ b ∈ l := by
  rw [(insertAhead_perm p a l).mem_iff, List.mem_cons]

theorem sublist_insertAhead (p : α → Bool) (a : α) (l : List α) :
    l.Sublist (insertAhead p a l) := by
  conv_lhs => rw [← List.rdropWhile_append_rtakeWhile (p := p) (l := l)]
  exact (List.Sublist.refl _).append (List.sublist_cons_self ..)

theorem insertAhead_concat_pos (h : p b = true) :
    insertAhead p a (l ++ [b]) = insertAhead p a l ++ [b] := by
  rw [insertAhead, List.rdropWhile_concat_pos _ _ _ h, List.rtakeWhile_concat_pos _ _ _ h,
    insertAhead, List.append_assoc, List.cons_append]

theorem insertAhead_concat_neg (h : p b = false) :
    insertAhead p a (l ++ [b]) = l ++ [b] ++ [a] := by
  have hb : ¬p b = true := by rw [h]; exact Bool.false_ne_true
  rw [insertAhead, List.rdropWhile_concat_neg _ _ _ hb, List.rtakeWhile_concat_neg _ _ _ hb]

/-- **Insertion** keeps a queue in order if and only if the test `p` holds of all elements that
belong behind `a`, those that meet `q`, and fails on the last of the others. -/
theorem pairwise_insertAhead_iff {q : α → Bool} (h : l.Pairwise R)
    (hq : ∀ b ∈ l, q b = true → R a b ∧ ¬R b a) (hn : ∀ b ∈ l, q b = false → R b a ∧ ¬R a b)
    (hm : l.Pairwise fun c d => q c = true → q d = true) :
    (insertAhead p a l).Pairwise R ↔
      (∀ b ∈ l, q b = true → p b = true) ∧
        ∀ b ∈ (l.filter fun c => !q c).getLast?, p b = false := by
  induction l using List.reverseRecOn with
  | nil => simp [insertAhead]
  | append_singleton l b ih =>
    obtain ⟨hl, -, hb⟩ := List.pairwise_append.mp h
    obtain ⟨hml, -, hmb⟩ := List.pairwise_append.mp hm
    have hbl : b ∈ l ++ [b] := by simp
    have hsub : ∀ c ∈ l, c ∈ l ++ [b] := fun c hc => List.mem_append_left _ hc
    have ih := ih hl (fun c hc => hq c (hsub c hc)) (fun c hc => hn c (hsub c hc)) hml
    rcases hqb : q b with _ | _
    · -- Everything comes before `a`, and `b` is the last of it.
      have hall : ∀ c ∈ l ++ [b], q c = false := by
        intro c hc
        rcases List.mem_append.mp hc with hc | hc
        · by_contra hqc
          rw [hmb c hc b (by simp) (by simpa using hqc)] at hqb
          cases hqb
        · rwa [List.mem_singleton.mp hc]
      have hfilter : (l ++ [b]).filter (fun c => !q c) = l ++ [b] :=
        List.filter_eq_self.mpr fun c hc => by rw [hall c hc]; rfl
      rw [hfilter, List.getLast?_concat]
      rcases hpb : p b with _ | _
      · rw [insertAhead_concat_neg hpb]
        refine iff_of_true ?_ ⟨fun c hc hqc => ?_, ?_⟩
        · refine List.pairwise_append.mpr ⟨h, List.pairwise_singleton .., fun c hc d hd => ?_⟩
          rw [List.mem_singleton.mp hd]
          exact (hn c hc (hall c hc)).1
        · rw [hall c hc] at hqc
          cases hqc
        · rintro _ ⟨⟩
          exact hpb
      · refine iff_of_false (fun hp => ?_) fun hp => ?_
        · rw [insertAhead_concat_pos hpb] at hp
          have hab := (List.pairwise_append.mp hp).2.2 a (mem_insertAhead.mpr (.inl rfl)) b
            (by simp)
          exact (hn b hbl hqb).2 hab
        · rw [hp.2 b rfl] at hpb
          cases hpb
    · -- `b` comes behind `a`.
      have hfilter : (l ++ [b]).filter (fun c => !q c) = l.filter fun c => !q c := by
        rw [List.filter_append, List.filter_singleton, hqb]
        exact List.append_nil _
      rw [hfilter]
      rcases hpb : p b with _ | _
      · refine iff_of_false (fun hp => ?_) fun hp => ?_
        · rw [insertAhead_concat_neg hpb] at hp
          exact (hq b hbl hqb).2 ((List.pairwise_append.mp hp).2.2 b hbl a (by simp))
        · rw [hp.1 b hbl hqb] at hpb
          cases hpb
      · rw [insertAhead_concat_pos hpb, List.pairwise_append]
        constructor
        · rintro ⟨hp, -, -⟩
          obtain ⟨h1, h2⟩ := ih.mp hp
          refine ⟨fun c hc hqc => ?_, h2⟩
          rcases List.mem_append.mp hc with hc | hc
          · exact h1 c hc hqc
          · rwa [List.mem_singleton.mp hc]
        · rintro ⟨h1, h2⟩
          refine ⟨ih.mpr ⟨fun c hc => h1 c (hsub c hc), h2⟩, List.pairwise_singleton .., ?_⟩
          intro c hc d hd
          rw [List.mem_singleton.mp hd]
          rcases mem_insertAhead.mp hc with rfl | hc
          · exact (hq b hbl hqb).1
          · exact hb c hc b (by simp)

end Priority
