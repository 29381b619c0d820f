import Mathlib.Algebra.GroupWithZero.Nat
import Mathlib.Algebra.Order.Group.Nat
import Mathlib.Algebra.Order.BigOperators.Group.List
import Mathlib.Data.List.TakeWhile

/-!
# Framing by marks

A byte stream comes in pieces; some pieces carry a mark that ends a message. A piece is given by
its size and its mark, and a message without bytes does not count.

* `messages o l`: the sizes of the messages, when `o` bytes of a message are open already.
* `rest o l`: the bytes left open.
* `Clean o l`: no mark without bytes ends an open message before more bytes.
* **`messages_solid`**: in a clean stream the pieces without bytes matter at the end only.
* **`messages_merge`**: elsewhere a lost mark merges two messages.
* `Grouped q o l`: a queue of pieces `l` holds the messages `q` and `o` open bytes.
-/

namespace Framing

/-- The sizes of the messages. -/
def messages (o : ℕ) : List (ℕ × Bool) → List ℕ
  | [] => []
  | (n, true) :: l => if 0 < o + n then (o + n) :: messages 0 l else messages 0 l
  | (n, false) :: l => messages (o + n) l

/-- The bytes left open. -/
def rest (o : ℕ) : List (ℕ × Bool) → ℕ
  | [] => o
  | (_, true) :: l => rest 0 l
  | (n, false) :: l => rest (o + n) l

/-- A mark without bytes finds no open message, or no bytes follow it. -/
def Clean (o : ℕ) : List (ℕ × Bool) → Prop
  | [] => True
  | (n, m) :: l => (n = 0 → m = true → o = 0 ∨ ∀ x ∈ l, x.1 = 0) ∧ Clean (rest o [(n, m)]) l

/-- The total size. -/
def size (l : List (ℕ × Bool)) : ℕ := (l.map Prod.fst).sum

/-- The pieces with bytes. -/
def solid (l : List (ℕ × Bool)) : List (ℕ × Bool) := l.filter fun x => 0 < x.1

@[simp] theorem messages_nil (o : ℕ) : messages o [] = [] := rfl

@[simp] theorem rest_nil (o : ℕ) : rest o [] = o := rfl

theorem messages_cons (o : ℕ) (x : ℕ × Bool) (l : List (ℕ × Bool)) :
    messages o (x :: l) = messages o [x] ++ messages (rest o [x]) l := by
  obtain ⟨n, _ | _⟩ := x
  · rfl
  · simp only [messages, rest]
    split_ifs <;> rfl

theorem rest_cons (o : ℕ) (x : ℕ × Bool) (l : List (ℕ × Bool)) :
    rest o (x :: l) = rest (rest o [x]) l := by
  obtain ⟨n, _ | _⟩ := x <;> rfl

theorem messages_append (o : ℕ) (l₁ l₂ : List (ℕ × Bool)) :
    messages o (l₁ ++ l₂) = messages o l₁ ++ messages (rest o l₁) l₂ := by
  induction l₁ generalizing o with
  | nil => rfl
  | cons x l₁ ih => rw [List.cons_append, messages_cons, ih, messages_cons o x l₁, rest_cons o x l₁,
      List.append_assoc]

theorem rest_append (o : ℕ) (l₁ l₂ : List (ℕ × Bool)) :
    rest o (l₁ ++ l₂) = rest (rest o l₁) l₂ := by
  induction l₁ generalizing o with
  | nil => rfl
  | cons x l₁ ih => rw [List.cons_append, rest_cons, ih, rest_cons o x l₁]

/-- Every byte is in a message or left open. -/
theorem sum_messages (o : ℕ) (l : List (ℕ × Bool)) :
    (messages o l).sum + rest o l = o + size l := by
  induction l generalizing o with
  | nil => simp [size]
  | cons x l ih =>
    obtain ⟨n, _ | _⟩ := x
    · have := ih (o + n)
      simp only [messages, rest, size, List.map_cons, List.sum_cons] at this ⊢
      omega
    · have := ih 0
      simp only [messages, rest, size, List.map_cons, List.sum_cons] at this ⊢
      split_ifs
      · rw [List.sum_cons]
        omega
      · omega

theorem size_eq_zero {l : List (ℕ × Bool)} : size l = 0 ↔ ∀ x ∈ l, x.1 = 0 := by
  rw [size, List.sum_eq_zero_iff, List.forall_mem_map]

theorem size_solid (l : List (ℕ × Bool)) : size (solid l) = size l := by
  induction l with
  | nil => rfl
  | cons x l ih =>
    rw [solid, List.filter_cons]
    split_ifs with h
    · exact congrArg (x.1 + ·) ih
    · have hx : x.1 = 0 := by simpa using h
      exact ih.trans (by rw [size, size, List.map_cons, List.sum_cons, hx, Nat.zero_add])

theorem size_append (l₁ l₂ : List (ℕ × Bool)) : size (l₁ ++ l₂) = size l₁ + size l₂ := by
  rw [size, List.map_append, List.sum_append, size, size]

/-! ## Cutting a piece -/

section Cut

variable {l : List (ℕ × Bool)}

/-- A piece cut into several, with the mark on the last one. -/
theorem messages_cut (hl : ∀ x ∈ l, 0 < x.1 ∧ x.2 = false) (o n : ℕ) (m : Bool) :
    messages o (l ++ [(n, m)]) = messages o [(size l + n, m)] ∧
      rest o (l ++ [(n, m)]) = rest o [(size l + n, m)] := by
  induction l generalizing o with
  | nil => rw [size, List.map_nil, List.sum_nil, Nat.zero_add]; exact ⟨rfl, rfl⟩
  | cons x l ih =>
    obtain ⟨k, b⟩ := x
    obtain ⟨⟨hx, hm⟩, hl'⟩ := List.forall_mem_cons.mp hl
    cases hm
    obtain ⟨h1, h2⟩ := ih hl' (o + k)
    have hs : size ((k, false) :: l) = k + size l := rfl
    rw [List.cons_append, messages_cons, rest_cons, hs]
    refine ⟨h1.trans ?_, h2.trans ?_⟩ <;> cases m <;> simp only [messages, rest, Nat.add_assoc]

theorem clean_cut (hl : ∀ x ∈ l, 0 < x.1 ∧ x.2 = false) (o : ℕ) {n : ℕ} (hn : n = 0 → l = [])
    (m : Bool) (l' : List (ℕ × Bool)) :
    Clean o (l ++ (n, m) :: l') ↔ Clean o ((size l + n, m) :: l') := by
  induction l generalizing o with
  | nil => rw [size, List.map_nil, List.sum_nil, Nat.zero_add]; rfl
  | cons x l ih =>
    obtain ⟨k, b⟩ := x
    obtain ⟨⟨hx, hm⟩, hl'⟩ := List.forall_mem_cons.mp hl
    have hn0 : n ≠ 0 := fun h => nomatch hn h
    cases hm
    have hs : size ((k, false) :: l) = k + size l := rfl
    rw [List.cons_append, Clean, ih hl' _ (fun h => absurd h hn0), Clean, Clean, hs]
    have hr : rest (rest o [(k, false)]) [(size l + n, m)] = rest o [(k + size l + n, m)] := by
      cases m <;> simp only [rest, Nat.add_assoc]
    rw [hr]
    exact ⟨fun h => ⟨fun h' => by omega, h.2.2⟩,
      fun h => ⟨fun _ h' => absurd h' Bool.false_ne_true, fun h' => by omega, h.2⟩⟩

end Cut

/-! ## Pieces without bytes -/

section Empty

variable {o : ℕ} {l : List (ℕ × Bool)}

theorem solid_eq_nil (h : ∀ x ∈ l, x.1 = 0) : solid l = [] :=
  List.filter_eq_nil_iff.mpr fun x hx => by simp [h x hx]

theorem messages_empty (h : ∀ x ∈ l, x.1 = 0) : messages 0 l = [] ∧ rest 0 l = 0 := by
  induction l with
  | nil => exact ⟨rfl, rfl⟩
  | cons x l ih =>
    obtain ⟨hx, hl⟩ := List.forall_mem_cons.mp h
    obtain ⟨n, _ | _⟩ := x <;> cases hx <;> exact ih hl

/-- **A clean stream without its empty pieces** has the same messages, but for a mark at the end
that carries no bytes. -/
theorem messages_solid (h : Clean o l) :
    messages o l = messages o (solid l) ∧ rest o l = rest o (solid l) ∨
      messages o l = messages o (solid l) ++ [rest o (solid l)] ∧ rest o l = 0 ∧
        0 < rest o (solid l) ∧ ∃ l₁ l₂, l = l₁ ++ (0, true) :: l₂ ∧ ∀ x ∈ l₂, x.1 = 0 := by
  induction l generalizing o with
  | nil => exact .inl ⟨rfl, rfl⟩
  | cons x l ih =>
    obtain ⟨n, m⟩ := x
    obtain ⟨h1, h2⟩ := h
    by_cases hn : n = 0
    · subst hn
      have hs : solid ((0, m) :: l) = solid l := List.filter_cons_of_neg (by simp)
      rw [hs]
      cases m with
      | false =>
        rcases ih h2 with h3 | ⟨h3, h4, h5, l₁, l₂, h6, h7⟩
        · exact .inl h3
        · exact .inr ⟨h3, h4, h5, (0, false) :: l₁, l₂, by rw [h6]; rfl, h7⟩
      | true =>
        rcases h1 rfl rfl with rfl | h1
        · rcases ih h2 with h3 | ⟨h3, h4, h5, l₁, l₂, h6, h7⟩
          · exact .inl h3
          · exact .inr ⟨h3, h4, h5, (0, true) :: l₁, l₂, by rw [h6]; rfl, h7⟩
        · obtain ⟨h3, h4⟩ := messages_empty h1
          rw [solid_eq_nil h1]
          rcases Nat.eq_zero_or_pos o with rfl | ho
          · exact .inl ⟨h3, h4⟩
          · exact .inr ⟨by simp [messages, ho, h3], h4, ho, [], l, rfl, h1⟩
    · have hs : solid ((n, m) :: l) = (n, m) :: solid l :=
        List.filter_cons_of_pos (by simpa using Nat.pos_of_ne_zero hn)
      rw [hs, messages_cons o (n, m) l, rest_cons o (n, m) l, messages_cons o (n, m) (solid l),
        rest_cons o (n, m) (solid l)]
      rcases ih h2 with ⟨h3, h4⟩ | ⟨h3, h4, h5, l₁, l₂, h6, h7⟩
      · exact .inl ⟨by rw [h3], h4⟩
      · exact .inr ⟨by rw [h3, List.append_assoc], h4, h5, (n, m) :: l₁, l₂, by rw [h6]; rfl, h7⟩

theorem clean_append {l₁ l₂ : List (ℕ × Bool)} (h : Clean o (l₁ ++ l₂)) : Clean (rest o l₁) l₂ := by
  induction l₁ generalizing o with
  | nil => exact h
  | cons x l₁ ih =>
    rw [rest_cons]
    exact ih h.2

theorem Clean.mark {l₁ l₂ : List (ℕ × Bool)} (h : Clean o (l₁ ++ (0, true) :: l₂)) :
    rest o l₁ = 0 ∨ ∀ x ∈ l₂, x.1 = 0 :=
  (clean_append h).1 rfl rfl

/-- Before more bytes the empty pieces of a clean stream change nothing. -/
theorem Clean.rest_solid {l₁ l₂ : List (ℕ × Bool)} (h : Clean o (l₁ ++ l₂))
    (hl : ∃ x ∈ l₂, 0 < x.1) : rest o (solid l₁) = rest o l₁ := by
  induction l₁ generalizing o with
  | nil => rfl
  | cons x l₁ ih =>
    obtain ⟨n, m⟩ := x
    obtain ⟨h1, h2⟩ := h
    have h3 := ih h2
    rw [rest_cons o (n, m) l₁, ← h3]
    by_cases hn : n = 0
    · subst hn
      have hs : solid ((0, m) :: l₁) = solid l₁ := List.filter_cons_of_neg (by simp)
      have ho : rest o [(0, m)] = o := by
        cases m with
        | false => rfl
        | true =>
          obtain ⟨x, hx, hx0⟩ := hl
          rcases h1 rfl rfl with rfl | h1
          · rfl
          · exact absurd (h1 x (List.mem_append_right _ hx)) hx0.ne'
      rw [hs, ho]
    · have hs : solid ((n, m) :: l₁) = (n, m) :: solid l₁ :=
        List.filter_cons_of_pos (by simpa using Nat.pos_of_ne_zero hn)
      rw [hs, rest_cons]

theorem rest_mark {l₁ l₂ : List (ℕ × Bool)} {n : ℕ} (h : ∀ x ∈ l₂, x.1 = 0) :
    rest o (l₁ ++ (n, true) :: l₂) = 0 := by
  rw [rest_append, rest_cons]
  exact (messages_empty h).2

end Empty

/-! ## Lost marks -/

/-- Two open messages that grow alike end alike. -/
theorem length_messages_pos {o o' : ℕ} (ho : 0 < o) (ho' : 0 < o') (l : List (ℕ × Bool)) :
    (messages o l).length = (messages o' l).length := by
  induction l generalizing o o' with
  | nil => rfl
  | cons x l ih =>
    obtain ⟨n, _ | _⟩ := x
    · exact ih (by omega) (by omega)
    · simp only [messages]
      rw [if_pos (by omega), if_pos (by omega), List.length_cons, List.length_cons]

theorem length_messages_le (o : ℕ) (l : List (ℕ × Bool)) :
    (messages o l).length ≤ (messages 0 l).length + 1 := by
  induction l generalizing o with
  | nil => exact Nat.zero_le _
  | cons x l ih =>
    obtain ⟨n, _ | _⟩ := x
    · rcases Nat.eq_zero_or_pos n with rfl | hn
      · exact ih o
      · change (messages (o + n) l).length ≤ (messages (0 + n) l).length + 1
        have hopen : (messages (o + n) l).length = (messages (0 + n) l).length :=
          length_messages_pos (by omega) (by omega) l
        rw [hopen]
        exact Nat.le_succ _
    · simp only [messages]
      split_ifs <;> grind

/-- A piece with bytes ends alike whether or not a message is open. -/
theorem length_messages_cons (o o' : ℕ) {x : ℕ × Bool} (hx : 0 < x.1) (l : List (ℕ × Bool)) :
    (messages o (x :: l)).length = (messages o' (x :: l)).length := by
  obtain ⟨n, _ | _⟩ := x
  · exact length_messages_pos (by omega) (by omega) l
  · simp only [messages]
    rw [if_pos (by omega), if_pos (by omega), List.length_cons, List.length_cons]

/-- A stream that is not clean: a mark `z` without bytes ends an open message, empty pieces
follow, and then the piece `x` with bytes. -/
theorem exists_of_not_clean {o : ℕ} {l : List (ℕ × Bool)} (h : ¬Clean o l) :
    ∃ l₁ l₂ x l₃, l = l₁ ++ (0, true) :: l₂ ++ x :: l₃ ∧ 0 < rest o l₁ ∧ (∀ y ∈ l₂, y.1 = 0) ∧
      0 < x.1 := by
  induction l generalizing o with
  | nil => exact absurd trivial h
  | cons y l ih =>
    obtain ⟨n, m⟩ := y
    by_cases h1 : n = 0 → m = true → o = 0 ∨ ∀ x ∈ l, x.1 = 0
    · obtain ⟨l₁, l₂, x, l₃, rfl, h2, h3, h4⟩ := ih fun h2 => h ⟨h1, h2⟩
      exact ⟨(n, m) :: l₁, l₂, x, l₃, rfl, by rwa [rest_cons], h3, h4⟩
    · push Not at h1
      obtain ⟨rfl, rfl, h2, x, hx, h3⟩ := h1
      obtain ⟨y, hy⟩ := Option.isSome_iff_exists.mp
        (List.find?_isSome.mpr ⟨x, hx, decide_eq_true h3⟩ :
          (l.find? fun x => decide (x.1 ≠ 0)).isSome)
      obtain ⟨h4, l₂, l₃, rfl, h5⟩ := List.find?_eq_some_iff_append.mp hy
      exact ⟨[], l₂, y, l₃, rfl, Nat.pos_of_ne_zero h2, by simpa using h5,
        Nat.pos_of_ne_zero (of_decide_eq_true h4)⟩

/-- **A lost mark merges two messages.** -/
theorem messages_merge (o : ℕ) (l₁ l₂ l₃ : List (ℕ × Bool)) {x : ℕ × Bool} (ho : 0 < rest o l₁)
    (h : ∀ y ∈ l₂, y.1 = 0) (hx : 0 < x.1) :
    (messages o (l₁ ++ (0, true) :: l₂ ++ x :: l₃)).length =
      (messages o (l₁ ++ x :: l₃)).length + 1 := by
  obtain ⟨h1, h2⟩ := messages_empty h
  have hz : messages (rest o l₁) ((0, true) :: l₂) = [rest o l₁] := by
    simp [messages, ho, h1]
  have hr : rest (rest o l₁) ((0, true) :: l₂) = 0 := h2
  rw [messages_append, messages_append, rest_append, hz, hr, messages_append]
  simp only [List.length_append, List.length_cons, List.length_nil]
  rw [length_messages_cons 0 (rest o l₁) hx]
  omega

/-! ## Taking the first piece -/

theorem messages_pos {o n : ℕ} {l : List (ℕ × Bool)} (h : n ∈ messages o l) : 0 < n := by
  induction l generalizing o with
  | nil => cases h
  | cons x l ih =>
    obtain ⟨k, _ | _⟩ := x
    · exact ih h
    · simp only [messages] at h
      split_ifs at h with ho
      · rcases List.mem_cons.mp h with rfl | h
        · exact ho
        · exact ih h
      · exact ih h

/-- With `n` bytes more open, the open bytes or the first message are longer, or, where a mark comes
before any byte, there is one message more. -/
theorem messages_add (n o : ℕ) (l : List (ℕ × Bool)) :
    (messages (n + o) l = [] ∧ messages o l = [] ∧ rest (n + o) l = n + rest o l) ∨
      (∃ h q, 0 < h ∧ messages (n + o) l = (n + h) :: q ∧ messages o l = h :: q ∧
        rest (n + o) l = rest o l) ∨
      (0 < n ∧ messages (n + o) l = n :: messages o l ∧ rest (n + o) l = rest o l) := by
  induction l generalizing o with
  | nil => exact .inl ⟨rfl, rfl, rfl⟩
  | cons x l ih =>
    obtain ⟨k, _ | _⟩ := x
    · have := ih (o + k)
      rwa [← Nat.add_assoc] at this
    · simp only [messages, rest]
      rcases Nat.eq_zero_or_pos (o + k) with ho | ho
      · rcases Nat.eq_zero_or_pos n with rfl | hn
        · rw [Nat.zero_add, if_neg (by omega)]
          cases hm : messages 0 l with
          | nil => exact .inl ⟨rfl, rfl, (Nat.zero_add _).symm⟩
          | cons h q =>
            have hpos : 0 < h := messages_pos (hm ▸ List.mem_cons_self)
            exact .inr (.inl ⟨h, q, hpos, by rw [Nat.zero_add], rfl, trivial⟩)
        · rw [if_pos (by omega), if_neg (by omega), Nat.add_assoc, ho]
          exact .inr (.inr ⟨hn, rfl, trivial⟩)
      · rw [if_pos (by omega), if_pos ho]
        exact .inr (.inl ⟨o + k, _, ho, by rw [Nat.add_assoc], rfl, trivial⟩)

/-- **The first piece leaves**: the open bytes or the first message are shorter, or the first
message is complete. -/
theorem messages_pop (n : ℕ) (m : Bool) (l : List (ℕ × Bool)) :
    (messages 0 ((n, m) :: l) = [] ∧ messages 0 l = [] ∧ rest 0 ((n, m) :: l) = n + rest 0 l) ∨
      (∃ h q, 0 < h ∧ messages 0 ((n, m) :: l) = (n + h) :: q ∧ messages 0 l = h :: q ∧
        rest 0 ((n, m) :: l) = rest 0 l) ∨
      (0 < n ∧ messages 0 ((n, m) :: l) = n :: messages 0 l ∧
        rest 0 ((n, m) :: l) = rest 0 l) := by
  cases m with
  | false =>
    have := messages_add n 0 l
    simpa only [messages, rest, Nat.add_zero, Nat.zero_add] using this
  | true =>
    simp only [messages, rest, Nat.zero_add]
    rcases Nat.eq_zero_or_pos n with rfl | hn
    · have := messages_add 0 0 l
      simpa only [Nat.zero_add, Nat.lt_irrefl, if_false, false_and, or_false] using this
    · rw [if_pos hn]
      exact .inr (.inr ⟨hn, rfl, trivial⟩)

theorem messages_mark {n : ℕ} (hn : 0 < n) {l₁ : List (ℕ × Bool)} (h : ∀ x ∈ l₁, x.1 = 0)
    (l₂ : List (ℕ × Bool)) :
    ∃ q, messages n (l₁ ++ (0, true) :: l₂) = n :: q := by
  induction l₁ with
  | nil => exact ⟨messages 0 l₂, by simp [messages, hn]⟩
  | cons x l₁ ih =>
    obtain ⟨hx, hl⟩ := List.forall_mem_cons.mp h
    obtain ⟨k, _ | _⟩ := x <;> cases hx
    · exact ih hl
    · exact ⟨messages 0 (l₁ ++ (0, true) :: l₂), by simp [messages, hn]⟩

/-! ## Messages in a queue -/

/-- The sizes `l` of the pieces in a queue make up the messages `q`, and `o` bytes are open. -/
def Grouped : List ℕ → ℕ → List ℕ → Prop
  | [], o, l => l.sum = o
  | h :: q, o, l => 0 < h ∧ ∃ l₁ l₂, l = l₁ ++ l₂ ∧ l₁.sum = h ∧ Grouped q o l₂

section Grouped

variable {q l : List ℕ} {o n h : ℕ}

theorem Grouped.sum (hg : Grouped q o l) : q.sum + o = l.sum := by
  induction q generalizing l with
  | nil => rw [List.sum_nil, Nat.zero_add]; exact hg.symm
  | cons h q ih =>
    obtain ⟨-, l₁, l₂, rfl, rfl, h2⟩ := hg
    rw [List.sum_cons, List.sum_append, ← ih h2, Nat.add_assoc]

theorem Grouped.push (hg : Grouped q o l) (n : ℕ) : Grouped q (o + n) (l ++ [n]) := by
  induction q generalizing l with
  | nil =>
    change (l ++ [n]).sum = o + n
    rw [List.sum_append, List.sum_singleton]
    exact congrArg (· + n) hg
  | cons h q ih =>
    obtain ⟨h0, l₁, l₂, rfl, h1, h2⟩ := hg
    exact ⟨h0, l₁, l₂ ++ [n], List.append_assoc .., h1, ih h2⟩

theorem Grouped.mark (hg : Grouped q o l) (ho : 0 < o) : Grouped (q ++ [o]) 0 l := by
  induction q generalizing l with
  | nil => exact ⟨ho, l, [], (List.append_nil l).symm, hg, rfl⟩
  | cons h q ih =>
    obtain ⟨h0, l₁, l₂, rfl, h1, h2⟩ := hg
    exact ⟨h0, l₁, l₂, rfl, h1, ih h2⟩

theorem Grouped.zero (hg : Grouped q o l) : Grouped q o (0 :: l) := by
  cases q with
  | nil =>
    change (0 :: l).sum = o
    rw [List.sum_cons, Nat.zero_add]
    exact hg
  | cons h q =>
    obtain ⟨h0, l₁, l₂, rfl, h1, h2⟩ := hg
    exact ⟨h0, 0 :: l₁, l₂, rfl, by rw [List.sum_cons, Nat.zero_add, h1], h2⟩

theorem Grouped.pop_open (hg : Grouped [] o (n :: l)) : n ≤ o ∧ Grouped [] (o - n) l := by
  change (n :: l).sum = o at hg
  rw [List.sum_cons] at hg
  refine ⟨by omega, ?_⟩
  change l.sum = o - n
  omega

theorem Grouped.pop (hg : Grouped (h :: q) o (n :: l)) :
    n ≤ h ∧ (h = n → Grouped q o l) ∧ (h ≠ n → Grouped ((h - n) :: q) o l) := by
  obtain ⟨h0, l₁, l₂, h1, h2, h3⟩ := hg
  cases l₁ with
  | nil =>
    rw [List.sum_nil] at h2
    omega
  | cons m l₁ =>
    obtain ⟨rfl, rfl⟩ := List.cons_eq_cons.mp h1
    rw [List.sum_cons] at h2
    refine ⟨by omega, fun h4 => ?_, fun h4 => ⟨by omega, l₁, l₂, rfl, by omega, h3⟩⟩
    -- the pieces left of the message are empty
    have hz : ∀ m ∈ l₁, m = 0 := List.sum_eq_zero_iff.mp (by omega)
    clear h1 h2 h4
    induction l₁ with
    | nil => exact h3
    | cons m l₁ ih =>
      obtain ⟨hm, hl⟩ := List.forall_mem_cons.mp hz
      rw [hm]
      exact (ih hl).zero

/-- A piece that begins inside the first message ends there. -/
theorem Grouped.inside {l₁ l₂ : List ℕ} (hg : Grouped (h :: q) o (l₁ ++ n :: l₂))
    (hlt : l₁.sum < h) : l₁.sum + n ≤ h := by
  induction l₁ generalizing h with
  | nil =>
    rw [List.sum_nil, Nat.zero_add]
    exact hg.pop.1
  | cons k l₁ ih =>
    rw [List.sum_cons] at hlt ⊢
    have := ih (hg.pop.2.2 (by omega)) (by omega)
    omega

theorem Grouped.boundary (hg : Grouped q o l) (k : ℕ) : ∃ m, (q.take k).sum = (l.take m).sum := by
  induction q generalizing k l with
  | nil => exact ⟨0, by rw [List.take_nil]; rfl⟩
  | cons h q ih =>
    cases k with
    | zero => exact ⟨0, rfl⟩
    | succ k =>
      obtain ⟨-, l₁, l₂, rfl, rfl, h2⟩ := hg
      obtain ⟨m, hm⟩ := ih h2 k
      refine ⟨l₁.length + m, ?_⟩
      rw [List.take_succ_cons, List.sum_cons, hm, List.take_length_add_append, List.sum_append]

theorem Grouped.pos (hg : Grouped q o l) : ∀ n ∈ q, 0 < n := by
  induction q generalizing l with
  | nil => exact nofun
  | cons h q ih =>
    obtain ⟨h0, l₁, l₂, -, -, h2⟩ := hg
    exact List.forall_mem_cons.mpr ⟨h0, ih h2⟩

end Grouped

end Framing
