import Sst.Stream.Reassembly
import Sst.Stream.Write

/-!
# Delivery

The segments of a stream that was written arrive in any order, with losses and duplicates, while
the application reads.

* `content l`: the bytes of the segments `l`.
* `Delivered l D s R L`: the state after the segments `D` arrived.
* **`delivery`**: what was received is the beginning of what was written, and all of it once every
  segment has arrived.
-/

namespace Sst

open Word RxStream

/-- The bytes of some segments. -/
def content (l : List Placed) : List UInt8 := l.flatMap fun x => x.2.buf

/-- The byte at a position. -/
def contentAt (l : List Placed) (n : ℕ) : UInt8 := (content l).getD n 0

theorem content_append (l₁ l₂ : List Placed) : content (l₁ ++ l₂) = content l₁ ++ content l₂ :=
  List.flatMap_append

theorem content_cons (x : Placed) (l : List Placed) : content (x :: l) = x.2.buf ++ content l :=
  List.flatMap_cons

theorem length_content (l : List Placed) : (content l).length = extent l := by
  induction l with
  | nil => rfl
  | cons x l ih => rw [content_cons, List.length_append, extent_cons, ih]

theorem bytes_contentAt {l : List Placed} {l₁ l₂ l₃ : List UInt8}
    (h : content l = l₁ ++ (l₂ ++ l₃)) : bytes (contentAt l) l₁.length l₂.length = l₂ := by
  refine List.ext_getElem (bytes_length ..) fun i h1 h2 => ?_
  simp only [bytes, List.getElem_map, List.getElem_range', one_mul, contentAt]
  rw [h, List.getD_eq_getElem?_getD, List.getElem?_append_right (Nat.le_add_right _ _),
    Nat.add_sub_cancel_left, List.getElem?_append_left h2, List.getElem?_eq_getElem h2]
  rfl

theorem bytes_prefix {l : List Placed} {R : ℕ} (hR : R ≤ extent l) :
    bytes (contentAt l) 0 R = (content l).take R := by
  have hlen : ((content l).take R).length = R := by
    rw [List.length_take, length_content, min_eq_left hR]
  have hsplit : content l = [] ++ ((content l).take R ++ (content l).drop R) := by
    rw [List.nil_append, List.take_append_drop]
  have h := bytes_contentAt hsplit
  rw [hlen] at h
  exact h

theorem carries_content {l : List Placed} {x : Placed} (hl : Consecutive 0 l)
    (hopen : ∀ y ∈ l, y.2.flags.close = false) (hx : x ∈ l) : Carries (contentAt l) x := by
  refine ⟨?_, hopen x hx⟩
  obtain ⟨l₁, l₂, rfl⟩ := List.append_of_mem hx
  have hpos : x.1 = (content l₁).length := by
    rw [length_content, (consecutive_append.mp hl).2.1, Nat.zero_add]
  have hsplit : content (l₁ ++ x :: l₂) = content l₁ ++ (x.2.buf ++ content l₂) := by
    rw [content_append, content_cons]
  rw [hpos]
  exact (bytes_contentAt hsplit).symm

theorem placed_eq {l : List Placed} {x y : Placed} (hl : Consecutive 0 l)
    (hsmall : extent l < 2 ^ 31) (hx : x ∈ l) (hy : y ∈ l) (h : x.2 = y.2) : x = y := by
  have hfx := (hl.fits hx).rsn
  have hfy := (hl.fits hy).rsn
  have hbx := stop_le hl hx
  have hby := stop_le hl hy
  unfold Placed.stop at hbx hby
  rw [h, hfy, wrap_eq_self (by decide) (by omega) (by omega),
    wrap_eq_self (by decide) (by omega) (by omega), Nat.cast_inj] at hfx
  exact Prod.ext hfx.symm h

theorem exists_covers {l : List Placed} {p n : ℕ} (hl : Consecutive p l) (h1 : p ≤ n)
    (h2 : n < p + extent l) : ∃ x ∈ l, x.1 ≤ n ∧ n < x.stop := by
  induction l generalizing p with
  | nil =>
    rw [extent_nil] at h2
    omega
  | cons x l ih =>
    obtain ⟨rfl, -, hl⟩ := hl
    rw [extent_cons] at h2
    by_cases hn : n < x.stop
    · exact ⟨x, List.mem_cons_self, h1, hn⟩
    · obtain ⟨y, hy, hcov⟩ := ih hl (Nat.le_of_not_lt hn) (by unfold Placed.stop; omega)
      exact ⟨y, List.mem_cons_of_mem x hy, hcov⟩

/-- The state after the segments `D` of the stream `l` arrived. -/
structure Delivered (l D : List Placed) (s : RxStream) (R : ℕ) (L : List Placed) : Prop where
  state : Reassembled (contentAt l) s R L
  reached : R ≤ extent l
  ahead : ∀ x ∈ L, x.stop ≤ extent l
  seen : ∀ x ∈ D, x.stop ≤ R ∨ ∃ y ∈ L, y.1 = x.1 ∧ x.stop ≤ y.stop

namespace Delivered

variable {l D : List Placed} {s t : RxStream} {R : ℕ} {L : List Placed} {x : Placed}

/-- **Reception accounts for what has arrived.** -/
theorem handles (N : ℕ) (D : List Placed) : Handles fun _ R L _ => R ≤ N ∧ (∀ x ∈ L, x.stop ≤ N) ∧
    ∀ x ∈ D, x.stop ≤ R ∨ ∃ y ∈ L, y.1 = x.1 ∧ x.stop ≤ y.stop where
  skip s R x L c := by
    rintro ⟨h1, h2, h3⟩ - hst
    refine ⟨h1, fun y hy => h2 y (List.mem_cons_of_mem x hy), fun y hy => ?_⟩
    obtain h | ⟨z, hz, hzy, hle⟩ := h3 y hy
    · exact .inl h
    · obtain rfl | hz := List.mem_cons.mp hz
      · obtain hst | hst := hst <;> exact .inl (by omega)
      · exact .inr ⟨z, hz, hzy, hle⟩
  take s R x L c := by
    rintro ⟨h1, h2, h3⟩ - - hR -
    refine ⟨h2 x List.mem_cons_self, fun y hy => h2 y (List.mem_cons_of_mem x hy), fun y hy => ?_⟩
    obtain h | ⟨z, hz, hzy, hle⟩ := h3 y hy
    · exact .inl (h.trans hR)
    · obtain rfl | hz := List.mem_cons.mp hz
      · exact .inl hle
      · exact .inr ⟨z, hz, hzy, hle⟩
  perm s R L L' c := by
    rintro ⟨h1, h2, h3⟩ hp
    refine ⟨h1, fun y hy => h2 y (hp.mem_iff.mpr hy), fun y hy => (h3 y hy).imp_right ?_⟩
    rintro ⟨z, hz, hzy⟩
    exact ⟨z, hp.mem_iff.mp hz, hzy⟩
  repeated s R x y L c := by
    rintro ⟨h1, h2, h3⟩ hy hyx hxy -
    refine ⟨h1, fun z hz => h2 z (List.mem_cons_of_mem x hz), fun u hu => (h3 u hu).imp_right ?_⟩
    rintro ⟨z, hz, hzu, hle⟩
    obtain rfl | hz := List.mem_cons.mp hz
    · exact ⟨y, hy, hyx.trans hzu, hle.trans hxy⟩
    · exact ⟨z, hz, hzu, hle⟩

theorem rxData (h : Delivered l D s R L) (hl : Consecutive 0 l) (hsmall : extent l < 2 ^ 31)
    (hopen : ∀ y ∈ l, y.2.flags.close = false) (hx : x ∈ l) :
    ∃ R' L', Delivered l (x :: D) (s.rxData x.2) R' L' := by
  have hstop := stop_le hl hx
  have hR := h.reached
  have hle : x.1 ≤ x.stop := Nat.le_add_right _ _
  have hseen : ∀ y ∈ x :: D, y.stop ≤ R ∨ ∃ z ∈ x :: L, z.1 = y.1 ∧ y.stop ≤ z.stop := by
    intro y hy
    obtain rfl | hy := List.mem_cons.mp hy
    · exact .inr ⟨y, List.mem_cons_self, rfl, le_rfl⟩
    · exact (h.seen y hy).imp_right fun ⟨z, hz, hzy⟩ => ⟨z, List.mem_cons_of_mem x hz, hzy⟩
  obtain ⟨R', L', hstate, h1, h2, h3⟩ := h.state.rxData_handles (handles (extent l) (x :: D))
    (hl.fits hx) (carries_content hl hopen hx) (by omega) (by omega)
    ⟨hR, List.forall_mem_cons.mpr ⟨hstop, h.ahead⟩, hseen⟩
  exact ⟨R', L', hstate, h1, h2, h3⟩

theorem of_state (h : Delivered l D s R L) (ht : Reassembled (contentAt l) t R L) :
    Delivered l D t R L :=
  { h with state := ht }

theorem received (h : Delivered l D s R L) : s.consumed = (content l).take R := by
  rw [h.state.pre.consumed, bytes_prefix h.reached]

/-- **All of the stream was received**, once every segment has arrived. -/
theorem complete (h : Delivered l D s R L) (hl : Consecutive 0 l) (hall : ∀ x ∈ l, x ∈ D) :
    s.consumed = content l := by
  have hR : R = extent l := by
    by_contra hne
    have hlt : R < extent l := lt_of_le_of_ne h.reached hne
    obtain ⟨x, hx, h1, h2⟩ := exists_covers hl (Nat.zero_le R) (by omega)
    obtain hle | ⟨y, hy, hyx, -⟩ := h.seen x (hall x hx)
    · omega
    · have := (h.state.located.beyond y hy).1
      omega
  rw [h.received, hR, ← length_content, List.take_length]

end Delivered

/-- **Delivery.** Segments of a stream that was written arrive in any order, some of them never and
others more than once, while the application reads. What was received is the beginning of what was
written, in order, and all of it once every segment has arrived. -/
theorem delivery {l : List Placed} {connected : Bool} {ops : List Op} {s : RxStream}
    (hl : Consecutive 0 l) (hsmall : extent l < 2 ^ 31)
    (hopen : ∀ x ∈ l, x.2.flags.close = false)
    (hops : ∀ seg, Op.rxData seg ∈ ops → ∃ x ∈ l, x.2 = seg)
    (hrun : (rxMachine connected).run (.new connected) ops = some s) :
    s.removed ++ s.queued <+: content l ∧
      ((∀ x ∈ l, Op.rxData x.2 ∈ ops) → s.removed ++ s.queued = content l) := by
  obtain ⟨D, R, L, hD, hmem⟩ : ∃ D R L, Delivered l D s R L ∧
      ∀ x ∈ l, Op.rxData x.2 ∈ ops → x ∈ D := by
    induction ops using List.reverseRecOn generalizing s with
    | nil =>
      cases hrun
      exact ⟨[], 0, [], ⟨.new, Nat.zero_le _, nofun, nofun⟩, fun _ _ hx => (nomatch hx)⟩
    | append_singleton ops op ih =>
      obtain ⟨t, ht, hstep⟩ := Transition.Machine.run_concat hrun
      obtain ⟨D, R, L, hD, hmem⟩ := ih (fun seg hseg => hops seg (List.mem_append_left _ hseg)) ht
      cases op with
      | rxData seg =>
        obtain ⟨x, hx, rfl⟩ := hops seg (List.mem_append_right _ List.mem_cons_self)
        cases hstep
        obtain ⟨R', L', hD'⟩ := hD.rxData hl hsmall hopen hx
        refine ⟨x :: D, R', L', hD', fun y hy hyops => ?_⟩
        obtain hyops | hyops := List.mem_append.mp hyops
        · exact List.mem_cons_of_mem x (hmem y hy hyops)
        · have heq := Op.rxData.inj (List.mem_singleton.mp hyops)
          rw [placed_eq hl hsmall hy hx heq]
          exact List.mem_cons_self
      | readData maxSize =>
        refine ⟨D, R, L, hD.of_state (hD.state.readData hstep), fun y hy hyops => hmem y hy ?_⟩
        exact (List.mem_append.mp hyops).resolve_right fun hn => (nomatch List.mem_singleton.mp hn)
      | readMessage maxSize =>
        refine ⟨D, R, L, hD.of_state (hD.state.readMessage hstep), fun y hy hyops => hmem y hy ?_⟩
        exact (List.mem_append.mp hyops).resolve_right fun hn => (nomatch List.mem_singleton.mp hn)
  refine ⟨?_, fun hall => hD.complete hl fun x hx => hmem x hx (hall x hx)⟩
  change s.consumed <+: _
  rw [hD.received]
  exact List.take_prefix _ _

end Sst
