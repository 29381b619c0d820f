import Sst.Stream.Reassembly
import Sst.Stream.Write

/-!
# Record markings

The segments of a sequence of writes arrive in any order and any number of times, and nothing is
read.

* `deliver`, `InWindow`: the arrivals, each near the receive point.
* `Records`: the message sizes and the close mark recorded are those written.
* `Settled`: an arrival left its mark, or waits in the reorder buffer.
* **`Recording`**: the invariant of the arrivals when the writes are clean.
-/

namespace Sst

open Word Framing

/-- The segments `l` arrive. -/
def deliver (s : RxStream) (l : List Placed) : RxStream := l.foldl (fun s x => s.rxData x.2) s

/-- Each segment arrives less than `2 ^ 31` from the receive point of an open stream. -/
def InWindow : RxStream → List Placed → Prop
  | _, [] => True
  | s, x :: l => (s.endread = false → s.consumed.length ≤ x.1 + 2 ^ 31 ∧
      x.1 < s.consumed.length + 2 ^ 31) ∧ InWindow (s.rxData x.2) l

/-- The end of the stream was seen or waits to be read. -/
def RxStream.closeMark (s : RxStream) : Bool := s.endread || s.rsegs.any fun seg => seg.flags.close

/-- The sizes of the non-empty messages written. -/
def written (ws : List Write) : List ℕ := messages 0 (ws.map Write.piece)

/-- The receiver has recorded what was written. -/
def Records (s : RxStream) (ws : List Write) : Prop :=
  s.rmsgsize = (written ws).map (↑) ∧
    (s.closeMark = true ↔ ∃ w ∈ ws, w.endflags.close = true)

/-! ## Clean writes -/

/-- The pieces of some segments. -/
def pieces (l : List Placed) : List (ℕ × Bool) := l.map Placed.piece

/-- The segments with bytes. -/
def solids (l : List Placed) : List Placed := l.filter fun x => 0 < x.2.buf.length

theorem pieces_append (l₁ l₂ : List Placed) : pieces (l₁ ++ l₂) = pieces l₁ ++ pieces l₂ :=
  List.map_append

theorem pieces_solids (l : List Placed) : pieces (solids l) = solid (pieces l) := by
  rw [solid, pieces, pieces, List.filter_map]
  rfl

theorem mem_solids {x : Placed} {l : List Placed} : x ∈ solids l ↔ x ∈ l ∧ 0 < x.2.buf.length := by
  rw [solids, List.mem_filter, decide_eq_true_eq]

theorem extent_solids (l : List Placed) : extent (solids l) = extent l := by
  rw [extent, ← pieces, pieces_solids, size_solid]
  rfl

theorem solids_append (l₁ l₂ : List Placed) : solids (l₁ ++ l₂) = solids l₁ ++ solids l₂ :=
  List.filter_append ..

/-- Leaving out the segments without bytes keeps the positions. -/
theorem Consecutive.solids {p : ℕ} {l : List Placed} (h : Consecutive p l) :
    Consecutive p (solids l) := by
  induction l generalizing p with
  | nil => trivial
  | cons x l ih =>
    obtain ⟨h1, h2, h3⟩ := h
    rw [Sst.solids, List.filter_cons]
    split_ifs with hx
    · exact ⟨h1, h2, ih h3⟩
    · have hx : x.2.buf.length = 0 := by simpa using hx
      rw [Placed.stop, hx, h1] at h3
      exact ih h3

/-- Segments with bytes of the same extent. -/
theorem eq_of_extent_eq {l₁ l₂ m₁ m₂ : List Placed} (h : l₁ ++ l₂ = m₁ ++ m₂)
    (hl : ∀ x ∈ l₁ ++ l₂, 0 < x.2.buf.length) (he : extent l₁ = extent m₁) : l₁ = m₁ := by
  have key : ∀ {c l : List Placed}, (∀ x ∈ c, 0 < x.2.buf.length) → extent (l ++ c) = extent l →
      c = [] := by
    intro c l hc h
    cases c with
    | nil => rfl
    | cons x c =>
      have := hc x List.mem_cons_self
      rw [extent_append, extent_cons] at h
      omega
  rcases List.append_eq_append_iff.mp h with ⟨c, rfl, rfl⟩ | ⟨c, rfl, rfl⟩
  · rw [key (fun x hx => hl x (by simp [hx])) he.symm, List.append_nil]
  · rw [key (fun x hx => hl x (by simp [hx])) he, List.append_nil]

/-- The segments `S` of a written stream, with clean and short messages. -/
structure CleanStream (S : List Placed) : Prop where
  consecutive : Consecutive 0 S
  closesLast : ClosesLast S
  clean : Clean 0 (pieces S)
  short : ∀ n ∈ messages 0 (pieces S), n < 2 ^ 31

namespace CleanStream

variable {S pre post : List Placed} {x : Placed}

theorem fits (h : CleanStream S) (hx : x ∈ S) : Fits x := h.consecutive.fits hx

theorem short_solid (h : CleanStream S) {n : ℕ} (hn : n ∈ messages 0 (pieces (solids S))) :
    n < 2 ^ 31 := by
  refine h.short n ?_
  rw [pieces_solids] at hn
  rcases messages_solid h.clean with ⟨h1, -⟩ | ⟨h1, -⟩
  · rwa [h1]
  · rw [h1]
    exact List.mem_append_left _ hn

/-- The segment with bytes that starts or ends at the extent of `pre`. -/
theorem next (h : CleanStream S) (hs : solids S = pre ++ post) (hx : x ∈ S)
    (hb : 0 < x.2.buf.length) :
    (x.1 ≤ extent pre → extent pre < x.stop → ∃ post', post = x :: post') ∧
      (x.stop = extent pre → ∃ pre', pre = pre' ++ [x]) := by
  have hm : x ∈ solids S := mem_solids.mpr ⟨hx, hb⟩
  obtain ⟨l₁, l₂, hl⟩ := List.append_of_mem hm
  have hcon := h.consecutive.solids
  have hpos : ∀ y ∈ pre ++ post, 0 < y.2.buf.length := fun y hy => (mem_solids.mp (hs ▸ hy)).2
  have hx1 : x.1 = extent l₁ := by
    rw [hl] at hcon
    have := (consecutive_append.mp hcon).2.1
    omega
  rw [hs] at hl
  refine ⟨fun h1 h2 => ?_, fun h1 => ?_⟩
  · have hpre : pre = l₁ := by
      rw [Placed.stop, hx1] at h2
      rw [hx1] at h1
      rcases List.append_eq_append_iff.mp hl with ⟨c, rfl, hc⟩ | ⟨c, rfl, hc⟩
      · have : extent c = 0 := by rw [extent_append] at h1; omega
        cases c with
        | nil => rw [List.append_nil]
        | cons y c =>
          have := hpos y (by rw [hc]; simp)
          rw [extent_cons] at *
          omega
      · cases c with
        | nil => rw [List.append_nil]
        | cons y c =>
          obtain ⟨rfl, -⟩ := List.cons_eq_cons.mp hc
          rw [extent_append, extent_cons] at h2
          omega
    subst hpre
    exact ⟨l₂, List.append_cancel_left hl⟩
  · have hsplit : pre ++ post = (l₁ ++ [x]) ++ l₂ := by
      rw [hl]
      simp
    refine ⟨l₁, eq_of_extent_eq hsplit hpos ?_⟩
    rw [← h1, Placed.stop, hx1, extent_append, extent_cons, extent_nil, Nat.add_zero]

/-- A mark at the extent of `pre` finds no open message, unless the stream ends there. -/
theorem mark_open (h : CleanStream S) (hs : solids S = pre ++ post) (hx : x ∈ S)
    (hm : x.2.flags.marks = true) (hp : x.stop = extent pre) :
    rest 0 (pieces pre) = 0 ∨
      post = [] ∧ rest 0 (pieces S) = 0 ∧ rest 0 (pieces pre) ∈ messages 0 (pieces S) := by
  rcases Nat.eq_zero_or_pos x.2.buf.length with hb | hb
  · obtain ⟨l₁, l₂, rfl⟩ := List.append_of_mem hx
    have hpiece : x.piece = (0, true) := Prod.ext hb hm
    have hpc : pieces (l₁ ++ x :: l₂) = pieces l₁ ++ (0, true) :: pieces l₂ := by
      rw [pieces_append, ← hpiece]
      rfl
    have hx1 := (consecutive_append.mp h.consecutive).2.1
    have hsol : solids (l₁ ++ x :: l₂) = solids l₁ ++ solids l₂ := by
      rw [solids_append, solids, solids, List.filter_cons_of_neg (by simp [hb])]
      rfl
    have hpre : pre = solids l₁ := by
      refine eq_of_extent_eq (hs.symm.trans hsol) (fun y hy => (mem_solids.mp (hs ▸ hy)).2) ?_
      rw [extent_solids, ← hp, Placed.stop, hb, hx1]
      omega
    have hclean : Clean 0 (pieces l₁ ++ (0, true) :: pieces l₂) := hpc ▸ h.clean
    by_cases hl : ∀ y ∈ pieces l₂, y.1 = 0
    · have hpost : post = [] := by
        rw [hs, hpre] at hsol
        rw [List.append_cancel_left hsol, ← List.map_eq_nil_iff (f := Placed.piece)]
        exact (pieces_solids l₂).trans (solid_eq_nil hl)
      subst hpost
      have hr : solid (pieces (l₁ ++ x :: l₂)) = pieces pre := by
        rw [← pieces_solids, hs, List.append_nil]
      rcases messages_solid h.clean with ⟨-, h1⟩ | ⟨h1, -⟩
      · rw [hpc, rest_mark hl, ← hpc, hr] at h1
        exact .inl h1.symm
      · rw [hr] at h1
        exact .inr ⟨rfl, hpc ▸ rest_mark hl,
          h1 ▸ List.mem_append_right _ (List.mem_singleton_self _)⟩
    · push Not at hl
      obtain ⟨y, hy, hy0⟩ := hl
      refine .inl ?_
      rw [hpre, pieces_solids, hclean.rest_solid
        ⟨y, List.mem_cons_of_mem _ hy, Nat.pos_of_ne_zero hy0⟩]
      exact hclean.mark.resolve_right fun hz => hy0 (hz y hy)
  · obtain ⟨pre', rfl⟩ := (h.next hs hx hb).2 hp
    refine .inl ?_
    have hpiece : x.piece = (x.2.buf.length, true) := Prod.ext rfl hm
    rw [pieces_append, pieces, pieces, List.map_singleton, hpiece]
    exact rest_mark (List.forall_mem_nil _)

end CleanStream

/-! ## The invariant -/

namespace RxStream

/-- A copy of the segment waits, or it was consumed and left its mark. -/
def Settled (s : RxStream) (R : ℕ) (L : List Placed) (x : Placed) : Prop :=
  (∃ y ∈ L, y.1 = x.1 ∧ y.2.flags = x.2.flags ∧ x.stop ≤ y.stop) ∨ x.stop < R ∨
    x.stop = R ∧ (x.2.flags.marks = true → s.rmsgavail = 0) ∧
      (x.2.flags.close = true → ∃ seg ∈ s.rsegs, seg.flags.close = true)

/-- The messages recorded and the bytes of the open one. -/
def Counts (s : RxStream) (sizes : List ℕ) (o : ℕ) : Prop :=
  s.rmsgsize = sizes.map (↑) ∧ s.rmsgavail = wrap 32 o

/-- The marks recorded are those of the segments `pre` with bytes; at the end of the stream the
open message may be ended by a segment without bytes. -/
def Marked (S : List Placed) (s : RxStream) (R : ℕ) : Prop :=
  ∃ pre post, solids S = pre ++ post ∧ extent pre = R ∧
    (s.Counts (messages 0 (pieces pre)) (rest 0 (pieces pre)) ∨
      post = [] ∧ 0 < rest 0 (pieces pre) ∧ rest 0 (pieces S) = 0 ∧
        s.Counts (messages 0 (pieces pre) ++ [rest 0 (pieces pre)]) 0)

end RxStream

/-- The invariant of the arrivals `D`. -/
structure Recording (S D : List Placed) (connected : Bool) (s : RxStream) (R : ℕ)
    (L : List Placed) (closed : Bool) : Prop where
  reading : s.endread = false
  connected : s.connected = connected
  length : s.consumed.length = R
  avail : s.ravail = wrap 32 R
  pending : ∀ x ∈ L, x ∈ S
  marked : s.Marked S R
  close : (∃ seg ∈ s.rsegs, seg.flags.close = true) → ∃ x ∈ S, x.2.flags.close = true
  closed : closed = true → R = extent S ∧ ∃ seg ∈ s.rsegs, seg.flags.close = true
  settled : ∀ x ∈ D, s.Settled R L x

namespace RxStream

variable {S D L : List Placed} {connected c : Bool} {s : RxStream} {R : ℕ} {x : Placed}

theorem take_rmsgavail (s : RxStream) (x : Placed) (R : ℕ) : (s.take x R).rmsgavail =
    if (x.2.flags.marks && decide (0 < wrap 32 (s.rmsgavail + (x.stop - R : ℕ)))) = true then 0
    else wrap 32 (s.rmsgavail + (x.stop - R : ℕ)) := by
  cases s
  rfl

theorem take_rmsgsize (s : RxStream) (x : Placed) (R : ℕ) : (s.take x R).rmsgsize =
    if (x.2.flags.marks && decide (0 < wrap 32 (s.rmsgavail + (x.stop - R : ℕ)))) = true then
      s.rmsgsize ++ [wrap 32 (s.rmsgavail + (x.stop - R : ℕ))]
    else s.rmsgsize := by
  cases s
  rfl

theorem take_ravail (s : RxStream) (x : Placed) (R : ℕ) :
    (s.take x R).ravail = wrap 32 (s.ravail + (x.stop - R : ℕ)) := by
  cases s
  rfl

theorem Counts.take {sizes : List ℕ} {o : ℕ} (h : s.Counts sizes o)
    (ho : x.2.flags.marks = true → o + (x.stop - R) < 2 ^ 31) :
    (s.take x R).Counts (sizes ++ messages o [(x.stop - R, x.2.flags.marks)])
      (rest o [(x.stop - R, x.2.flags.marks)]) := by
  obtain ⟨h1, h2⟩ := h
  have hw : wrap 32 (s.rmsgavail + (x.stop - R : ℕ)) = wrap 32 (o + (x.stop - R) : ℕ) := by
    rw [h2, wrap_add_wrap_left]
    norm_cast
  rw [Counts, take_rmsgsize, take_rmsgavail, hw]
  cases hm : x.2.flags.marks with
  | false => simp [messages, rest, h1]
  | true =>
    have hs : wrap 32 (o + (x.stop - R) : ℕ) = (o + (x.stop - R) : ℕ) :=
      wrap_eq_self (by decide) (by omega) (by have := ho hm; omega)
    rw [hs]
    simp only [messages, rest, Bool.true_and, decide_eq_true_eq]
    generalize o + (x.stop - R) = k
    rcases Nat.eq_zero_or_pos k with rfl | hk
    · simp [h1]
    · simp [h1, hk]

theorem Counts.keep {sizes : List ℕ} {o : ℕ} (h : s.Counts sizes o)
    (hm : x.2.flags.marks = false ∨ o = 0) (hR : x.stop = R) : (s.take x R).Counts sizes o := by
  have hd : x.stop - R = 0 := by omega
  have ht := h.take (x := x) (R := R) fun hmk => by
    rcases hm with hm | hm
    · rw [hm] at hmk
      cases hmk
    · rw [hd, hm]
      decide
  rw [hd] at ht
  rcases hm with hm | rfl
  · rw [hm] at ht
    simpa [messages, rest] using ht
  · cases hmk : x.2.flags.marks <;> rw [hmk] at ht <;> simpa [messages, rest] using ht

/-- **Queueing a segment of the stream** keeps the marks, and after a mark nothing is open. -/
theorem Marked.take (h : CleanStream S) (hM : s.Marked S R) (hx : x ∈ S) (h1 : x.1 ≤ R)
    (h2 : R ≤ x.stop) : (s.take x R).Marked S x.stop ∧
      (x.2.flags.marks = true → (s.take x R).rmsgavail = 0) := by
  obtain ⟨pre, post, hs, rfl, hM⟩ := hM
  rcases h2.lt_or_eq with h2 | h2
  · -- new bytes: the segment is the next one
    have hb : 0 < x.2.buf.length := by
      rw [Placed.stop] at h2
      omega
    obtain ⟨post', rfl⟩ := (h.next hs hx hb).1 h1 h2
    have hpos : x.1 = extent pre := by
      have := h.consecutive.solids
      rw [hs] at this
      have := (consecutive_append.mp this).2.1
      omega
    have hd : x.stop - extent pre = x.2.buf.length := by
      rw [Placed.stop, hpos]
      omega
    have hC := hM.resolve_right fun hne => List.cons_ne_nil _ _ hne.1
    have hpc : pieces (pre ++ [x]) = pieces pre ++ [(x.2.buf.length, x.2.flags.marks)] :=
      pieces_append ..
    have hT := hC.take (x := x) (R := extent pre) fun hm => by
      refine h.short_solid ?_
      rw [hs, ← List.singleton_append, ← List.append_assoc, pieces_append, messages_append, hpc,
        messages_append, hm, hd]
      simp [messages, hb]
    rw [hd, ← messages_append, ← rest_append, ← hpc] at hT
    refine ⟨⟨pre ++ [x], post', by rw [hs]; simp, ?_, .inl hT⟩, fun hm => ?_⟩
    · rw [extent_append, extent_cons, extent_nil, Placed.stop, hpos, Nat.add_zero]
    · rw [hT.2, hpc, hm, rest_mark (List.forall_mem_nil _), Nat.cast_zero, wrap_zero]
  · -- no new bytes: at a mark nothing is open, or the stream ends here
    rcases hM with hC | ⟨h3, h4, h5, h6⟩
    · by_cases hm : x.2.flags.marks = true
      · rcases h.mark_open hs hx hm h2.symm with h0 | ⟨h3, h4, h5⟩
        · have hT := hC.keep (x := x) (.inr h0) h2.symm
          refine ⟨⟨pre, post, hs, h2, .inl hT⟩, fun _ => ?_⟩
          rw [hT.2, h0, Nat.cast_zero, wrap_zero]
        · have hd : x.stop - extent pre = 0 := by omega
          have hT := hC.take (x := x) (R := extent pre) fun _ => by
            rw [hd]
            exact h.short _ h5
          rw [hd, hm] at hT
          by_cases h0 : 0 < rest 0 (pieces pre)
          · simp only [messages, rest, Nat.add_zero, h0, if_true] at hT
            refine ⟨⟨pre, post, hs, h2, .inr ⟨h3, h0, h4, hT⟩⟩, fun _ => ?_⟩
            rw [hT.2, Nat.cast_zero, wrap_zero]
          · have h0 : rest 0 (pieces pre) = 0 := by omega
            have hT := hC.keep (x := x) (.inr h0) h2.symm
            refine ⟨⟨pre, post, hs, h2, .inl hT⟩, fun _ => ?_⟩
            rw [hT.2, h0, Nat.cast_zero, wrap_zero]
      · exact ⟨⟨pre, post, hs, h2, .inl (hC.keep (.inl (Bool.eq_false_iff.mpr hm)) h2.symm)⟩,
          fun h => absurd h hm⟩
    · have hT := h6.keep (x := x) (.inr rfl) h2.symm
      refine ⟨⟨pre, post, hs, h2, .inr ⟨h3, h4, h5, hT⟩⟩, fun _ => ?_⟩
      rw [hT.2, Nat.cast_zero, wrap_zero]

theorem length_consumed_take (h1 : x.1 ≤ R) (h2 : R ≤ x.stop) (hl : s.consumed.length = R) :
    (s.take x R).consumed.length = x.stop := by
  rw [consumed_take, List.length_append, hl, List.length_drop, Placed.stop] at *
  omega

theorem Settled.mono {t : RxStream} {R' : ℕ} {L' : List Placed} (h : s.Settled R L x)
    (hR : R ≤ R') (hm : R' = R → s.rmsgavail = 0 → t.rmsgavail = 0)
    (hc : (∃ seg ∈ s.rsegs, seg.flags.close = true) → ∃ seg ∈ t.rsegs, seg.flags.close = true)
    (hL : ∀ y ∈ L, t.Settled R' L' y) : t.Settled R' L' x := by
  rcases h with ⟨y, hy, h1, h2, h3⟩ | h1 | ⟨h1, h2, h3⟩
  · rcases hL y hy with ⟨z, hz, h4, h5, h6⟩ | h4 | ⟨h4, h5, h6⟩
    · exact .inl ⟨z, hz, h4.trans h1, h5.trans h2, h3.trans h6⟩
    · exact .inr (.inl (h3.trans_lt h4))
    · rw [h2] at h5 h6
      rcases h3.lt_or_eq with h3 | h3
      · exact .inr (.inl (h3.trans_eq h4))
      · exact .inr (.inr ⟨h3.trans h4, h5, h6⟩)
  · exact .inr (.inl (h1.trans_le hR))
  · rcases hR.lt_or_eq with hR | hR
    · exact .inr (.inl (h1.trans_lt hR))
    · exact .inr (.inr ⟨h1.trans hR, fun h4 => hm hR.symm (h2 h4), fun h4 => hc (h3 h4)⟩)

theorem settled_self (hx : x ∈ L) : s.Settled R L x := .inl ⟨x, hx, rfl, rfl, le_rfl⟩

/-- **Reception keeps the invariant.** -/
theorem handles_recording (h : CleanStream S) : Handles (Recording S D connected) where
  skip s R x L c hr hx hst := by
    refine ⟨hr.reading, hr.connected, hr.length, hr.avail,
      fun y hy => hr.pending y (List.mem_cons_of_mem x hy), hr.marked, hr.close, hr.closed,
      fun d hd => (hr.settled d hd).mono le_rfl (fun _ => id) id fun y hy => ?_⟩
    rcases List.mem_cons.mp hy with rfl | hy
    · rcases hst with hst | ⟨hst, hf⟩
      · exact .inr (.inl hst)
      · simp only [Flags.any, Bool.or_eq_false_iff] at hf
        exact .inr (.inr ⟨hst, by simp [Flags.marks, hf], by simp [hf]⟩)
    · exact settled_self hy
  take s R x L c hr hx h1 h2 h3 := by
    have hxS := hr.pending x List.mem_cons_self
    obtain ⟨hM, hz⟩ := hr.marked.take h hxS h1 h2
    have hseg : ∀ seg ∈ s.rsegs, seg ∈ (s.take x R).rsegs := fun seg hseg => by
      rw [take_rsegs]
      exact List.mem_append_left _ hseg
    have hlast : x.2.flags.close = true → ∃ seg ∈ (s.take x R).rsegs, seg.flags.close = true := by
      intro hc
      rw [take_rsegs]
      exact ⟨_, List.mem_append_right _ (List.mem_singleton_self _), hc⟩
    have hmono : (∃ seg ∈ s.rsegs, seg.flags.close = true) →
        ∃ seg ∈ (s.take x R).rsegs, seg.flags.close = true := by
      rintro ⟨seg, hs, hc⟩
      exact ⟨seg, hseg seg hs, hc⟩
    refine ⟨(take_endread s x R).trans hr.reading, (take_connected s x R).trans hr.connected,
      length_consumed_take h1 h2 hr.length, ?_,
      fun y hy => hr.pending y (List.mem_cons_of_mem x hy),
      hM, ?_, ?_, fun d hd => (hr.settled d hd).mono h2 ?_ hmono fun y hy => ?_⟩
    · rw [take_ravail, hr.avail, wrap_add_wrap_left]
      congr 1
      omega
    · rw [take_rsegs]
      rintro ⟨seg, hs, hc⟩
      rcases List.mem_append.mp hs with hs | hs
      · exact hr.close ⟨seg, hs, hc⟩
      · rw [List.mem_singleton.mp hs] at hc
        exact ⟨x, hxS, hc⟩
    · intro hc
      rcases (Bool.or_eq_true _ _).mp hc with hc | hc
      · obtain ⟨h4, h5⟩ := hr.closed hc
        have := stop_le h.consecutive hxS
        exact ⟨by omega, hmono h5⟩
      · exact ⟨stop_of_close h.consecutive h.closesLast hxS hc, hlast hc⟩
    · intro hR hav
      have hd : x.stop - R = 0 := by omega
      rw [take_rmsgavail, hd, hav]
      simp
    · rcases List.mem_cons.mp hy with rfl | hy
      · exact .inr (.inr ⟨rfl, hz, hlast⟩)
      · exact settled_self hy
  perm s R L L' c hr hp :=
    ⟨hr.reading, hr.connected, hr.length, hr.avail, fun y hy => hr.pending y (hp.mem_iff.mpr hy),
      hr.marked, hr.close, hr.closed, fun d hd => (hr.settled d hd).mono le_rfl (fun _ => id) id
        fun _ hy => settled_self (hp.mem_iff.mp hy)⟩
  repeated s R x y L c hr hy h1 h2 h3 := by
    refine ⟨hr.reading, hr.connected, hr.length, hr.avail,
      fun y hy => hr.pending y (List.mem_cons_of_mem x hy), hr.marked, hr.close, hr.closed,
      fun d hd => (hr.settled d hd).mono le_rfl (fun _ => id) id fun z hz => ?_⟩
    rcases List.mem_cons.mp hz with rfl | hz
    · exact .inl ⟨y, hy, h1, h3.symm, h2⟩
    · exact settled_self hz

end RxStream

/-! ## Arrivals -/

/-- A connected stream of a positive multiple of `2 ^ 32` bytes is not closed. -/
def CloseSeen (connected : Bool) (closes : Prop) (total : ℕ) : Prop :=
  connected = true → closes → 2 ^ 32 ∣ total → total = 0

/-- The state after the arrivals `D`: recording, or shut down at the end of an empty stream. -/
def Arrived (S D : List Placed) (connected : Bool) (s : RxStream) : Prop :=
  (∃ R L, Located s R L ∧ Recording S D connected s R L false) ∨
    s.endread = true ∧ s.rmsgsize = [] ∧ messages 0 (pieces S) = [] ∧
      ∃ x ∈ S, x.2.flags.close = true

section Arrivals

variable {S D l : List Placed} {connected : Bool} {s : RxStream} {x : Placed}

theorem arrived_new (connected : Bool) (S : List Placed) :
    Arrived S [] connected (.new connected) :=
  .inl ⟨0, [], ⟨(wrap_zero 32).symm, rfl, nofun, .nil, nofun⟩, rfl, rfl, rfl, (wrap_zero 32).symm,
    nofun, ⟨[], solids S, rfl, rfl, .inl ⟨rfl, (wrap_zero 32).symm⟩⟩, nofun, nofun, nofun⟩

theorem messages_of_extent (h : extent S = 0) : messages 0 (pieces S) = [] :=
  (messages_empty (size_eq_zero.mp h)).1

theorem Arrived.rxData (h : CleanStream S) (hx : x ∈ S)
    (hcs : CloseSeen connected (∃ x ∈ S, x.2.flags.close = true) (extent S))
    (hw : s.endread = false → s.consumed.length ≤ extent S → s.consumed.length ≤ x.1 + 2 ^ 31 ∧
      x.1 < s.consumed.length + 2 ^ 31)
    (hs : Arrived S D connected s) : Arrived S (x :: D) connected (s.rxData x.2) := by
  rcases hs with ⟨R, L, hl, hr⟩ | ⟨h1, h2, h3⟩
  · have hle : s.consumed.length ≤ extent S := by
      obtain ⟨pre, post, h4, h5, -⟩ := hr.marked
      rw [hr.length, ← h5, ← extent_solids S, h4, extent_append]
      omega
    obtain ⟨h1, h2⟩ := hw hr.reading hle
    rw [hr.length] at h1 h2
    have hP : Recording S (x :: D) connected s.core R (x :: L) false := by
      refine ⟨hr.reading, hr.connected, hr.length, hr.avail,
        List.forall_mem_cons.mpr ⟨hx, hr.pending⟩, hr.marked, hr.close, nofun, fun d hd => ?_⟩
      rcases List.mem_cons.mp hd with rfl | hd
      · exact RxStream.settled_self List.mem_cons_self
      · exact (hr.settled d hd).mono le_rfl (fun _ => id) id
          fun y hy => RxStream.settled_self (List.mem_cons_of_mem x hy)
    obtain ⟨t, R', L', closed, h3, h4, h5⟩ :=
      RxStream.rxData_spec (RxStream.handles_recording h) hl (h.fits hx) h1 h2 hr.reading hP
    have hrec : Recording S (x :: D) connected t R' L' false :=
      ⟨h4.reading, h4.connected, h4.length, h4.avail, h4.pending, h4.marked, h4.close, nofun,
        h4.settled⟩
    rw [h5, RxStream.finish]
    split_ifs with h6
    · rw [Bool.and_eq_true, decide_eq_true_eq] at h6
      have hend : t.endread = false := h4.reading
      have hconn : t.connected = connected := h4.connected
      rw [RxStream.shutdownRead, hend, hconn]
      cases connected with
      | false => exact .inl ⟨R', L', h3, hrec⟩
      | true =>
        obtain ⟨h7, h8⟩ := h4.closed h6.1
        have hcl := h4.close h8
        have hav : t.ravail = wrap 32 R' := h4.avail
        have hdvd : 2 ^ 32 ∣ extent S := by
          have := wrap_eq_zero_iff.mp (hav.symm.trans h6.2)
          rw [h7] at this
          exact_mod_cast this
        exact .inr ⟨rfl, rfl, messages_of_extent (hcs rfl hcl hdvd), hcl⟩
    · exact .inl ⟨R', L', h3, hrec⟩
  · refine .inr ?_
    rw [RxStream.rxData, if_pos h1]
    exact ⟨h1, h2, h3⟩

/-- **All arrivals.** -/
theorem Arrived.deliver (h : CleanStream S) (hl : ∀ x ∈ l, x ∈ S)
    (hcs : CloseSeen connected (∃ x ∈ S, x.2.flags.close = true) (extent S))
    (hw : extent S < 2 ^ 31 ∨ InWindow s l) (hs : Arrived S D connected s) :
    Arrived S (l.reverse ++ D) connected (deliver s l) := by
  induction l generalizing s D with
  | nil => exact hs
  | cons x l ih =>
    obtain ⟨hx, hl⟩ := List.forall_mem_cons.mp hl
    rw [List.reverse_cons, List.append_assoc]
    refine ih hl (hw.imp_right fun hw => hw.2) (hs.rxData h hx hcs fun he hle => ?_)
    rcases hw with hw | hw
    · have := stop_le h.consecutive hx
      rw [Placed.stop] at this
      omega
    · exact hw.1 he

/-- **When every segment arrived, the marks are those written.** -/
theorem Arrived.records (h : CleanStream S) (hD : ∀ x ∈ S, x ∈ D)
    (hs : Arrived S D connected s) : s.rmsgsize = (messages 0 (pieces S)).map (↑) ∧
      (s.closeMark = true ↔ ∃ x ∈ S, x.2.flags.close = true) := by
  rcases hs with ⟨R, L, hl, hr⟩ | ⟨h1, h2, h3, h4⟩
  · obtain ⟨pre, post, hs, rfl, hM⟩ := hr.marked
    -- the segment with bytes at the receive point has arrived, so there is none
    have hpost : post = [] := by
      cases post with
      | nil => rfl
      | cons n post =>
        obtain ⟨hn, hb⟩ := mem_solids.mp (show n ∈ solids S by rw [hs]; simp)
        have hcon := h.consecutive.solids
        rw [hs] at hcon
        have hn1 : n.1 = extent pre := by
          have := (consecutive_append.mp hcon).2.1
          omega
        rcases hr.settled n (hD n hn) with ⟨y, hy, h1, -⟩ | h1 | ⟨h1, -⟩
        · have := (hl.beyond y hy).1
          omega
        · rw [Placed.stop] at h1
          omega
        · rw [Placed.stop] at h1
          omega
    subst hpost
    rw [List.append_nil] at hs
    have hR : extent pre = extent S := by rw [← hs, extent_solids]
    -- nothing waits beyond the end
    have hdone : ∀ x ∈ S, x.stop = extent S →
        (x.2.flags.marks = true → s.rmsgavail = 0) ∧
          (x.2.flags.close = true → ∃ seg ∈ s.rsegs, seg.flags.close = true) := by
      intro x hx hst
      rcases hr.settled x (hD x hx) with ⟨y, hy, h1, -⟩ | h1 | ⟨-, h1⟩
      · have h2 := (hl.beyond y hy).1
        have h3 := stop_le h.consecutive (hr.pending y hy)
        rw [Placed.stop] at h3
        omega
      · omega
      · exact h1
    have hsol : solid (pieces S) = pieces pre := by rw [← pieces_solids, hs]
    refine ⟨?_, ?_⟩
    · rcases messages_solid h.clean with ⟨h1, h2⟩ | ⟨h1, -, h3, l₁, l₂, h4, h5⟩
      · rw [hsol] at h1 h2
        rcases hM with hM | ⟨-, h3, h4, -⟩
        · rw [h1]
          exact hM.1
        · omega
      · rw [hsol] at h1 h3
        rcases hM with hM | ⟨-, -, -, hM⟩
        · obtain ⟨a, b, rfl, rfl, hb⟩ := List.map_eq_append_iff.mp h4
          obtain ⟨z, c, rfl, hz, rfl⟩ := List.map_eq_cons_iff.mp hb
          have hc : extent c = 0 := size_eq_zero.mpr h5
          have hz1 := (consecutive_append.mp h.consecutive).2.1
          have hz0 : z.2.buf.length = 0 := congrArg Prod.fst hz
          have hav := (hdone z (by simp) (by
            rw [extent_append, extent_cons, Placed.stop, hc, hz1]
            omega)).1 (congrArg Prod.snd hz)
          have hlt := h.short _ (h1 ▸ List.mem_append_right _ (List.mem_singleton_self _))
          rw [hM.2, wrap_eq_self (by decide) (by omega) (by omega)] at hav
          omega
        · rw [h1]
          exact hM.1
    · rw [RxStream.closeMark, hr.reading, Bool.false_or, List.any_eq_true]
      refine ⟨hr.close, ?_⟩
      rintro ⟨x, hx, hc⟩
      exact (hdone x hx (stop_of_close h.consecutive h.closesLast hx hc)).2 hc
  · rw [h2, h3, RxStream.closeMark, h1]
    exact ⟨rfl, fun _ => h4, fun _ => rfl⟩

end Arrivals

end Sst
