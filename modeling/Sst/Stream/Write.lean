import Sst.Stream.Position
import Sst.Lib.Framing

/-!
# Writing

`writeData` cuts what the application writes into segments; the flags of the write go on the last.

* `Segment`, `Writer.writeData`: the segments of a write.
* `Writer.writeAll`: a sequence of writes.
* `Consecutive p l`: the placed segments `l` follow each other from position `p` on.
* **`writeAll_spec`**: the segments written are consecutive, only the last one closes, and they
  frame the same messages as the writes.
-/

namespace Sst

open Word Framing

def mtu : ℕ := 1200

/-- A data segment; its position is 32 bits wide. -/
structure Segment where
  tsn : ℤ
  flags : Flags
  payload : List UInt8
  deriving DecidableEq

/-- `dataPushFlag | endflags`. -/
def Flags.pushed (f : Flags) : Flags := { f with push := true }

/-- One call of `writeData`. -/
structure Write where
  data : List UInt8
  endflags : Flags

/-- The position of the next byte, and whether the stream is closed for writing. -/
structure Writer where
  tasn : ℤ
  endwrite : Bool

namespace Writer

def new : Writer := ⟨0, false⟩

/-- The loop of `writeData`: the segments, and the position behind them. -/
def writeLoop (tasn : ℤ) (data : List UInt8) (endflags : Flags) : List Segment × ℤ :=
  if data.length ≤ mtu then
    ([⟨tasn, endflags.pushed, data⟩], wrap 32 (tasn + data.length))
  else
    let (segs, next) := writeLoop (wrap 32 (tasn + mtu)) (data.drop mtu) endflags
    (⟨tasn, ⟨false, false, false⟩, data.take mtu⟩ :: segs, next)
termination_by data.length
decreasing_by
  rw [List.length_drop]
  unfold mtu at *
  omega

/-- `BaseStream::writeData`. -/
def writeData (w : Writer) (x : Write) : Option (Writer × List Segment) :=
  if w.endwrite then none
  else
    let (segs, tasn) := writeLoop w.tasn x.data x.endflags
    some (⟨tasn, x.endflags.close⟩, segs)

/-- A sequence of writes. -/
def writeAll (w : Writer) : List Write → Option (Writer × List Segment)
  | [] => some (w, [])
  | x :: xs => (w.writeData x).bind fun (u, segs) =>
      (u.writeAll xs).map fun (v, segs') => (v, segs ++ segs')

end Writer

/-- The segment as it arrives. -/
def Segment.received (seg : Segment) : RxSegment := ⟨seg.tsn, seg.flags, seg.payload, 0⟩

/-- The segments with their absolute positions. -/
def placed (p : ℕ) : List Segment → List Placed
  | [] => []
  | seg :: segs => (p, seg.received) :: placed (p + seg.payload.length) segs

/-- The size of a piece and whether it ends a message. -/
def Write.piece (x : Write) : ℕ × Bool := (x.data.length, x.endflags.marks)

def Placed.piece (x : Placed) : ℕ × Bool := (x.2.buf.length, x.2.flags.marks)

/-- The segments follow each other from position `p` on. -/
def Consecutive (p : ℕ) : List Placed → Prop
  | [] => True
  | x :: l => x.1 = p ∧ Fits x ∧ Consecutive x.stop l

/-- Only the last segment has the close flag. -/
def ClosesLast : List Placed → Prop
  | [] => True
  | x :: l => (x.2.flags.close = true → l = []) ∧ ClosesLast l

/-- The position behind the segments. -/
def extent (l : List Placed) : ℕ := size (l.map Placed.piece)

theorem extent_nil : extent [] = 0 := rfl

theorem extent_cons (x : Placed) (l : List Placed) : extent (x :: l) = x.2.buf.length + extent l :=
  rfl

theorem extent_append (l₁ l₂ : List Placed) : extent (l₁ ++ l₂) = extent l₁ + extent l₂ := by
  rw [extent, List.map_append, size_append]
  rfl

section Consecutive

variable {p : ℕ} {l l₁ l₂ : List Placed} {x : Placed}

theorem consecutive_append : Consecutive p (l₁ ++ l₂) ↔
    Consecutive p l₁ ∧ Consecutive (p + extent l₁) l₂ := by
  induction l₁ generalizing p with
  | nil => simp [Consecutive, extent, size]
  | cons x l₁ ih =>
    rw [List.cons_append, Consecutive, Consecutive, ih, extent_cons, and_assoc, and_assoc]
    refine and_congr_right fun h => ?_
    rw [Placed.stop, h, Nat.add_assoc]

theorem Consecutive.fits (h : Consecutive p l) (hx : x ∈ l) : Fits x := by
  induction l generalizing p with
  | nil => cases hx
  | cons y l ih =>
    rcases List.mem_cons.mp hx with rfl | hx
    · exact h.2.1
    · exact ih h.2.2 hx

theorem Consecutive.bounds (h : Consecutive p l) (hx : x ∈ l) :
    p ≤ x.1 ∧ x.stop ≤ p + extent l := by
  obtain ⟨l₁, l₂, rfl⟩ := List.append_of_mem hx
  obtain ⟨-, h⟩ := consecutive_append.mp h
  rw [extent_append, extent_cons, Placed.stop, h.1]
  omega

end Consecutive

theorem closesLast_append {l₁ l₂ : List Placed} (h₁ : ∀ x ∈ l₁, x.2.flags.close = false)
    (h₂ : ClosesLast l₂) : ClosesLast (l₁ ++ l₂) := by
  induction l₁ with
  | nil => exact h₂
  | cons x l₁ ih =>
    obtain ⟨hx, h⟩ := List.forall_mem_cons.mp h₁
    exact ⟨fun hc => absurd hc (by simp [hx]), ih h⟩

theorem ClosesLast.last {l : List Placed} {x : Placed} (h : ClosesLast l) (hx : x ∈ l)
    (hc : x.2.flags.close = true) : ∃ l₀, l = l₀ ++ [x] := by
  induction l with
  | nil => cases hx
  | cons y l ih =>
    rcases List.mem_cons.mp hx with rfl | hx
    · exact ⟨[], by rw [h.1 hc]; rfl⟩
    · obtain ⟨l₀, rfl⟩ := ih h.2 hx
      exact ⟨y :: l₀, rfl⟩

theorem stop_le {l : List Placed} {x : Placed} (h : Consecutive 0 l) (hx : x ∈ l) :
    x.stop ≤ extent l := by
  have := (h.bounds hx).2
  omega

theorem stop_of_close {l : List Placed} {x : Placed} (h : Consecutive 0 l) (hl : ClosesLast l)
    (hx : x ∈ l) (hc : x.2.flags.close = true) : x.stop = extent l := by
  obtain ⟨l, rfl⟩ := hl.last hx hc
  have := (consecutive_append.mp h).2.1
  rw [Placed.stop, extent_append, extent_cons, extent_nil, this]
  omega

theorem placed_append (p : ℕ) (segs segs' : List Segment) :
    placed p (segs ++ segs') = placed p segs ++ placed (p + extent (placed p segs)) segs' := by
  induction segs generalizing p with
  | nil => rfl
  | cons seg segs ih =>
    rw [List.cons_append, placed, placed, ih, extent_cons, List.cons_append, ← Nat.add_assoc]
    rfl

/-- The pieces of one write: all full and without flags, but for the last. -/
structure Chunks (x : Write) (l : List Placed) : Prop where
  split : ∃ l₀ y, l = l₀ ++ [y] ∧ (∀ z ∈ l₀, 0 < z.2.buf.length ∧ z.2.flags.any = false) ∧
    (y.2.buf.length = 0 → l₀ = []) ∧ y.2.flags = x.endflags.pushed
  extent : extent l = x.data.length

theorem fits_received {p : ℕ} {seg : Segment} (hp : seg.tsn = wrap 32 p)
    (hs : seg.payload.length ≤ mtu) : Fits (p, seg.received) :=
  ⟨hp, rfl, hs.trans_lt (by decide)⟩

/-- **The segments of one write.** -/
theorem writeLoop_spec (tasn : ℤ) (x : Write) (p : ℕ) (hp : tasn = wrap 32 p) :
    Consecutive p (placed p (Writer.writeLoop tasn x.data x.endflags).1) ∧
      (Writer.writeLoop tasn x.data x.endflags).2 = wrap 32 (p + x.data.length : ℕ) ∧
      Chunks x (placed p (Writer.writeLoop tasn x.data x.endflags).1) := by
  obtain ⟨data, endflags⟩ := x
  dsimp only
  fun_induction Writer.writeLoop tasn data endflags generalizing p with
  | case1 tasn data h =>
    subst hp
    refine ⟨⟨rfl, fits_received rfl h, trivial⟩, ?_, ⟨[], _, rfl, nofun, fun _ => rfl, rfl⟩, rfl⟩
    rw [wrap_add_wrap_left]
    rfl
  | case2 tasn data h segs next hrec ih =>
    have hlen : (data.take mtu).length = mtu := List.length_take_of_le (by omega)
    have hp' : wrap 32 (tasn + mtu) = wrap 32 (p + mtu : ℕ) := by
      rw [hp, wrap_add_wrap_left]
      rfl
    obtain ⟨h1, h2, ⟨l₀, y, h3, h4, h5, h6⟩, h7⟩ := ih (p + mtu) hp'
    have hp1 : placed p (⟨tasn, ⟨false, false, false⟩, data.take mtu⟩ :: segs) =
        (p, ⟨tasn, ⟨false, false, false⟩, data.take mtu, 0⟩) :: placed (p + mtu) segs := by
      rw [placed, hlen]
      rfl
    rw [hrec] at h1 h2 h3 h7
    dsimp only at h1 h2 h3 h7 ⊢
    rw [List.length_drop] at h2 h7
    rw [hp1]
    refine ⟨⟨rfl, ⟨hp, rfl, hlen.le.trans_lt (by decide)⟩, ?_⟩, ?_,
      ⟨_ :: l₀, y, by rw [h3]; rfl, ?_, ?_, h6⟩, ?_⟩
    · rw [Placed.stop]
      dsimp only
      rwa [hlen]
    · have hn : p + mtu + (data.length - mtu) = p + data.length := by omega
      rw [h2, hn]
    · refine List.forall_mem_cons.mpr ⟨⟨?_, rfl⟩, h4⟩
      dsimp only
      rw [hlen]
      decide
    · intro hy
      have := h5 hy
      subst this
      rw [h3] at h7
      simp only [List.nil_append, extent_cons, hy] at h7
      exact absurd h7 (by rw [extent_nil]; omega)
    · rw [extent_cons]
      dsimp only
      rw [hlen, h7]
      omega

namespace Chunks

variable {x : Write} {l : List Placed}

theorem pieces (h : Chunks x l) : ∃ l₀ n, l.map Placed.piece = l₀ ++ [(n, x.endflags.marks)] ∧
    (∀ z ∈ l₀, 0 < z.1 ∧ z.2 = false) ∧ (n = 0 → l₀ = []) ∧ size l₀ + n = x.data.length := by
  obtain ⟨⟨l₀, y, rfl, h1, h2, h3⟩, h4⟩ := h
  refine ⟨l₀.map Placed.piece, y.2.buf.length, ?_, ?_, fun hy => by rw [h2 hy]; rfl, ?_⟩
  · rw [List.map_append, List.map_singleton, Placed.piece, h3]
    rfl
  · intro z hz
    obtain ⟨u, hu, rfl⟩ := List.mem_map.mp hz
    obtain ⟨h5, h6⟩ := h1 u hu
    refine ⟨h5, ?_⟩
    simp only [Flags.any, Bool.or_eq_false_iff] at h6
    simp [Placed.piece, Flags.marks, h6]
  · rw [← h4, extent_append]
    rfl

/-- The pieces of a write frame the same messages as the write. -/
theorem frames (h : Chunks x l) (o : ℕ) (l' : List (ℕ × Bool)) :
    messages o (l.map Placed.piece) = messages o [x.piece] ∧
      rest o (l.map Placed.piece) = rest o [x.piece] ∧
      (Clean o (l.map Placed.piece ++ l') ↔ Clean o (x.piece :: l')) := by
  obtain ⟨l₀, n, h1, h2, h3, h4⟩ := h.pieces
  obtain ⟨h5, h6⟩ := messages_cut h2 o n x.endflags.marks
  rw [h4] at h5 h6
  have h7 := clean_cut h2 o h3 x.endflags.marks l'
  rw [h4] at h7
  rw [h1]
  refine ⟨h5, h6, ?_⟩
  rwa [List.append_assoc]

/-- Only the last segment of a write closes, and only if the write does. -/
theorem closes (h : Chunks x l) : ∃ l₀ y, l = l₀ ++ [y] ∧ (∀ z ∈ l₀, z.2.flags.close = false) ∧
    y.2.flags.close = x.endflags.close := by
  obtain ⟨⟨l₀, y, h1, h2, -, h3⟩, -⟩ := h
  refine ⟨l₀, y, h1, fun z hz => ?_, by rw [h3]; rfl⟩
  have := (h2 z hz).2
  simp only [Flags.any, Bool.or_eq_false_iff] at this
  exact this.2

end Chunks

/-- The writes and the segments that they become. -/
structure Written (p : ℕ) (ws : List Write) (l : List Placed) : Prop where
  consecutive : Consecutive p l
  closesLast : ClosesLast l
  closes : (∃ x ∈ l, x.2.flags.close = true) ↔ ∃ w ∈ ws, w.endflags.close = true
  size : size (l.map Placed.piece) = size (ws.map Write.piece)
  messages : ∀ o, messages o (l.map Placed.piece) = messages o (ws.map Write.piece)
  clean : ∀ o, Clean o (l.map Placed.piece) ↔ Clean o (ws.map Write.piece)

theorem writeAll_closed {ws : List Write} {w w' : Writer} {segs : List Segment}
    (hw : w.endwrite = true) (h : w.writeAll ws = some (w', segs)) : ws = [] ∧ segs = [] := by
  cases ws with
  | nil => cases h; exact ⟨rfl, rfl⟩
  | cons x ws => simp [Writer.writeAll, Writer.writeData, hw] at h

/-- **The segments of a sequence of writes.** -/
theorem writeAll_spec {ws : List Write} {w w' : Writer} {segs : List Segment} {p : ℕ}
    (hp : w.tasn = wrap 32 p) (h : w.writeAll ws = some (w', segs)) :
    Written p ws (placed p segs) := by
  induction ws generalizing w p segs with
  | nil =>
    cases h
    exact ⟨trivial, trivial, by simp [placed], rfl, fun _ => rfl, fun _ => Iff.rfl⟩
  | cons x ws ih =>
    obtain ⟨⟨u, segs₁⟩, h1, h2⟩ := Option.bind_eq_some_iff.mp h
    obtain ⟨⟨v, segs₂⟩, h3, h4⟩ := Option.map_eq_some_iff.mp h2
    cases h4
    unfold Writer.writeData at h1
    split_ifs at h1 with he
    obtain ⟨hc, hn, hk⟩ := writeLoop_spec w.tasn x p hp
    cases h1
    have hi := ih (w := ⟨_, x.endflags.close⟩) (hn.trans (by rw [← hk.extent])) h3
    have hstop : x.endflags.close = true →
        placed (p + extent (placed p (Writer.writeLoop w.tasn x.data x.endflags).1)) segs₂ =
          [] := by
      intro hcl
      rw [(writeAll_closed hcl h3).2]
      rfl
    rw [placed_append]
    generalize placed p (Writer.writeLoop w.tasn x.data x.endflags).1 = l₁ at hc hk hi hstop ⊢
    generalize placed (p + extent l₁) segs₂ = l₂ at hi hstop ⊢
    obtain ⟨l₀, y, h5, h6, h7⟩ := hk.closes
    have hsize : size (l₂.map Placed.piece) = size (ws.map Write.piece) := hi.size
    refine ⟨consecutive_append.mpr ⟨hc, hi.consecutive⟩, ?_, ?_, ?_, fun o => ?_, fun o => ?_⟩
    · rw [h5, List.append_assoc]
      exact closesLast_append h6 ⟨fun hcl => hstop (h7 ▸ hcl), hi.closesLast⟩
    · simp only [List.mem_append, List.mem_cons, or_and_right, exists_or, exists_eq_left, hi.closes]
      refine or_congr_left ⟨fun ⟨z, hz, hcl⟩ => ?_, fun hcl => ⟨y, by simp [h5], h7.trans hcl⟩⟩
      rw [h5] at hz
      rcases List.mem_append.mp hz with hz | hz
      · rw [h6 z hz] at hcl
        cases hcl
      · rw [List.mem_singleton.mp hz, h7] at hcl
        exact hcl
    · rw [List.map_append, size_append, hsize, List.map_cons]
      exact congrArg (· + _) hk.extent
    · rw [List.map_append, messages_append, (hk.frames o []).1, (hk.frames o []).2.1, hi.messages,
        List.map_cons, ← messages_cons]
    · rw [List.map_append, (hk.frames o _).2.2, List.map_cons, Clean, Clean, hi.clean,
        ← size_eq_zero, ← size_eq_zero, hsize]

end Sst
