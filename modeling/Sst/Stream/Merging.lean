import Sst.Stream.Markings

/-!
# Lost marks

A mark without bytes that arrives behind the next segment is out of date, and two messages merge.

* `InOrder`: the state while the segments arrive in order.
* `InOrder.deliver`: in order, no more messages are recorded than were written.
* **`markings_exact`**: every order of arrival records what was written exactly when the writes are
  clean and short.
* `markings_merge`: a write that only ends a message gets lost.
-/

namespace Sst

open Word Framing

/-- Everything up to `R` arrived in order; `o` bytes are open. -/
structure InOrder (connected : Bool) (s : RxStream) (R o : ℕ) : Prop where
  located : Located s R []
  reading : s.endread = false
  connected : s.connected = connected
  length : s.consumed.length = R
  avail : s.ravail = wrap 32 R
  unmarked : s.rmsgavail = wrap 32 o
  short : ∀ n ∈ s.rmsgsize, n < 2 ^ 31

/-- The stream was shut down for reading. -/
def Shut (s : RxStream) : Prop := s.endread = true ∧ s.rmsgsize = []

variable {connected : Bool} {s : RxStream} {R o : ℕ} {x : Placed} {l l₁ l₂ : List Placed}

theorem finish_cases (s : RxStream) (closed : Bool) :
    s.finish closed = s ∨ Shut (s.finish closed) := by
  rw [RxStream.finish, RxStream.shutdownRead]
  split_ifs
  · exact .inr ⟨rfl, rfl⟩
  · exact .inl rfl
  · exact .inl rfl

namespace InOrder

theorem take {t : RxStream} (h : InOrder connected s R o) (h1 : x.1 = R)
    (hl : Located t x.stop []) (hto : t.core = s.core.take x R) :
    ∃ o', InOrder connected t x.stop o' ∧ ∀ l, t.rmsgsize.length + (messages o' l).length ≤
      s.rmsgsize.length + (messages o (x.piece :: l)).length := by
  have hle : R ≤ x.stop := by
    rw [Placed.stop]
    omega
  have hsz : x.stop - R = x.2.buf.length := by
    rw [Placed.stop]
    omega
  have hw : wrap 32 (s.core.rmsgavail + (x.stop - R : ℕ)) = wrap 32 (o + x.2.buf.length : ℕ) := by
    change wrap 32 (s.rmsgavail + _) = _
    rw [h.unmarked, wrap_add_wrap_left, hsz]
    norm_cast
  have hra : t.ravail = wrap 32 x.stop := by
    refine ((congrArg RxStream.ravail hto).trans (RxStream.take_ravail _ _ _)).trans ?_
    change wrap 32 (s.ravail + _) = _
    rw [h.avail, wrap_add_wrap_left]
    congr 1
    omega
  have hmv : t.rmsgavail = _ :=
    (congrArg RxStream.rmsgavail hto).trans (RxStream.take_rmsgavail _ _ _)
  have hms : t.rmsgsize = ite _ (s.rmsgsize ++ _) s.rmsgsize :=
    (congrArg RxStream.rmsgsize hto).trans (RxStream.take_rmsgsize _ _ _)
  rw [hw] at hmv hms
  have hbase : ∀ o', t.rmsgavail = wrap 32 (o' : ℕ) → (∀ n ∈ t.rmsgsize, n < 2 ^ 31) →
      InOrder connected t x.stop o' := fun o' ho' hsh =>
    ⟨hl, (congrArg RxStream.endread hto).trans ((RxStream.take_endread _ _ _).trans h.reading),
      (congrArg RxStream.connected hto).trans ((RxStream.take_connected _ _ _).trans h.connected),
      (congrArg (fun u => u.consumed.length) hto).trans
        (RxStream.length_consumed_take h1.le hle h.length), hra, ho', hsh⟩
  by_cases hm : (x.2.flags.marks && decide (0 < wrap 32 (o + x.2.buf.length : ℕ))) = true
  · rw [if_pos hm] at hmv hms
    rw [Bool.and_eq_true, decide_eq_true_eq] at hm
    have hpos : 0 < o + x.2.buf.length := by
      refine Nat.pos_of_ne_zero fun h0 => ?_
      rw [h0] at hm
      simp at hm
    refine ⟨0, hbase 0 (hmv.trans (wrap_zero 32).symm) fun n hn => ?_, fun l => ?_⟩
    · rw [hms] at hn
      rcases List.mem_append.mp hn with hn | hn
      · exact h.short n hn
      · rw [List.mem_singleton.mp hn]
        exact wrap_lt (by decide) _
    · rw [hms, Placed.piece, hm.1]
      simp only [messages, hpos, if_true, List.length_append, List.length_cons, List.length_nil]
      omega
  · rw [if_neg hm] at hmv hms
    refine ⟨o + x.2.buf.length, hbase _ hmv (hms ▸ h.short), fun l => ?_⟩
    rw [hms, Placed.piece]
    refine Nat.add_le_add_left ?_ _
    cases hmk : x.2.flags.marks with
    | false => exact le_rfl
    | true =>
      simp only [messages]
      split_ifs with hpos
      · exact length_messages_le _ l
      · rw [Nat.eq_zero_of_not_pos hpos]

/-- **The next segment in order.** -/
theorem next (h : InOrder connected s R o) (hx : Fits x) (h1 : x.1 = R) :
    ∃ t o', s.rxData x.2 = t.finish x.2.flags.close ∧ InOrder connected t x.stop o' ∧
      ∀ l, t.rmsgsize.length + (messages o' l).length ≤
        s.rmsgsize.length + (messages o (x.piece :: l)).length := by
  by_cases hst : Stale x R
  · obtain ⟨hs, hf⟩ : x.stop = R ∧ x.2.flags.any = false := by
      rcases hst with hst | hst
      · rw [Placed.stop] at hst
        omega
      · exact hst
    simp only [Flags.any, Bool.or_eq_false_iff] at hf
    have hp : x.piece = (0, false) := by
      rw [Placed.stop] at hs
      exact Prod.ext (by dsimp only [Placed.piece]; omega) (by simp [Placed.piece, Flags.marks, hf])
    refine ⟨s, o, ?_, hs ▸ h, fun l => by rw [hp]; exact le_rfl⟩
    rw [RxStream.rxData_stale h.located hx (by omega) h1.le hst, RxStream.finish, hf.2]
    rfl
  · have hle : R ≤ x.stop := by
      rw [Placed.stop]
      omega
    obtain ⟨t, hrx, hl, hto⟩ := RxStream.rxData_next h.located h.reading hx h1.le hle hst
    obtain ⟨o', h2, h3⟩ := h.take h1 hl hto
    exact ⟨t, o', hrx, h2, h3⟩

end InOrder

theorem deliver_append (s : RxStream) (l₁ l₂ : List Placed) :
    deliver s (l₁ ++ l₂) = deliver (deliver s l₁) l₂ :=
  List.foldl_append

theorem inWindow_append (s : RxStream) (l₁ l₂ : List Placed) :
    InWindow s (l₁ ++ l₂) ↔ InWindow s l₁ ∧ InWindow (deliver s l₁) l₂ := by
  induction l₁ generalizing s with
  | nil => exact (and_iff_right trivial).symm
  | cons x l₁ ih =>
    rw [List.cons_append, InWindow, InWindow, ih, and_assoc]
    rfl

/-- A stream that was shut down takes nothing more. -/
theorem Shut.deliver (h : Shut s) (l : List Placed) : InWindow s l ∧ deliver s l = s := by
  induction l with
  | nil => exact ⟨trivial, rfl⟩
  | cons x l ih =>
    have hx : s.rxData x.2 = s := by rw [RxStream.rxData, if_pos h.1]
    refine ⟨⟨fun he => ?_, ?_⟩, ?_⟩
    · rw [h.1] at he
      cases he
    · rw [hx]
      exact ih.1
    · change Sst.deliver (s.rxData x.2) l = s
      rw [hx]
      exact ih.2

/-- **In order no more messages are recorded than are there.** -/
theorem InOrder.deliver (hl : Consecutive R l) (h : InOrder connected s R o) :
    InWindow s l ∧ (∀ n ∈ (deliver s l).rmsgsize, n < 2 ^ 31) ∧
      (Shut (deliver s l) ∨ ∃ o', InOrder connected (deliver s l) (R + extent l) o' ∧
        ∀ l', (deliver s l).rmsgsize.length + (messages o' l').length ≤
          s.rmsgsize.length + (messages o (pieces l ++ l')).length) := by
  induction l generalizing s R o with
  | nil => exact ⟨trivial, h.short, .inr ⟨o, h, fun l' => le_rfl⟩⟩
  | cons x l ih =>
    obtain ⟨h1, hx, hl⟩ := hl
    obtain ⟨t, o', h2, h3, h4⟩ := h.next hx h1
    have hwin : s.endread = false → s.consumed.length ≤ x.1 + 2 ^ 31 ∧
        x.1 < s.consumed.length + 2 ^ 31 := fun _ => by
      rw [h.length]
      omega
    have hdel : Sst.deliver s (x :: l) = Sst.deliver (t.finish x.2.flags.close) l := by
      rw [← h2]
      rfl
    rw [InWindow, hdel, h2]
    rcases finish_cases t x.2.flags.close with h5 | h5
    · rw [h5]
      obtain ⟨h6, h7, h8⟩ := ih hl h3
      refine ⟨⟨hwin, h6⟩, h7, ?_⟩
      rcases h8 with h8 | ⟨o'', h8, h9⟩
      · exact .inl h8
      refine .inr ⟨o'', ?_, fun l' => ?_⟩
      · have : R + extent (x :: l) = x.stop + extent l := by
          rw [extent_cons, Placed.stop, h1, Nat.add_assoc]
        rw [this]
        exact h8
      · exact (h9 l').trans (h4 _)
    · obtain ⟨h6, h7⟩ := h5.deliver l
      rw [h7, h5.2]
      exact ⟨⟨hwin, h6⟩, List.forall_mem_nil _, .inl h5⟩

theorem inOrder_new (connected : Bool) : InOrder connected (.new connected) 0 0 :=
  ⟨⟨(wrap_zero 32).symm, rfl, nofun, .nil, nofun⟩, rfl, rfl, rfl, (wrap_zero 32).symm,
    (wrap_zero 32).symm, nofun⟩

theorem InOrder.stale (h : InOrder connected s R o)
    (hl : ∀ x ∈ l, Fits x ∧ x.stop < R ∧ R ≤ x.1 + 2 ^ 31) :
    InWindow s l ∧ Sst.deliver s l = s := by
  induction l with
  | nil => exact ⟨trivial, rfl⟩
  | cons x l ih =>
    obtain ⟨⟨hx, h1, h2⟩, hl⟩ := List.forall_mem_cons.mp hl
    have h3 : x.1 ≤ R := by
      rw [Placed.stop] at h1
      omega
    have hrx := RxStream.rxData_stale h.located hx h2 h3 (.inl h1)
    obtain ⟨h4, h5⟩ := ih hl
    refine ⟨⟨fun _ => by rw [h.length]; omega, hrx.symm ▸ h4⟩, ?_⟩
    change Sst.deliver (s.rxData x.2) l = s
    rw [hrx, h5]

/-- **A mark that arrives behind the next segment is lost.** -/
theorem deliver_merged {l₃ : List Placed} (connected : Bool)
    (h : Consecutive 0 (l₁ ++ l₂ ++ x :: l₃)) (hb : 0 < x.2.buf.length)
    (hl : ∀ y ∈ l₂, y.2.buf.length = 0) :
    InWindow (.new connected) (l₁ ++ x :: (l₂ ++ l₃)) ∧
      (deliver (.new connected) (l₁ ++ x :: (l₂ ++ l₃))).rmsgsize.length ≤
        (messages 0 (pieces (l₁ ++ x :: l₃))).length := by
  rw [List.append_assoc] at h
  obtain ⟨h1, h2⟩ := consecutive_append.mp h
  obtain ⟨h3, h4, hx, h5⟩ := consecutive_append.mp h2
  have he : extent l₂ = 0 := by
    refine size_eq_zero.mpr fun y hy => ?_
    obtain ⟨z, hz, rfl⟩ := List.mem_map.mp hy
    exact hl z hz
  rw [he, Nat.add_zero, Nat.zero_add] at h4
  rw [inWindow_append, deliver_append]
  obtain ⟨h6, -, h7⟩ := (inOrder_new connected).deliver h1
  rcases h7 with h7 | ⟨o, h7, h8⟩
  · obtain ⟨h8, h9⟩ := h7.deliver (x :: (l₂ ++ l₃))
    rw [h9, h7.2]
    exact ⟨⟨h6, h8⟩, Nat.zero_le _⟩
  · generalize deliver (.new connected) l₁ = u at h7 h8 ⊢
    rw [Nat.zero_add] at h7
    have hwin : u.endread = false → u.consumed.length ≤ x.1 + 2 ^ 31 ∧
        x.1 < u.consumed.length + 2 ^ 31 := fun _ => by
      rw [h7.length]
      omega
    obtain ⟨t, o', h9, h10, h11⟩ := h7.next hx h4
    have hdel : deliver u (x :: (l₂ ++ l₃)) = deliver (t.finish x.2.flags.close) (l₂ ++ l₃) := by
      rw [← h9]
      rfl
    rw [InWindow, hdel, h9]
    rcases finish_cases t x.2.flags.close with h12 | h12
    · rw [h12, inWindow_append, deliver_append]
      have hst : ∀ y ∈ l₂, Fits y ∧ y.stop < x.stop ∧ x.stop ≤ y.1 + 2 ^ 31 := by
        intro y hy
        have hy1 := h3.bounds hy
        have hsz := hx.size
        rw [he] at hy1
        rw [Placed.stop, Placed.stop, hl y hy]
        rw [Placed.stop] at hy1
        exact ⟨h3.fits hy, by omega, by omega⟩
      obtain ⟨h13, h14⟩ := h10.stale hst
      rw [h14]
      obtain ⟨h15, -, h16⟩ := h10.deliver h5
      refine ⟨⟨h6, hwin, h13, h15⟩, ?_⟩
      rcases h16 with h16 | ⟨o'', -, h16⟩
      · rw [h16.2]
        exact Nat.zero_le _
      · have h17 := h16 []
        have h18 := h11 (pieces l₃)
        have h19 := h8 (x.piece :: pieces l₃)
        rw [List.append_nil] at h17
        rw [pieces_append]
        exact ((Nat.le_add_right _ _).trans h17).trans
          (h18.trans (h19.trans (by simp [pieces, RxStream.new])))
    · obtain ⟨h13, h14⟩ := h12.deliver (l₂ ++ l₃)
      rw [h14, h12.2]
      exact ⟨⟨h6, hwin, h13⟩, Nat.zero_le _⟩

/-- A connected stream of a positive multiple of `2 ^ 32` bytes is shut down when it is closed. -/
theorem deliver_closed (h : Consecutive 0 (l ++ [x])) (hc : x.2.flags.close = true)
    (hd : 2 ^ 32 ∣ extent (l ++ [x])) : (deliver (.new true) (l ++ [x])).rmsgsize = [] := by
  obtain ⟨h1, h2, hx, -⟩ := consecutive_append.mp h
  rw [deliver_append]
  obtain ⟨-, -, h7⟩ := (inOrder_new true).deliver h1
  rcases h7 with h7 | ⟨o, h7, -⟩
  · rw [(h7.deliver [x]).2, h7.2]
  · obtain ⟨t, o', h8, h9, -⟩ := h7.next hx h2
    change ((deliver (.new true) l).rxData x.2).rmsgsize = []
    have hst : extent (l ++ [x]) = x.stop := by
      rw [extent_append, extent_cons, extent_nil, Placed.stop, h2]
      omega
    have hav : t.ravail = 0 := by
      rw [h9.avail, wrap_eq_zero_iff, ← hst]
      exact_mod_cast hd
    rw [h8, RxStream.finish, hc, hav, if_pos (by decide), RxStream.shutdownRead, h9.connected,
      h9.reading]
    rfl

/-- The bytes written. -/
def total (ws : List Write) : ℕ := size (ws.map Write.piece)

/-- Every segment arrives, in any order and any number of times; in a stream of `2 ^ 31` bytes or
more, each near the receive point. -/
def Delivers (connected : Bool) (S l : List Placed) : Prop :=
  (∀ x, x ∈ l ↔ x ∈ S) ∧ (extent S < 2 ^ 31 ∨ InWindow (.new connected) l)

/-- No write that only ends a message ends one that is open before more bytes; the messages are
shorter than `2 ^ 31` bytes; and a closed stream is not a positive multiple of `2 ^ 32` bytes. -/
structure CleanWrites (connected : Bool) (ws : List Write) : Prop where
  clean : Clean 0 (ws.map Write.piece)
  short : ∀ n ∈ written ws, n < 2 ^ 31
  closeSeen : CloseSeen connected (∃ w ∈ ws, w.endflags.close = true) (total ws)

/-- **The marks recorded are those written in every order of arrival exactly when the writes are
clean.** -/
theorem markings_exact {ws : List Write} {w : Writer} {segs : List Segment} (connected : Bool)
    (h : Writer.new.writeAll ws = some (w, segs)) :
    (∀ l, Delivers connected (placed 0 segs) l → Records (deliver (.new connected) l) ws) ↔
      CleanWrites connected ws := by
  have hW : Written 0 ws (placed 0 segs) := writeAll_spec (wrap_zero 32).symm h
  generalize placed 0 segs = S at hW
  have hext : extent S = total ws := hW.size
  have hmsg : messages 0 (pieces S) = written ws := hW.messages 0
  have hord := ((inOrder_new connected).deliver hW.consecutive)
  refine ⟨fun hall => ?_, fun hc l hl => ?_⟩
  · obtain ⟨hrec, -⟩ := hall S ⟨fun _ => Iff.rfl, .inr hord.1⟩
    refine ⟨?_, fun n hn => ?_, ?_⟩
    · by_contra hcl
      rw [← hW.clean] at hcl
      obtain ⟨p₁, p₂, y, p₃, hp, ho, hz, hy⟩ := exists_of_not_clean hcl
      obtain ⟨l₁', l₃', rfl, h1, h2⟩ := List.map_eq_append_iff.mp hp
      obtain ⟨l₁, l₂, rfl, rfl, h3⟩ := List.map_eq_append_iff.mp h1
      obtain ⟨x, l₃, rfl, rfl, rfl⟩ := List.map_eq_cons_iff.mp h2
      have hempty : ∀ u ∈ l₂, u.2.buf.length = 0 := by
        intro u hu
        have hu' : u.piece ∈ (0, true) :: p₂ := h3 ▸ List.mem_map_of_mem hu
        rcases List.mem_cons.mp hu' with hu' | hu'
        · exact congrArg Prod.fst hu'
        · exact hz _ hu'
      obtain ⟨h4, h5⟩ := deliver_merged connected hW.consecutive hy hempty
      obtain ⟨h6, -⟩ := hall _ ⟨fun u => by simp [or_left_comm], .inr h4⟩
      rw [h6, List.length_map, ← hmsg] at h5
      have h7 := messages_merge 0 (pieces l₁) p₂ (pieces l₃) ho hz hy
      have h8 : pieces (l₁ ++ l₂ ++ x :: l₃) =
        pieces l₁ ++ (0, true) :: p₂ ++ x.piece :: pieces l₃ :=
        hp
      rw [h8, h7, pieces_append] at h5
      exact Nat.not_succ_le_self _ h5
    · have := hord.2.1 n (by rw [hrec]; exact List.mem_map_of_mem hn)
      exact_mod_cast this
    · rintro rfl hcl hd
      by_contra hne
      obtain ⟨x, hx, hxc⟩ := hW.closes.mpr hcl
      obtain ⟨l, rfl⟩ := hW.closesLast.last hx hxc
      rw [deliver_closed hW.consecutive hxc (hext ▸ hd), eq_comm, List.map_eq_nil_iff,
        ← hmsg] at hrec
      have hp : pieces (l ++ [x]) = pieces l ++ (x.2.buf.length, true) :: [] := by
        rw [pieces_append, pieces, pieces, List.map_singleton]
        exact congrArg (pieces l ++ [·]) (Prod.ext rfl (by simp [Placed.piece, Flags.marks, hxc]))
      have hsum := sum_messages 0 (pieces (l ++ [x]))
      have hrest : rest 0 (pieces (l ++ [x])) = 0 := by rw [hp, rest_mark (List.forall_mem_nil _)]
      rw [hrec, hrest, List.sum_nil] at hsum
      exact hne (by rw [← hext, extent, ← pieces]; omega)
  · have hS : CleanStream S := ⟨hW.consecutive, hW.closesLast, (hW.clean 0).mpr hc.clean,
      fun n hn => hc.short n (hmsg ▸ hn)⟩
    have hcs : CloseSeen connected (∃ x ∈ S, x.2.flags.close = true) (extent S) := by
      rw [hW.closes, hext]
      exact hc.closeSeen
    have harr := (arrived_new connected S).deliver hS (fun x hx => (hl.1 x).mp hx) hcs hl.2
    have hrec := harr.records hS fun x hx => by simpa using (hl.1 x).mpr hx
    rw [hmsg, hW.closes] at hrec
    exact hrec

/-- A message of one byte, and the close. -/
def messageThenClose : List Write := [⟨[7], ⟨false, true, false⟩⟩, ⟨[], ⟨false, false, true⟩⟩]

/-- The close arrives first, the message twice. -/
theorem markings_exact_reversed : ∃ w segs, Writer.new.writeAll messageThenClose = some (w, segs) ∧
    Records (deliver (.new true) ((placed 0 segs).reverse ++ placed 0 segs)) messageThenClose := by
  obtain ⟨w, segs, h⟩ : ∃ w segs, Writer.new.writeAll messageThenClose = some (w, segs) :=
    ⟨_, _, rfl⟩
  refine ⟨w, segs, h, (markings_exact true h).mpr ⟨?_, ?_, ?_⟩ _ ⟨fun x => by simp, ?_⟩⟩
  · exact ⟨nofun, fun _ _ => .inl rfl, trivial⟩
  · decide
  · exact fun _ _ hd => absurd hd (by decide)
  · have hW := (writeAll_spec (p := 0) (wrap_zero 32).symm h).size
    exact .inl (hW.trans_lt (by decide))

/-- A byte, the end of its message, and another message of one byte. -/
def lateMark : List Write :=
  [⟨[7], ⟨false, false, false⟩⟩, ⟨[], ⟨false, true, false⟩⟩, ⟨[8], ⟨false, true, false⟩⟩]

/-- The end of the first message arrives last and is lost: one message of two bytes is recorded. -/
theorem markings_merge : ¬∀ ws w segs, Writer.new.writeAll ws = some (w, segs) →
    ∀ l, Delivers true (placed 0 segs) l → Records (deliver (.new true) l) ws := by
  intro hall
  have hw : Writer.new.writeAll lateMark = some (⟨2, false⟩, [⟨0, ⟨true, false, false⟩, [7]⟩,
      ⟨1, ⟨true, true, false⟩, []⟩, ⟨1, ⟨true, true, false⟩, [8]⟩]) := by
    simp [lateMark, Writer.writeAll, Writer.writeData, Writer.writeLoop, mtu, Writer.new,
      Flags.pushed, wrap_eq_self]
  have := (hall _ _ _ hw [(0, ⟨0, ⟨true, false, false⟩, [7], 0⟩),
    (1, ⟨1, ⟨true, true, false⟩, [8], 0⟩), (1, ⟨1, ⟨true, true, false⟩, [], 0⟩)]
    ⟨fun x => by simp [placed, Segment.received, or_comm], .inl (by decide)⟩).1
  revert this
  decide +kernel

end Sst
