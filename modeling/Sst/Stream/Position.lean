import Sst.Stream.Receive

/-!
# Absolute positions

The code compares 32-bit positions modulo `2 ^ 32`. Here every segment gets its absolute position
in the stream, and `rxData` is described without the modulus.

* `Placed`, `Fits`: a segment with its absolute position.
* `Located s R L`: the receive point is `R`, and the reorder buffer holds the placed segments `L`.
* `RxStream.take`: what queueing a segment does.
* **`RxStream.rxData_spec`**: a property kept when a pending segment is skipped, taken, repeated or
  moved is kept by `rxData`.
-/

namespace Sst

open Word

/-- A segment with its absolute position. -/
abbrev Placed := ℕ × RxSegment

/-- The position behind the segment. -/
def Placed.stop (x : Placed) : ℕ := x.1 + x.2.buf.length

/-- The segment as it arrives at its absolute position. -/
structure Fits (x : Placed) : Prop where
  rsn : x.2.rsn = wrap 32 x.1
  hdrlen : x.2.hdrlen = 0
  size : x.2.buf.length < 2 ^ 31

/-- The segment ends before `R`, or at `R` without flags. -/
def Stale (x : Placed) (R : ℕ) : Prop := x.stop < R ∨ x.stop = R ∧ x.2.flags.any = false

/-- The receive point is `R`, and the reorder buffer holds `L`, sorted, all beyond `R`. -/
structure Located (s : RxStream) (R : ℕ) (L : List Placed) : Prop where
  rsn : s.rsn = wrap 32 R
  rahead : s.rahead = L.map Prod.snd
  fits : ∀ x ∈ L, Fits x
  sorted : L.Pairwise fun x y => x.1 ≤ y.1
  beyond : ∀ x ∈ L, R < x.1 ∧ x.1 < R + 2 ^ 31

namespace RxStream

/-- The state apart from the reorder buffer. -/
def core (s : RxStream) : RxStream := { s with rahead := [], rbufused := 0 }

/-- What queueing `x` does at the receive point `R`. -/
def take (s : RxStream) (x : Placed) (R : ℕ) : RxStream :=
  let rmsgavail := wrap 32 (s.rmsgavail + (x.stop - R : ℕ))
  let marked := x.2.flags.marks && decide (0 < rmsgavail)
  { s with
    rsegs := s.rsegs ++ [{ x.2 with hdrlen := R - x.1 }]
    rsn := wrap 32 x.stop
    ravail := wrap 32 (s.ravail + (x.stop - R : ℕ))
    rmsgavail := if marked then 0 else rmsgavail
    rmsgsize := if marked then s.rmsgsize ++ [rmsgavail] else s.rmsgsize }

theorem take_connected (s : RxStream) (x : Placed) (R : ℕ) :
    (s.take x R).connected = s.connected := by
  cases s
  rfl

theorem take_endread (s : RxStream) (x : Placed) (R : ℕ) : (s.take x R).endread = s.endread := by
  cases s
  rfl

theorem take_reads (s : RxStream) (x : Placed) (R : ℕ) : (s.take x R).reads = s.reads := by
  cases s
  rfl

theorem take_rsegs (s : RxStream) (x : Placed) (R : ℕ) :
    (s.take x R).rsegs = s.rsegs ++ [{ x.2 with hdrlen := R - x.1 }] := by
  cases s
  rfl

/-- The end of `rxData`: shut down when the stream is closed and nothing is left to read. -/
def finish (s : RxStream) (closed : Bool) : RxStream :=
  if closed && s.ravail = 0 then s.shutdownRead else s

variable {s : RxStream} {R : ℕ} {x : Placed}

/-! ## Distances -/

theorem rsnDiff_eq (hr : s.rsn = wrap 32 R) (hx : Fits x) (h1 : R ≤ x.1 + 2 ^ 31)
    (h2 : x.1 < R + 2 ^ 31) : s.rsnDiff x.2 = x.1 - R := by
  rw [rsnDiff, hr, hx.rsn]
  exact wrap_sub_wrap_eq (by decide) (by omega) (by omega)

theorem segmentSize_eq (hx : Fits x) : x.2.segmentSize = x.2.buf.length := by
  rw [RxSegment.segmentSize, hx.hdrlen]
  omega

theorem actSize_eq (hr : s.rsn = wrap 32 R) (hx : Fits x) (h1 : R ≤ x.1 + 2 ^ 31)
    (h2 : x.1 < R + 2 ^ 31) : s.actSize x.2 = x.stop - R := by
  rw [actSize, rsnDiff_eq hr hx h1 h2, segmentSize_eq hx, Placed.stop]
  push_cast
  omega

theorem outOfDate_iff (hr : s.rsn = wrap 32 R) (hx : Fits x) (h1 : R ≤ x.1 + 2 ^ 31)
    (h2 : x.1 < R + 2 ^ 31) : s.outOfDate x.2 = true ↔ Stale x R := by
  rw [outOfDate, actSize_eq hr hx h1 h2, Stale]
  simp only [Bool.or_eq_true, Bool.and_eq_true, decide_eq_true_eq, Bool.not_eq_true',
    sub_neg, Int.sub_eq_zero, Nat.cast_lt, Nat.cast_inj]

/-- Queueing a segment, without the modulus. -/
theorem core_consume (hr : s.rsn = wrap 32 R) (hx : Fits x) (h1 : x.1 ≤ R) (h2 : R ≤ x.stop) :
    (s.consume x.2).core = s.core.take x R := by
  have hsz := hx.size
  have hs : R ≤ x.1 + 2 ^ 31 := by
    unfold Placed.stop at h2
    omega
  have ha : s.actSize x.2 = (x.stop - R : ℕ) := by
    rw [actSize_eq hr hx hs (by omega)]
    omega
  have hd : (-s.rsnDiff x.2).toNat = R - x.1 := by
    rw [rsnDiff_eq hr hx hs (by omega)]
    omega
  have hn : wrap 32 (s.rsn + (x.stop - R : ℕ)) = wrap 32 x.stop := by
    rw [hr, wrap_add_wrap_left]
    congr 1
    omega
  unfold consume take core
  simp only [ha, hd, hn, hx.hdrlen, Nat.zero_add]

/-! ## The reorder buffer -/

/-- What `rxData` may do to a property of the state, the receive point, the pending segments and
the close mark. -/
structure Handles (P : RxStream → ℕ → List Placed → Bool → Prop) : Prop where
  skip : ∀ s R x L c, P s R (x :: L) c → Fits x → Stale x R → P s R L c
  take : ∀ s R x L c, P s R (x :: L) c → Fits x → x.1 ≤ R → R ≤ x.stop →
    R < x.stop ∨ x.2.flags.any = true → P (s.take x R) x.stop L (c || x.2.flags.close)
  perm : ∀ s R L L' c, P s R L c → L.Perm L' → P s R L' c
  repeated : ∀ s R x y L c, P s R (x :: L) c → y ∈ L → y.1 = x.1 → x.stop ≤ y.stop →
    x.2.flags = y.2.flags → P s R L c

variable {P : RxStream → ℕ → List Placed → Bool → Prop}

theorem Handles.consume (hP : Handles P) {L : List Placed} {c : Bool} (hr : s.rsn = wrap 32 R)
    (hx : Fits x) (h1 : x.1 ≤ R) (hst : ¬Stale x R) (h : P s.core R (x :: L) c) :
    P (s.consume x.2).core x.stop L (c || x.2.flags.close) ∧ R ≤ x.stop := by
  unfold Stale at hst
  rw [not_or, not_and_or, Bool.not_eq_false] at hst
  obtain ⟨h2, h3⟩ := hst
  have h2 := not_lt.mp h2
  rw [core_consume hr hx h1 h2]
  exact ⟨hP.take _ _ _ _ _ h hx h1 h2 (h3.imp_left fun h3 => lt_of_le_of_ne h2 (Ne.symm h3)), h2⟩

theorem rsn_consume (hr : s.rsn = wrap 32 R) (hx : Fits x) (h1 : x.1 ≤ R) (h2 : R ≤ x.stop) :
    (s.consume x.2).rsn = wrap 32 x.stop := by
  calc (s.consume x.2).rsn = (s.consume x.2).core.rsn := rfl
    _ = (s.core.take x R).rsn := by rw [core_consume hr hx h1 h2]
    _ = wrap 32 x.stop := by unfold take; dsimp only

/-- Once `x` is taken, a later segment is still near the receive point. -/
theorem near_stop {y : Placed} (hx : Fits x) (hxy : x.1 ≤ y.1) (hy : y.1 < R + 2 ^ 31)
    (h : R ≤ x.stop) : x.stop ≤ y.1 + 2 ^ 31 ∧ y.1 < x.stop + 2 ^ 31 := by
  have hsz := hx.size
  unfold Placed.stop at h ⊢
  exact ⟨by omega, by omega⟩

/-- **The pull loop** skips or takes each segment until it meets a gap. -/
theorem pull_spec (hP : Handles P) (L : List Placed) : ∀ (s : RxStream) (R : ℕ) (c : Bool),
    s.rsn = wrap 32 R → (∀ x ∈ L, Fits x) → L.Pairwise (fun x y => x.1 ≤ y.1) →
    (∀ x ∈ L, R ≤ x.1 + 2 ^ 31 ∧ x.1 < R + 2 ^ 31) → P s.core R L c →
    ∃ R' L', Located (pull (L.map Prod.snd) s c).1 R' L' ∧
      P (pull (L.map Prod.snd) s c).1.core R' L' (pull (L.map Prod.snd) s c).2 := by
  induction L with
  | nil =>
    intro s R c hr _ _ _ h
    exact ⟨R, [], ⟨hr, rfl, nofun, .nil, nofun⟩, h⟩
  | cons x L ih =>
    intro s R c hr hf hs hn h
    obtain ⟨hx, hf'⟩ := List.forall_mem_cons.mp hf
    obtain ⟨hxL, hs'⟩ := List.pairwise_cons.mp hs
    obtain ⟨hnx, hn'⟩ := List.forall_mem_cons.mp hn
    have hd : s.rsnDiff x.2 = x.1 - R := rsnDiff_eq hr hx hnx.1 hnx.2
    rw [List.map_cons]
    unfold pull
    dsimp only
    split_ifs with h1 h2
    · refine ⟨R, x :: L, ⟨hr, rfl, hf, hs, ?_⟩, h⟩
      have hxR : R < x.1 := by omega
      exact List.forall_mem_cons.mpr ⟨⟨hxR, hnx.2⟩,
        fun y hy => ⟨hxR.trans_le (hxL y hy), (hn' y hy).2⟩⟩
    · have hst : Stale x R := by
        refine (outOfDate_iff ?_ hx hnx.1 hnx.2).mp h2
        exact hr
      exact ih _ R c hr hf' hs' hn' (hP.skip _ _ _ _ _ h hx hst)
    · have hst : ¬Stale x R := by
        intro hst
        exact h2 ((outOfDate_iff (s := { s with rbufused := _ }) hr hx hnx.1 hnx.2).mpr hst)
      have hle : x.1 ≤ R := by omega
      obtain ⟨h3, h4⟩ := hP.consume
        (s := { s with rbufused := wrap 32 (s.rbufused - x.2.segmentSize) }) hr hx hle hst h
      exact ih _ x.stop _ (rsn_consume hr hx hle h4) hf' hs'
        (fun y hy => near_stop hx (hxL y hy) (hn' y hy).2 h4) h3

theorem liesBefore_iff {L : List Placed} (hl : Located s R L) (d : ℤ) (i : ℕ) :
    s.liesBefore d i = true ↔ ∃ y, L[i]? = some y ∧ (y.1 : ℤ) - R < d := by
  rw [liesBefore, hl.rahead, List.getElem?_map, Option.any_map, Option.any_eq_true]
  refine exists_congr fun y => ⟨fun ⟨h1, h2⟩ => ⟨h1, ?_⟩, fun ⟨h1, h2⟩ => ⟨h1, ?_⟩⟩
  · have hy := List.mem_of_getElem? h1
    have hb := hl.beyond y hy
    rw [rsnDiff_eq hl.rsn (hl.fits y hy) (by omega) (by omega)] at h2
    exact of_decide_eq_true h2
  · have hy := List.mem_of_getElem? h1
    have hb := hl.beyond y hy
    rw [rsnDiff_eq hl.rsn (hl.fits y hy) (by omega) (by omega)]
    exact decide_eq_true h2

/-- The index found separates the earlier from the later positions. -/
theorem parkIndex_spec {L : List Placed} (hl : Located s R L) (p : ℕ) :
    s.parkIndex (p - R) ≤ L.length ∧ (∀ y ∈ L.take (s.parkIndex (p - R)), y.1 < p) ∧
      ∀ y ∈ L.drop (s.parkIndex (p - R)), p ≤ y.1 := by
  have hlen : s.rahead.length = L.length := by rw [hl.rahead, List.length_map]
  have hiff : ∀ i, s.liesBefore (p - R) i = true ↔ ∃ y, L[i]? = some y ∧ y.1 < p := by
    intro i
    rw [liesBefore_iff hl]
    exact exists_congr fun y => and_congr_right fun _ => by omega
  have hmono : ∀ i j, i ≤ j → j < L.length → s.liesBefore (p - R) j = true →
      s.liesBefore (p - R) i = true := by
    intro i j hij hj hb
    obtain ⟨y, hy, hyp⟩ := (hiff j).mp hb
    have hi : i < L.length := by omega
    refine (hiff i).mpr ⟨L[i], List.getElem?_eq_getElem hi, ?_⟩
    rcases Nat.eq_or_lt_of_le hij with rfl | hlt
    · rw [List.getElem?_eq_getElem hi, Option.some_inj] at hy
      rw [hy]
      exact hyp
    · have := List.pairwise_iff_getElem.mp hl.sorted i j hi hj hlt
      rw [List.getElem?_eq_getElem hj, Option.some_inj] at hy
      rw [hy] at this
      omega
  obtain ⟨k, hk⟩ : ∃ k, s.parkIndex (p - R) = k := ⟨_, rfl⟩
  have key : k ≤ L.length ∧ (∀ i < k, s.liesBefore (p - R) i = true) ∧
      ∀ i, k ≤ i → i < L.length → s.liesBefore (p - R) i = false := by
    dsimp only [parkIndex] at hk
    rw [hlen] at hk
    split_ifs at hk with h
    · rw [Bool.and_eq_true, decide_eq_true_eq] at h
      subst hk
      exact ⟨le_rfl, fun i hi => hmono i _ (by omega) (by omega) h.2, fun i h1 h2 => by omega⟩
    · subst hk
      exact Search.lowerBound_spec hmono
  rw [hk]
  obtain ⟨h1, h2, h3⟩ := key
  refine ⟨h1, fun y hy => ?_, fun y hy => ?_⟩
  · obtain ⟨i, hi, rfl⟩ := List.mem_take_iff_getElem.mp hy
    obtain ⟨z, hz, hzp⟩ := (hiff i).mp (h2 i (by omega))
    rw [List.getElem?_eq_getElem (by omega), Option.some_inj] at hz
    rw [hz]
    exact hzp
  · obtain ⟨i, hi, rfl⟩ := List.mem_drop_iff_getElem.mp hy
    have := h3 (k + i) (Nat.le_add_right k i) (by omega)
    refine not_lt.mp fun hlt => Bool.eq_false_iff.mp this ?_
    exact (hiff _).mpr ⟨_, List.getElem?_eq_getElem _, by simpa [Nat.add_comm] using hlt⟩

/-- Two positions near the receive point with the same word are equal. -/
theorem eq_of_rsn_eq {y : Placed} (hx : Fits x) (hy : Fits y) (h1 : R < x.1 ∧ x.1 < R + 2 ^ 31)
    (h2 : R < y.1 ∧ y.1 < R + 2 ^ 31) (h : y.2.rsn = x.2.rsn) : y.1 = x.1 := by
  have e1 : wrap 32 (x.2.rsn - wrap 32 R) = x.1 - R := by
    rw [hx.rsn]
    exact wrap_sub_wrap_eq (by decide) (by omega) (by omega)
  have e2 : wrap 32 (y.2.rsn - wrap 32 R) = y.1 - R := by
    rw [hy.rsn]
    exact wrap_sub_wrap_eq (by decide) (by omega) (by omega)
  rw [h, e1] at e2
  omega

/-- **Parking** leaves the segment out or inserts it in order. -/
theorem park_spec (hP : Handles P) {L : List Placed} (hl : Located s R L) (hx : Fits x)
    (hb : R < x.1 ∧ x.1 < R + 2 ^ 31) (h : P s.core R (x :: L) false) :
    ∃ L', Located (s.park x.2) R L' ∧ P (s.park x.2).core R L' false := by
  have hd : s.rsnDiff x.2 = x.1 - R := rsnDiff_eq hl.rsn hx (by omega) hb.2
  obtain ⟨hk, h1, h2⟩ := parkIndex_spec hl x.1
  dsimp only [park]
  rw [hd]
  generalize s.parkIndex (x.1 - R) = k at hk h1 h2
  split_ifs with hdup
  · rw [isDuplicate, hl.rahead, List.getElem?_map, Option.any_map, Option.any_eq_true] at hdup
    obtain ⟨y, hy, hyd⟩ := hdup
    have hmem := List.mem_of_getElem? hy
    simp only [Bool.and_eq_true, decide_eq_true_eq] at hyd
    obtain ⟨⟨hy1, hy2⟩, hy3⟩ := hyd
    have hpos := eq_of_rsn_eq hx (hl.fits y hmem) hb (hl.beyond y hmem) hy1
    rw [segmentSize_eq hx, segmentSize_eq (hl.fits y hmem)] at hy2
    refine ⟨L, hl, hP.repeated _ _ x y L _ h hmem hpos ?_ hy3⟩
    unfold Placed.stop
    omega
  · have hperm : (x :: L).Perm (L.take k ++ x :: L.drop k) := by
      refine List.Perm.trans ?_ List.perm_middle.symm
      rw [List.take_append_drop]
    refine ⟨L.take k ++ x :: L.drop k, ⟨hl.rsn, ?_, ?_, ?_, ?_⟩, hP.perm _ _ _ _ _ h hperm⟩
    · change s.rahead.take k ++ x.2 :: s.rahead.drop k = _
      rw [hl.rahead, List.map_append, List.map_cons, List.map_take, List.map_drop]
    · exact fun y hy => List.forall_mem_cons.mpr ⟨hx, hl.fits⟩ y (hperm.mem_iff.mpr hy)
    · exact Search.pairwise_insertIdx hl.sorted (fun y hy => (h1 y hy).le) h2
    · intro y hy
      rcases List.mem_cons.mp (hperm.mem_iff.mpr hy) with rfl | hy
      · exact hb
      · exact hl.beyond y hy

/-- **Reception without the modulus.** A property that `Handles` the pending segments and holds
when `x` is added to them holds after `rxData`, up to the final shutdown. -/
theorem rxData_spec (hP : Handles P) {L : List Placed} (hl : Located s R L) (hx : Fits x)
    (h1 : R ≤ x.1 + 2 ^ 31) (h2 : x.1 < R + 2 ^ 31) (he : s.endread = false)
    (h : P s.core R (x :: L) false) :
    ∃ t R' L' closed, Located t R' L' ∧ P t.core R' L' closed ∧ s.rxData x.2 = t.finish closed := by
  have hd : s.rsnDiff x.2 = x.1 - R := rsnDiff_eq hl.rsn hx h1 h2
  unfold rxData
  rw [he, if_neg Bool.false_ne_true]
  split_ifs with h3 h4
  · obtain ⟨L', hl', h'⟩ := park_spec hP hl hx (by omega) h
    exact ⟨_, R, L', false, hl', h', rfl⟩
  · have hst := (outOfDate_iff hl.rsn hx h1 h2).mp h4
    exact ⟨s, R, L, false, hl, hP.skip _ _ _ _ _ h hx hst, rfl⟩
  · have hst : ¬Stale x R := fun hst => h4 ((outOfDate_iff hl.rsn hx h1 h2).mpr hst)
    have hle : x.1 ≤ R := by omega
    obtain ⟨h5, h6⟩ := hP.consume hl.rsn hx hle hst h
    rw [Bool.false_or] at h5
    rw [hl.rahead]
    obtain ⟨R', L', h7, h8⟩ := pull_spec hP L (s.consume x.2) x.stop x.2.flags.close
      (rsn_consume hl.rsn hx hle h6) hl.fits hl.sorted
      (fun y hy => near_stop hx (hle.trans (hl.beyond y hy).1.le) (hl.beyond y hy).2 h6) h5
    exact ⟨_, R', L', _, h7, h8, rfl⟩

/-! ## Arrivals at the receive point -/

theorem rxData_stale {L : List Placed} (hl : Located s R L) (hx : Fits x) (h1 : R ≤ x.1 + 2 ^ 31)
    (h2 : x.1 ≤ R) (hst : Stale x R) : s.rxData x.2 = s := by
  have hd := rsnDiff_eq hl.rsn hx h1 (by omega)
  rw [rxData, if_neg (c := 0 < s.rsnDiff x.2) (by omega),
    if_pos (c := s.outOfDate x.2 = true) ((outOfDate_iff hl.rsn hx h1 (by omega)).mpr hst),
      ite_self]

/-- With nothing waiting, a segment at the receive point is queued. -/
theorem rxData_next (hl : Located s R []) (he : s.endread = false) (hx : Fits x) (h1 : x.1 ≤ R)
    (h2 : R ≤ x.stop) (hst : ¬Stale x R) : ∃ t : RxStream, s.rxData x.2 = t.finish x.2.flags.close ∧
      Located t x.stop [] ∧ t.core = s.core.take x R := by
  have hsz := hx.size
  have hR : R ≤ x.1 + 2 ^ 31 := by
    rw [Placed.stop] at h2
    omega
  have hst' : s.outOfDate x.2 = false := by
    rw [← Bool.not_eq_true, outOfDate_iff hl.rsn hx hR (by omega)]
    exact hst
  have hd := rsnDiff_eq hl.rsn hx hR (by omega)
  refine ⟨{ s.consume x.2 with rahead := [] }, ?_, ⟨?_, rfl, nofun, .nil, nofun⟩, ?_⟩
  · rw [rxData, he, if_neg Bool.false_ne_true, if_neg (by omega), hst', if_neg Bool.false_ne_true,
      hl.rahead]
    rfl
  · exact rsn_consume hl.rsn hx h1 h2
  · rw [← core_consume hl.rsn hx h1 h2]
    rfl

end RxStream

end Sst
