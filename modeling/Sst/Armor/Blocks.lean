import Sst.Armor.Checksum
import Sst.Lib.Word
import Mathlib.Data.List.Infix
import Mathlib.Data.Nat.ModEq

/-!
# The checksum of a byte stream

* `Chk32.words`, `Chk32.spec`: the checksum of a string, from its words.
* `Blocks`: the checksum as it reads blocks, with the loop over runs.
* `Chk32.Within`: the counters since they were reduced.
* `Blocks.update16_spec`, `Blocks.update_spec`: blocks are read word by word.
* `Blocks.Fits`: the sequences of updates whose numbers of words fit an `int`.
* **`Blocks.chk32_spec`**: the checksum of a string fed in pieces.
* **`Blocks.chk32_overflows`**: an update of 2³³ - 2000 bytes, and one of `0xff` bytes.
-/

namespace Sst.Armor

open Reg (Bytes)

namespace Chk32

/-! ## Words -/

/-- The whole words of a string. -/
def words : Bytes → List UInt16
  | x :: y :: l => word x y :: words l
  | _ => []

/-- The byte after the whole words. -/
def odd : Bytes → Option UInt8
  | [] => none
  | [x] => some x
  | _ :: _ :: l => odd l

/-- The string padded with `0x80`, or with `0x80 0x00` if its length is even. -/
def padded (l : Bytes) : Bytes := l ++ if l.length % 2 = 1 then [0x80] else [0x80, 0x00]

/-- The sum of the words. -/
def sumA (ws : List UInt16) : ℕ := (ws.map UInt16.toNat).sum

/-- The sum of the prefix sums. -/
def sumB (ws : List UInt16) : ℕ := (ws.inits.map sumA).sum

/-- **The checksum of a string**: the low halves of both sums modulo 65537. -/
def spec (l : Bytes) : BitVec 32 :=
  BitVec.ofNat 16 (sumB (words (padded l)) % 65537) ++
    BitVec.ofNat 16 (sumA (words (padded l)) % 65537)

theorem sumA_concat (ws : List UInt16) (w : UInt16) : sumA (ws ++ [w]) = sumA ws + w.toNat := by
  rw [sumA, List.map_append, List.sum_append]
  rfl

theorem sumB_concat (ws : List UInt16) (w : UInt16) :
    sumB (ws ++ [w]) = sumB ws + sumA (ws ++ [w]) := by
  rw [sumB, List.inits_append, List.map_append, List.sum_append]
  simp [sumB]

theorem words_padded (l : Bytes) : words (padded l) = words l ++ [match odd l with
    | some x => word x 0x80
    | none => word 0x80 0x00] := by
  unfold padded
  induction l using words.induct with
  | case1 x y l ih =>
    have hlen : (x :: y :: l).length % 2 = l.length % 2 := by
      rw [List.length_cons, List.length_cons]
      omega
    rw [hlen]
    exact congrArg (word x y :: ·) ih
  | case2 l h =>
    rcases l with _ | ⟨x, _ | ⟨y, l⟩⟩
    · rfl
    · rfl
    · exact absurd rfl (h x y l)

theorem odd_eq (l : Bytes) : odd l = if l.length % 2 = 1 then some (l.getLastD 0) else none := by
  induction l using words.induct with
  | case1 x y l ih =>
    have hlen : (x :: y :: l).length % 2 = l.length % 2 := by
      rw [List.length_cons, List.length_cons]
      omega
    rw [hlen, odd, ih]
    split_ifs with ho
    · cases l with
      | nil => cases ho
      | cons z l => rfl
    · rfl
  | case2 l h =>
    rcases l with _ | ⟨x, _ | ⟨y, l⟩⟩
    · rfl
    · rfl
    · exact absurd rfl (h x y l)

theorem length_words (l : Bytes) : (words l).length = l.length / 2 := by
  induction l using words.induct with
  | case1 x y l ih =>
    rw [words, List.length_cons, ih, List.length_cons, List.length_cons]
    omega
  | case2 l h =>
    rcases l with _ | ⟨x, _ | ⟨y, l⟩⟩
    · rfl
    · change 0 = 1 / 2
      decide
    · exact absurd rfl (h x y l)

/-! ## The counters -/

/-- **The counters stay small** over a run: they were reduced at its start. -/
structure Within (c : Chk32) : Prop where
  run : c.run ≤ maxRun
  a : c.a.toNat ≤ 65536 + (maxRun - c.run) * 65535
  b : 2 * c.b.toNat ≤ 131072 + (maxRun - c.run) * 131072 +
    65535 * ((maxRun - c.run) * (maxRun - c.run + 1))

variable {c : Chk32}

theorem Within.new : new.Within := ⟨le_rfl, by decide, by decide⟩

theorem Within.reduce (c : Chk32) : { c.reduce with run := maxRun }.Within := by
  have hm : ∀ x : UInt64, (x % modulus).toNat ≤ 65536 := by
    intro x
    rw [UInt64.toNat_mod]
    exact Nat.le_of_lt_succ (Nat.mod_lt _ (by decide))
  have ha := hm c.a
  have hb := hm c.b
  refine ⟨le_rfl, ?_, ?_⟩
  · exact ha.trans (Nat.le_add_right _ _)
  · dsimp only [Chk32.reduce] at hb ⊢
    omega

/-- **No counter overflows** before the end of a run. -/
theorem Within.add (h : c.Within) (hr : c.run ≠ 0) (w : UInt16) :
    (c.a + w.toUInt64).toNat = c.a.toNat + w.toNat ∧
    (c.b + (c.a + w.toUInt64)).toNat = c.b.toNat + (c.a.toNat + w.toNat) := by
  have hw : w.toNat ≤ 65535 := Nat.le_of_lt_succ w.toNat_lt
  have ha := h.a
  have hb := h.b
  set k := maxRun - c.run with hk
  have hk1 : k + 1 ≤ maxRun := by
    have := h.run
    omega
  have hmax : maxRun = 23726740 := rfl
  have hkk : k * (k + 1) ≤ 23726739 * 23726740 :=
    Nat.mul_le_mul (by omega) (by omega)
  have h1 : (c.a + w.toUInt64).toNat = c.a.toNat + w.toNat := by
    rw [UInt64.toNat_add, UInt16.toNat_toUInt64]
    exact Nat.mod_eq_of_lt (by omega)
  refine ⟨h1, ?_⟩
  rw [UInt64.toNat_add, h1]
  exact Nat.mod_eq_of_lt (by omega)

/-- The counters before the next word are not at the end of a run. -/
def prepare (c : Chk32) : Chk32 := if c.run = 0 then { c.reduce with run := maxRun } else c

theorem prepare_run (c : Chk32) : c.prepare.run ≠ 0 := by
  unfold prepare
  split_ifs with h
  · change maxRun ≠ 0
    decide
  · exact h

theorem Within.prepare (h : c.Within) : c.prepare.Within := by
  unfold Chk32.prepare
  split_ifs
  · exact .reduce c
  · exact h

theorem update16_eq (c : Chk32) (w : UInt16) : c.update16 w = { c.prepare with
    a := c.prepare.a + w.toUInt64
    b := c.prepare.b + (c.prepare.a + w.toUInt64)
    run := c.prepare.run - 1 } := rfl

theorem Within.update16 (h : c.Within) (w : UInt16) : (c.update16 w).Within := by
  have hp := h.prepare
  obtain ⟨ha, hb⟩ := hp.add c.prepare_run w
  have hr := c.prepare_run
  have hw : w.toNat ≤ 65535 := Nat.le_of_lt_succ w.toNat_lt
  obtain ⟨h1, h2, h3⟩ := hp
  rw [update16_eq]
  have hk : maxRun - (c.prepare.run - 1) = maxRun - c.prepare.run + 1 := by omega
  refine ⟨(Nat.sub_le _ _).trans h1, ?_, ?_⟩
  · dsimp only
    rw [ha, hk]
    omega
  · dsimp only
    rw [hb, hk]
    set k := maxRun - c.prepare.run
    have hsq : (k + 1) * (k + 1 + 1) = k * (k + 1) + 2 * (k + 1) := by ring
    rw [hsq]
    omega

theorem Within.foldl (h : c.Within) (ws : List UInt16) : (ws.foldl Chk32.update16 c).Within := by
  induction ws generalizing c with
  | nil => exact h
  | cons w ws ih => exact ih (h.update16 w)

/-- **The counters are the sums of the words**, modulo 65537. -/
structure Sums (c : Chk32) (ws : List UInt16) : Prop where
  within : c.Within
  a : c.a.toNat ≡ sumA ws [MOD 65537]
  b : c.b.toNat ≡ sumB ws [MOD 65537]

theorem Sums.prepare {ws : List UInt16} (h : c.Sums ws) : c.prepare.Sums ws := by
  refine ⟨h.within.prepare, ?_, ?_⟩
  · unfold Chk32.prepare
    split_ifs
    · exact (UInt64.toNat_mod c.a modulus ▸ Nat.mod_modEq _ _).trans h.a
    · exact h.a
  · unfold Chk32.prepare
    split_ifs
    · exact (UInt64.toNat_mod c.b modulus ▸ Nat.mod_modEq _ _).trans h.b
    · exact h.b

theorem Sums.update16 {ws : List UInt16} (h : c.Sums ws) (w : UInt16) :
    (c.update16 w).Sums (ws ++ [w]) := by
  have hp := h.prepare
  obtain ⟨ha, hb⟩ := hp.within.add c.prepare_run w
  refine ⟨h.within.update16 w, ?_, ?_⟩
  · rw [update16_eq, sumA_concat]
    dsimp only
    rw [ha]
    exact hp.a.add_right _
  · rw [update16_eq, sumB_concat, sumA_concat]
    dsimp only
    rw [hb]
    exact hp.b.add (hp.a.add_right _)

theorem Sums.foldl (ws : List UInt16) : (ws.foldl Chk32.update16 new).Sums ws := by
  induction ws using List.reverseRecOn with
  | nil => exact ⟨.new, rfl, rfl⟩
  | append_singleton ws w ih =>
    rw [List.foldl_concat]
    exact ih.update16 w

/-! ## Bytes -/

theorem update16_with (c : Chk32) (w : UInt16) (o : Option UInt8) :
    ({ c with oddbuf := o } : Chk32).update16 w = { c.update16 w with oddbuf := o } := by
  rw [update16_eq, update16_eq]
  unfold prepare
  dsimp only
  split_ifs <;> rfl

theorem update16_oddbuf (c : Chk32) (w : UInt16) : (c.update16 w).oddbuf = c.oddbuf := by
  rw [update16_eq, prepare]
  split_ifs <;> rfl

theorem update_pair {c : Chk32} (h : c.oddbuf = none) (x y : UInt8) (l : Bytes) :
    c.update (x :: y :: l) = (c.update16 (word x y)).update l := by
  have hx : c.updateByte x = { c with oddbuf := some x } := by
    rw [updateByte, h]
  have hy : (c.updateByte x).updateByte y = c.update16 (word x y) := by
    rw [hx, updateByte]
    dsimp only
    rw [update16_with, ← h, ← update16_with]
  rw [update, List.foldl_cons, List.foldl_cons, hy]
  rfl

/-- **Bytes are read word by word**, from an even position. -/
theorem update_words (l : Bytes) {c : Chk32} (h : c.oddbuf = none) :
    c.update l = { (words l).foldl update16 c with oddbuf := odd l } := by
  induction l using words.induct generalizing c with
  | case1 x y l ih =>
    rw [update_pair h]
    exact ih ((update16_oddbuf c _).trans h)
  | case2 l hl =>
    obtain ⟨a, b, run, oddbuf⟩ := c
    subst h
    rcases l with _ | ⟨x, _ | ⟨y, l⟩⟩
    · rfl
    · rfl
    · exact absurd rfl (hl x y l)

theorem pack (a b : UInt64) : (a &&& (0xffff : UInt64) ||| b <<< (16 : UInt64)).toUInt32.toBitVec =
    BitVec.ofNat 16 b.toNat ++ BitVec.ofNat 16 a.toNat := by
  have hlow : a.toNat % 4294967296 &&& 65535 = a.toNat % 65536 := by
    rw [show 65535 = 2 ^ 16 - 1 from rfl, Nat.and_two_pow_sub_one_eq_mod]
    exact Nat.mod_mod_of_dvd _ (by decide)
  have hhigh : (b.toNat % 4294967296) <<< 16 % 4294967296 = (b.toNat % 65536) <<< 16 := by
    rw [Nat.shiftLeft_eq, Nat.shiftLeft_eq]
    omega
  refine BitVec.eq_of_toNat_eq ?_
  rw [BitVec.toNat_append, BitVec.toNat_ofNat, BitVec.toNat_ofNat]
  simp [hlow, hhigh, Nat.or_comm]

theorem Sums.pack {c : Chk32} {ws : List UInt16} (h : c.Sums ws) :
    (c.reduce.a &&& (0xffff : UInt64) ||| c.reduce.b <<< (16 : UInt64)).toUInt32.toBitVec =
      BitVec.ofNat 16 (sumB ws % 65537) ++ BitVec.ofNat 16 (sumA ws % 65537) := by
  have ha : c.reduce.a.toNat = sumA ws % 65537 := (UInt64.toNat_mod c.a modulus).trans h.a
  have hb : c.reduce.b.toNat = sumB ws % 65537 := (UInt64.toNat_mod c.b modulus).trans h.b
  rw [Chk32.pack, ha, hb]

/-- **The checksum, byte by byte.** -/
theorem final_update (l : Bytes) : (new.update l).final = spec l := by
  have hsums := Sums.foldl (words l)
  unfold final
  rw [update_words l rfl]
  dsimp only
  rw [spec, words_padded]
  cases odd l with
  | none =>
    dsimp only
    rw [update16_with]
    exact (hsums.update16 (word 0x80 0x00)).pack
  | some x =>
    dsimp only
    rw [update16_with]
    exact (hsums.update16 (word x 0x80)).pack

end Chk32

/-! ## Blocks -/

/-- The counters, and whether an addition has overflowed. -/
structure Counters where
  a : UInt64
  b : UInt64
  overflow : Bool

/-- The body of both loops. -/
def Counters.add (k : Counters) (w : UInt16) : Counters :=
  let a := k.a + w.toUInt64
  ⟨a, k.b + a, k.overflow || decide (UInt64.size ≤ k.a.toNat + w.toNat) ||
    decide (UInt64.size ≤ k.b.toNat + a.toNat)⟩

/-- The state of `Chk32`; `run` is an `int`. -/
structure Blocks extends Counters where
  run : ℤ
  oddbuf : UInt8 × UInt8
  haveodd : Bool

namespace Blocks

open Chk32 (modulus maxRun word words odd)

def new : Blocks := ⟨⟨0, 0, false⟩, maxRun, (0, 0), false⟩

/-- `Chk32::update16`: the `nwords` words at `buf`; the outer loop takes what is left of a run. -/
def update16 (c : Blocks) (buf : List UInt16) (nwords : ℤ) : Blocks :=
  if c.run < nwords then
    let k := (buf.take c.run.toNat).foldl Counters.add c.toCounters
    { c with
      toCounters := { k with a := k.a % modulus, b := k.b % modulus }
      run := maxRun }.update16 (buf.drop c.run.toNat) (nwords - c.run)
  else
    { c with
      toCounters := (buf.take nwords.toNat).foldl Counters.add c.toCounters
      run := c.run - nwords }
termination_by 2 * (if c.run ≤ 0 then nwords - c.run else nwords).toNat +
  (if c.run ≤ 0 then 1 else 0)
decreasing_by
  have hmax : ¬(maxRun : ℤ) ≤ 0 := by decide
  simp only [hmax, if_false]
  split_ifs <;> omega

/-- `Chk32::final16`. -/
def final16 (c : Blocks) : BitVec 32 × Blocks :=
  let c := { c with a := c.a % modulus, b := c.b % modulus }
  ((c.a &&& (0xffff : UInt64) ||| c.b <<< (16 : UInt64)).toUInt32.toBitVec, c)

/-- `Chk32::update`, without a current odd character. The number of words is an `int`. -/
def updateEven (c : Blocks) (bytes : Bytes) : Blocks :=
  let c := c.update16 (words bytes) (Word.wrap 32 (bytes.length / 2 : ℕ))
  if bytes.length % 2 = 1 then
    { c with haveodd := true, oddbuf := (bytes.getLastD 0, c.oddbuf.2) }
  else c

/-- `Chk32::update`. -/
def update (c : Blocks) (buf : Bytes) : Blocks :=
  match buf with
  | [] => c
  | y :: bytes =>
    if c.haveodd then
      let c := { c with oddbuf := (c.oddbuf.1, y) }
      { c.update16 [word c.oddbuf.1 c.oddbuf.2] 1 with haveodd := false }.updateEven bytes
    else c.updateEven (y :: bytes)

/-- `Chk32::final`. -/
def final (c : Blocks) : BitVec 32 × Blocks :=
  let c := { c with oddbuf := if c.haveodd then (c.oddbuf.1, 0x80) else (0x80, 0x00) }
  (c.update16 [word c.oddbuf.1 c.oddbuf.2] 1).final16

/-- The checksum byte by byte in this state. -/
def chk (c : Blocks) : Chk32 :=
  ⟨c.a, c.b, c.run.toNat, if c.haveodd then some c.oddbuf.1 else none⟩

/-- **The state is sound**: the counters are within a run, and none has overflowed. -/
structure Sound (c : Blocks) : Prop where
  within : c.chk.Within
  run : 0 ≤ c.run
  overflow : c.overflow = false

/-! ## Runs -/

theorem add_word {k : Counters} {run : ℕ} {o : Option UInt8} (w : UInt16)
    (hw : (⟨k.a, k.b, run + 1, o⟩ : Chk32).Within) :
    (⟨k.a, k.b, run + 1, o⟩ : Chk32).update16 w = ⟨(k.add w).a, (k.add w).b, run, o⟩ ∧
    (k.add w).overflow = k.overflow := by
  obtain ⟨h1, h2⟩ := hw.add (Nat.succ_ne_zero run) w
  refine ⟨rfl, ?_⟩
  have ha : ¬UInt64.size ≤ k.a.toNat + w.toNat := by
    rw [← h1]
    exact not_le.2 (UInt64.toNat_lt _)
  have hb : ¬UInt64.size ≤ k.b.toNat + (k.a + w.toUInt64).toNat := by
    rw [h1, ← h2]
    exact not_le.2 (UInt64.toNat_lt _)
  simp only [Counters.add, ha, hb, decide_false, Bool.or_false]

/-- **The words of a run** are added one by one. -/
theorem foldl_add (l : List UInt16) {k : Counters} {run : ℕ} {o : Option UInt8}
    (hw : (⟨k.a, k.b, run + l.length, o⟩ : Chk32).Within) :
    l.foldl Chk32.update16 ⟨k.a, k.b, run + l.length, o⟩ =
      ⟨(l.foldl Counters.add k).a, (l.foldl Counters.add k).b, run, o⟩ ∧
    (l.foldl Counters.add k).overflow = k.overflow := by
  induction l generalizing k with
  | nil => exact ⟨rfl, rfl⟩
  | cons w l ih =>
    rw [List.length_cons, ← Nat.add_assoc] at hw
    obtain ⟨h1, h2⟩ := add_word w hw
    have hw' := hw.update16 w
    rw [h1] at hw'
    obtain ⟨h3, h4⟩ := ih hw'
    rw [List.foldl_cons, List.foldl_cons, List.length_cons, ← Nat.add_assoc, h1]
    exact ⟨h3, h4.trans h2⟩

theorem foldl_reduce {c : Chk32} (hr : c.run = 0) {l : List UInt16} (hl : l ≠ []) :
    l.foldl Chk32.update16 c = l.foldl Chk32.update16 { c.reduce with run := maxRun } := by
  obtain ⟨w, l, rfl⟩ := List.exists_cons_of_ne_nil hl
  rw [List.foldl_cons, List.foldl_cons, Chk32.update16_eq, Chk32.update16_eq, Chk32.prepare,
    if_pos hr]
  rfl

theorem Sound.update16_last {c : Blocks} (hc : c.Sound) {buf : List UInt16}
    (h : (buf.length : ℤ) ≤ c.run) :
    let c' : Blocks := { c with
      toCounters := buf.foldl Counters.add c.toCounters
      run := c.run - buf.length }
    c'.chk = buf.foldl Chk32.update16 c.chk ∧ c'.Sound := by
  obtain ⟨run, hrun⟩ : ∃ run : ℕ, c.run = run + buf.length := ⟨(c.run - buf.length).toNat, by omega⟩
  have hchk : c.chk = ⟨c.a, c.b, run + buf.length,
      if c.haveodd then some c.oddbuf.1 else none⟩ := by
    rw [chk, hrun]
    congr 1
  have hw := hc.within
  rw [hchk] at hw
  obtain ⟨h1, h2⟩ := foldl_add buf (k := c.toCounters) hw
  have hfold : ({ c with
      toCounters := buf.foldl Counters.add c.toCounters
      run := c.run - buf.length } : Blocks).chk = buf.foldl Chk32.update16 c.chk := by
    rw [hchk, h1, chk, hrun, Int.add_sub_cancel]
    rfl
  refine ⟨hfold, ?_, ?_, h2.trans hc.overflow⟩
  · rw [hfold]
    exact Chk32.Within.foldl hc.within buf
  · dsimp only
    omega

/-- **The loop over runs** reads word by word. -/
theorem update16_spec (c : Blocks) (buf : List UInt16) (n : ℤ) (hc : c.Sound)
    (hn : n = buf.length) : (c.update16 buf n).chk = buf.foldl Chk32.update16 c.chk ∧
    (c.update16 buf n).Sound ∧ (c.update16 buf n).oddbuf = c.oddbuf ∧
    (c.update16 buf n).haveodd = c.haveodd := by
  induction c, buf, n using update16.induct with
  | case1 c buf n hlt k ih =>
    have hr := hc.run
    set r := c.run.toNat with hrdef
    have hrr : (r : ℤ) = c.run := Int.toNat_of_nonneg hr
    have hlen : (buf.take r).length = r := List.length_take_of_le (by omega)
    -- what is left of the run
    have hle : ((buf.take r).length : ℤ) ≤ c.run := by omega
    obtain ⟨h1, h2⟩ := hc.update16_last hle
    have hzero : c.run - ((buf.take r).length : ℤ) = 0 := by omega
    rw [hzero] at h1 h2
    have hne : buf.drop r ≠ [] := by
      rw [ne_eq, List.drop_eq_nil_iff]
      omega
    have hrun : ((buf.take r).foldl Chk32.update16 c.chk).run = 0 := by
      rw [← h1]
      rfl
    have hfold := foldl_reduce hrun hne
    rw [← List.foldl_append, List.take_append_drop, ← h1] at hfold
    set c' : Blocks := { c with
      toCounters := { k with a := k.a % modulus, b := k.b % modulus }
      run := maxRun } with hc'
    have hchk : c'.chk = { Chk32.reduce ((buf.take r).foldl Chk32.update16 c.chk) with
        run := maxRun } := by
      rw [← h1]
      rfl
    have hwithin : c'.chk.Within := by
      rw [hchk]
      exact Chk32.Within.reduce _
    have hsound : c'.Sound := ⟨hwithin, Int.natCast_nonneg _, h2.overflow⟩
    have hdrop : n - c.run = (buf.drop r).length := by
      rw [List.length_drop]
      omega
    rw [update16, if_pos hlt]
    obtain ⟨h3, h4⟩ := ih hsound hdrop
    refine ⟨h3.trans ?_, h4⟩
    rw [hchk, ← h1, hfold]
  | case2 c buf n hge =>
    subst hn
    rw [update16, if_neg hge, Int.toNat_natCast, List.take_length]
    obtain ⟨h1, h2⟩ := hc.update16_last (not_lt.1 hge)
    exact ⟨h1, h2, rfl, rfl⟩

theorem Sound.word {c : Blocks} (hc : c.Sound) (w : UInt16) :
    (c.update16 [w] 1).chk = c.chk.update16 w ∧ (c.update16 [w] 1).Sound ∧
    (c.update16 [w] 1).oddbuf = c.oddbuf ∧ (c.update16 [w] 1).haveodd = c.haveodd :=
  update16_spec c [w] 1 hc rfl

/-! ## Pieces -/

theorem Sound.with {c : Blocks} (hc : c.Sound) (o : UInt8 × UInt8) (h : Bool) :
    ({ c with oddbuf := o, haveodd := h } : Blocks).Sound := by
  obtain ⟨⟨h1, h2, h3⟩, h4, h5⟩ := hc
  exact ⟨⟨h1, h2, h3⟩, h4, h5⟩

theorem updateEven_spec {c : Blocks} (hc : c.Sound) (ho : c.haveodd = false) {bytes : Bytes}
    (hlen : bytes.length < 2 ^ 32) :
    (c.updateEven bytes).chk = c.chk.update bytes ∧ (c.updateEven bytes).Sound := by
  have hwrap : Word.wrap 32 (bytes.length / 2 : ℕ) = (words bytes).length := by
    rw [Chk32.length_words]
    exact Word.wrap_eq_self (by decide) (by omega) (by omega)
  have hnone : c.chk.oddbuf = none := by
    rw [chk, ho]
    rfl
  obtain ⟨h1, h2, h3, h4⟩ := update16_spec c (words bytes) _ hc hwrap
  rw [Chk32.update_words bytes hnone, ← h1, Chk32.odd_eq]
  unfold updateEven
  dsimp only
  split_ifs with hodd
  · exact ⟨rfl, h2.with _ _⟩
  · refine ⟨?_, h2⟩
    rw [chk, h4, ho]
    rfl

/-- **A block is read byte by byte**, if the number of its words fits an `int`. -/
theorem update_spec {c : Blocks} (hc : c.Sound) {buf : Bytes}
    (hlen : buf.length < 2 ^ 32 + c.haveodd.toNat) :
    (c.update buf).chk = c.chk.update buf ∧ (c.update buf).Sound := by
  cases buf with
  | nil => exact ⟨rfl, hc⟩
  | cons y l =>
    unfold update
    dsimp only
    split_ifs with ho
    · obtain ⟨h1, h2, -, -⟩ := (hc.with (c.oddbuf.1, y) c.haveodd).word (word c.oddbuf.1 y)
      have hl : l.length < 2 ^ 32 := by
        rw [ho, List.length_cons] at hlen
        exact Nat.lt_of_succ_lt_succ hlen
      obtain ⟨h3, h4⟩ := updateEven_spec (h2.with _ false) rfl hl
      refine ⟨h3.trans ?_, h4⟩
      -- the odd character and the first byte are a word
      have hodd : c.chk.oddbuf = some c.oddbuf.1 := by
        rw [chk, ho]
        rfl
      have hbyte : c.chk.updateByte y =
          { c.chk.update16 (word c.oddbuf.1 y) with oddbuf := none } := by
        rw [Chk32.updateByte, hodd]
      change Chk32.update _ l = Chk32.update (c.chk.updateByte y) l
      rw [hbyte]
      exact congrArg (fun x : Chk32 => Chk32.update { x with oddbuf := none } l) h1
    · have hno := Bool.eq_false_of_not_eq_true ho
      rw [hno] at hlen
      exact updateEven_spec hc hno hlen

theorem Sound.new : new.Sound := ⟨.new, Int.natCast_nonneg _, rfl⟩

/-- Each update is below 2³² bytes, and 2³² bytes long at most after an odd character, so that its
number of words fits an `int`. -/
def Fits (pieces : List Bytes) : Prop :=
  ∀ l p r, pieces = l ++ p :: r → p.length < 2 ^ 32 + l.flatten.length % 2

theorem fits_of_lt {pieces : List Bytes} (h : ∀ p ∈ pieces, p.length < 2 ^ 32) : Fits pieces := by
  rintro l p r rfl
  have hp := h p (List.mem_append_right _ List.mem_cons_self)
  omega

/-- **Pieces** are read byte by byte; the induction is on the last piece. -/
theorem foldl_update {pieces : List Bytes} (hlen : Fits pieces) :
    (pieces.foldl update new).chk = Chk32.new.update pieces.flatten ∧
    (pieces.foldl update new).Sound := by
  induction pieces using List.reverseRecOn with
  | nil => exact ⟨rfl, .new⟩
  | append_singleton pieces p ih =>
    obtain ⟨h1, h2⟩ := ih fun l q r h => hlen l q (r ++ [p]) (by rw [h]; simp)
    have hodd : (pieces.foldl update new).haveodd.toNat = pieces.flatten.length % 2 := by
      have ho := congrArg Chk32.oddbuf h1
      rw [Chk32.update_words _ rfl, Chk32.odd_eq] at ho
      dsimp only [chk] at ho
      split_ifs at ho with h3 h4 h4
      · rw [h3, h4]
        rfl
      · rw [Bool.eq_false_of_not_eq_true h3]
        change 0 = _
        omega
    have hp : p.length < 2 ^ 32 + (pieces.foldl update new).haveodd.toNat :=
      hodd ▸ hlen pieces p [] rfl
    obtain ⟨h3, h4⟩ := update_spec h2 hp
    rw [List.foldl_concat, List.flatten_append, List.flatten_singleton]
    refine ⟨h3.trans ?_, h4⟩
    rw [h1, Chk32.update, Chk32.update, Chk32.update, List.foldl_append]

theorem final16_spec {c : Blocks} (hc : c.Sound) {c' : Chk32} (h : c.chk = c') :
    c.final16.1 = (c'.reduce.a &&& (0xffff : UInt64) |||
      c'.reduce.b <<< (16 : UInt64)).toUInt32.toBitVec ∧ c.final16.2.overflow = false := by
  subst h
  exact ⟨rfl, hc.overflow⟩

theorem final_spec {c : Blocks} (hc : c.Sound) :
    c.final.1 = c.chk.final ∧ c.final.2.overflow = false := by
  obtain ⟨k, run, ⟨x, y⟩, haveodd⟩ := c
  cases haveodd with
  | false =>
    obtain ⟨h1, h2, -, -⟩ := (hc.with (0x80, 0x00) false).word (word 0x80 0x00)
    exact final16_spec h2 h1
  | true =>
    obtain ⟨h1, h2, -, -⟩ := (hc.with (x, 0x80) true).word (word x 0x80)
    exact final16_spec h2 h1

/-- **The checksum.** A string shorter than 2³¹ bytes, fed in any pieces, has the checksum given by
its padded words; and no counter ever overflows in a sequence of updates whose numbers of words fit
an `int`. -/
theorem chk32_spec (pieces : List Bytes) :
    (pieces.flatten.length < 2 ^ 31 →
      (pieces.foldl update new).final.1 = Chk32.spec pieces.flatten) ∧
    (Fits pieces → (pieces.foldl update new).final.2.overflow = false) := by
  constructor
  · intro hlen
    have hp : ∀ p ∈ pieces, p.length < 2 ^ 32 := by
      intro p hp
      have hle := (List.sublist_flatten_of_mem hp).length_le
      omega
    obtain ⟨h1, h2⟩ := foldl_update (fits_of_lt hp)
    rw [(final_spec h2).1, h1]
    exact Chk32.final_update pieces.flatten
  · intro hp
    exact (final_spec (foldl_update hp).2).2

/-- Three bytes in two pieces, the first of which is odd, and an empty one. -/
theorem chk32_spec_three : ([[1], [], [2, 3]].foldl update new).final.1 = 0x05840482#32 ∧
    ([[1], [], [2, 3]].foldl update new).final.2.overflow = false := by
  obtain ⟨h1, h2⟩ := chk32_spec [[1], [], [2, 3]]
  have hspec : Chk32.spec [1, 2, 3] = 0x05840482#32 := by decide
  exact ⟨(h1 (by decide)).trans hspec, h2 (fits_of_lt (by decide))⟩

/-! ## A number of words that does not fit -/

theorem overflow_foldl {k : Counters} (h : k.overflow = true) (l : List UInt16) :
    (l.foldl Counters.add k).overflow = true := by
  induction l generalizing k with
  | nil => exact h
  | cons w l ih =>
    refine ih ?_
    rw [Counters.add, h, Bool.true_or, Bool.true_or]

theorem overflow_update16 (c : Blocks) (buf : List UInt16) (n : ℤ) (h : c.overflow = true) :
    (c.update16 buf n).overflow = true := by
  induction c, buf, n using update16.induct with
  | case1 c buf n hlt k ih =>
    rw [update16, if_pos hlt]
    exact ih (overflow_foldl h _)
  | case2 c buf n hge =>
    rw [update16, if_neg hge]
    exact overflow_foldl h _

theorem overflow_final {c : Blocks} (h : c.overflow = true) : c.final.2.overflow = true :=
  overflow_update16 _ _ _ h

/-- **The sums of `n` equal words**, unless a counter has overflowed. -/
theorem foldl_replicate (n : ℕ) (w : UInt16) :
    ((List.replicate n w).foldl Counters.add ⟨0, 0, false⟩).overflow = true ∨
    ((List.replicate n w).foldl Counters.add ⟨0, 0, false⟩).a.toNat = n * w.toNat ∧
      2 * ((List.replicate n w).foldl Counters.add ⟨0, 0, false⟩).b.toNat =
        n * (n + 1) * w.toNat := by
  induction n with
  | zero => exact .inr ⟨by simp, by simp⟩
  | succ n ih =>
    rw [List.replicate_succ', List.foldl_concat]
    generalize (List.replicate n w).foldl Counters.add ⟨0, 0, false⟩ = k at ih ⊢
    rcases ih with ih | ⟨ha, hb⟩
    · exact .inl (overflow_foldl ih [w])
    · by_cases hover : (k.add w).overflow = true
      · exact .inl hover
      · rw [Counters.add, Bool.or_eq_true, Bool.or_eq_true, decide_eq_true_eq, decide_eq_true_eq,
          not_or, not_or, not_le, not_le] at hover
        obtain ⟨⟨-, h1⟩, h2⟩ := hover
        have ha' : (k.a + w.toUInt64).toNat = k.a.toNat + w.toNat := by
          rw [UInt64.toNat_add, UInt16.toNat_toUInt64]
          exact Nat.mod_eq_of_lt h1
        have hb' : (k.b + (k.a + w.toUInt64)).toNat = k.b.toNat + (k.a.toNat + w.toNat) := by
          rw [UInt64.toNat_add, ha']
          exact Nat.mod_eq_of_lt (ha' ▸ h2)
        refine .inr ⟨?_, ?_⟩
        · change (k.a + w.toUInt64).toNat = _
          rw [ha', ha, Nat.succ_mul]
        · change 2 * (k.b + (k.a + w.toUInt64)).toNat = _
          rw [hb', Nat.mul_add, hb, ha]
          ring

theorem words_replicate (n : ℕ) (x : UInt8) :
    words (List.replicate (2 * n) x) = List.replicate n (word x x) := by
  induction n with
  | zero => rfl
  | succ n ih =>
    rw [show 2 * (n + 1) = 2 * n + 1 + 1 by omega, List.replicate_succ, List.replicate_succ, words,
      ih, List.replicate_succ]

theorem update_replicate {c : Blocks} (ho : c.haveodd = false) (n : ℕ) (x : UInt8) :
    c.update (List.replicate (2 * n) x) =
      if n = 0 then c else c.update16 (List.replicate n (word x x)) (Word.wrap 32 n) := by
  cases n with
  | zero => rfl
  | succ n =>
    have heven : c.update (List.replicate (2 * (n + 1)) x) =
        c.updateEven (List.replicate (2 * (n + 1)) x) := by
      rw [show 2 * (n + 1) = 2 * n + 1 + 1 by omega, List.replicate_succ, update, ho,
        if_neg Bool.false_ne_true]
    rw [heven, updateEven, words_replicate, List.length_replicate,
      Nat.mul_div_cancel_left _ two_pos, Nat.mul_mod_right, if_neg (by decide),
      if_neg (Nat.succ_ne_zero n)]

/-- **A counter overflows** after an update of 2³³ - 2000 bytes: the number of words, as an `int`,
is -1000, and lengthens the run by as many words. -/
theorem chk32_overflows : ¬∀ pieces : List Bytes,
    (pieces.flatten.length < 2 ^ 31 →
      (pieces.foldl update new).final.1 = Chk32.spec pieces.flatten) ∧
    (pieces.foldl update new).final.2.overflow = false := by
  intro hall
  obtain ⟨n, hn⟩ : ∃ n : ℕ, n = 2 ^ 32 - 1000 := ⟨_, rfl⟩
  obtain ⟨m, hm⟩ : ∃ m : ℕ, m = maxRun + 1000 := ⟨_, rfl⟩
  have h := (hall [List.replicate (2 * n) 0, List.replicate (2 * m) 0xff]).2
  have hmax : maxRun = 23726740 := rfl
  have hwrap : Word.wrap 32 n = -1000 := by
    rw [hn]
    decide +kernel
  have hfirst : new.update (List.replicate (2 * n) 0) = { new with run := m } := by
    rw [update_replicate rfl, if_neg (by omega), hwrap, update16, if_neg (by decide),
      show (-1000 : ℤ).toNat = 0 from rfl, List.take_zero, hm]
    rfl
  have hword : (word 0xff 0xff).toNat = 65535 := by decide
  have hfit : Word.wrap 32 m = m := Word.wrap_eq_self (by decide) (by omega) (by omega)
  -- the run is long enough for all words of the second update
  have hsecond : (({ new with run := m } : Blocks).update (List.replicate (2 * m) 0xff)).overflow =
      true := by
    rw [update_replicate rfl, if_neg (by omega), hfit, update16, if_neg (lt_irrefl _),
      Int.toNat_natCast, List.take_of_length_le List.length_replicate.le]
    refine (foldl_replicate m (word 0xff 0xff)).resolve_right ?_
    rintro ⟨-, hb⟩
    generalize (List.replicate m (word 0xff 0xff)).foldl Counters.add ⟨0, 0, false⟩ = k at hb
    have hlt := k.b.toNat_lt
    rw [hword, hm, hmax] at hb
    omega
  rw [List.foldl_cons, List.foldl_cons, List.foldl_nil, hfirst] at h
  exact absurd (overflow_final hsecond) (Bool.eq_false_iff.mp h)

end Blocks

end Sst.Armor
