import Mathlib.Data.List.OfFn
import Mathlib.Data.Nat.Notation
import Mathlib.Tactic.Ring
import Mathlib.Data.List.Basic

/-!
# Sequences of words as sequences of bits

* `bits x`: the bits of a word, the highest first; `stream l`: those of the words of a list.
* `bits_extract`: the bits of a slice are those of its two parts.
* `extract_shiftLeft_or`, `extract_or`: the slices of a word put together by shifts.
* `Packs l m`: the words of `m` are the complete words in the bits of `l`.
* **`Packs.unique`**: there is only one such list, and **`Packs.length_eq`** gives its length.
-/

namespace Bits

variable {v w n : ℕ}

/-- The bits of a word, the highest first. -/
def bits (x : BitVec w) : List Bool := List.ofFn fun i : Fin w => x.getMsbD i

/-- The bits of a sequence of words. -/
def stream (l : List (BitVec w)) : List Bool := l.flatMap bits

@[simp] theorem length_bits (x : BitVec w) : (bits x).length = w := List.length_ofFn

theorem bits_inj {x y : BitVec w} (h : bits x = bits y) : x = y := by
  apply BitVec.eq_of_getMsbD_eq
  intro i hi
  exact congrFun (List.ofFn_injective h) ⟨i, hi⟩

@[simp] theorem stream_nil : stream ([] : List (BitVec w)) = [] := rfl

@[simp] theorem stream_cons (x : BitVec w) (l : List (BitVec w)) :
    stream (x :: l) = bits x ++ stream l := rfl

theorem stream_append (l m : List (BitVec w)) : stream (l ++ m) = stream l ++ stream m :=
  List.flatMap_append

@[simp] theorem length_stream (l : List (BitVec w)) : (stream l).length = w * l.length := by
  induction l with
  | nil => rfl
  | cons x l ih =>
    rw [stream_cons, List.length_append, length_bits, ih, List.length_cons]
    ring

theorem stream_take (l : List (BitVec w)) (k : ℕ) :
    stream (l.take k) = (stream l).take (w * k) := by
  have hk : stream l = stream (l.take k) ++ stream (l.drop k) := by
    rw [← stream_append, List.take_append_drop]
  rcases le_total l.length k with hle | hle
  · rw [List.take_of_length_le hle, List.take_of_length_le]
    rw [length_stream]
    exact Nat.mul_le_mul_left w hle
  · have hlen : w * k = (stream (l.take k)).length := by
      rw [length_stream, List.length_take, Nat.min_eq_left hle]
    rw [hk, hlen, List.take_left]

theorem isPrefix_of_stream (hw : 0 < w) {l m : List (BitVec w)}
    (h : stream l <+: stream m) : l <+: m := by
  induction l generalizing m with
  | nil => exact List.nil_prefix
  | cons x l ih =>
    cases m with
    | nil =>
      have hlen := h.length_le
      rw [length_stream, length_stream, List.length_cons, List.length_nil, Nat.mul_zero] at hlen
      exact absurd hlen (Nat.mul_pos hw l.length.succ_pos).not_ge
    | cons y m =>
      obtain ⟨rest, hrest⟩ := h
      rw [stream_cons, stream_cons, List.append_assoc] at hrest
      obtain ⟨hx, hl⟩ := List.append_inj hrest (by rw [length_bits, length_bits])
      rw [bits_inj hx]
      exact List.cons_prefix_cons.mpr ⟨rfl, ih ⟨rest, hl⟩⟩

/-! ## Slices -/

/-- **The bits of a slice**. -/
theorem bits_extract (x : BitVec n) (j v w : ℕ) :
    bits (x.extractLsb' j (v + w)) =
      bits (x.extractLsb' (j + w) v) ++ bits (x.extractLsb' j w) := by
  apply List.ext_getElem
  · rw [List.length_append, length_bits, length_bits, length_bits]
  intro i hi hi'
  rw [length_bits] at hi
  have hlen : (bits (x.extractLsb' (j + w) v)).length = v := length_bits _
  rw [List.getElem_append]
  split_ifs with hv
  · rw [hlen] at hv
    simp only [bits, List.getElem_ofFn, BitVec.getMsbD_eq_getLsbD, BitVec.getLsbD_extractLsb']
    rw [decide_eq_true hi, decide_eq_true hv, decide_eq_true (by omega : v + w - 1 - i < v + w),
      decide_eq_true (by omega : v - 1 - i < v),
      (by omega : j + (v + w - 1 - i) = j + w + (v - 1 - i))]
  · rw [hlen] at hv
    simp only [bits, List.getElem_ofFn, BitVec.getMsbD_eq_getLsbD, BitVec.getLsbD_extractLsb',
      List.length_ofFn]
    rw [decide_eq_true hi, decide_eq_true (by omega : i - v < w),
      decide_eq_true (by omega : v + w - 1 - i < v + w),
      decide_eq_true (by omega : w - 1 - (i - v) < w),
      (by omega : j + (v + w - 1 - i) = j + (w - 1 - (i - v)))]

/-- The slice that a shift puts in place. -/
theorem extract_shiftLeft_or {x : BitVec w} {y : BitVec n} {k : ℕ} (h : k + w ≤ n)
    (hy : ∀ i, k ≤ i → y.getLsbD i = false) :
    (x.setWidth n <<< k ||| y).extractLsb' k w = x := by
  apply BitVec.eq_of_getLsbD_eq
  intro i hi
  rw [BitVec.getLsbD_extractLsb', BitVec.getLsbD_or, BitVec.getLsbD_shiftLeft,
    BitVec.getLsbD_setWidth, hy _ (Nat.le_add_right _ _), Nat.add_sub_cancel_left,
    decide_eq_true hi, decide_eq_true (by omega : k + i < n),
    decide_eq_false (by omega : ¬ k + i < k), decide_eq_true (by omega : i < n)]
  simp only [Bool.not_false, Bool.and_true, Bool.true_and, Bool.or_false]

/-- A slice below what a shift puts in place. -/
theorem extract_or {x y : BitVec n} {j k : ℕ} (h : j + w ≤ k) :
    (x <<< k ||| y).extractLsb' j w = y.extractLsb' j w := by
  apply BitVec.eq_of_getLsbD_eq
  intro i hi
  rw [BitVec.getLsbD_extractLsb', BitVec.getLsbD_extractLsb', BitVec.getLsbD_or,
    BitVec.getLsbD_shiftLeft, decide_eq_true (by omega : j + i < k), Bool.not_true, Bool.and_false,
    Bool.false_and, Bool.false_or]

theorem extract_or_of_low {x y : BitVec n} {j : ℕ} (hy : ∀ i, j ≤ i → y.getLsbD i = false) :
    (x ||| y).extractLsb' j w = x.extractLsb' j w := by
  apply BitVec.eq_of_getLsbD_eq
  intro i hi
  rw [BitVec.getLsbD_extractLsb', BitVec.getLsbD_extractLsb', BitVec.getLsbD_or,
    hy _ (Nat.le_add_right _ _), Bool.or_false]

theorem getLsbD_shiftLeft_or_eq_false {x : BitVec w} {y : BitVec n} {j k : ℕ} (h : k + w ≤ j)
    (hy : ∀ i, k ≤ i → y.getLsbD i = false) :
    ∀ i, j ≤ i → (x.setWidth n <<< k ||| y).getLsbD i = false := by
  intro i hi
  rw [BitVec.getLsbD_or, BitVec.getLsbD_shiftLeft, BitVec.getLsbD_setWidth,
    hy i (by omega), BitVec.getLsbD_of_ge x _ (by omega), Bool.and_false, Bool.and_false,
    Bool.or_false]

theorem getLsbD_setWidth_eq_false (x : BitVec w) :
    ∀ i, w ≤ i → (x.setWidth n).getLsbD i = false := by
  intro i hi
  rw [BitVec.getLsbD_setWidth, BitVec.getLsbD_of_ge x _ hi, Bool.and_false]

theorem extract_setWidth {x : BitVec w} (h : w ≤ n) : (x.setWidth n).extractLsb' 0 w = x := by
  apply BitVec.eq_of_getLsbD_eq
  intro i hi
  rw [BitVec.getLsbD_extractLsb', BitVec.getLsbD_setWidth, Nat.zero_add, decide_eq_true hi,
    decide_eq_true (by omega : i < n)]
  simp only [Bool.true_and]

/-! ## Words in a sequence of bits -/

/-- The words of `m` are the complete words in the bits of `l`. -/
structure Packs (l : List (BitVec w)) (m : List (BitVec v)) : Prop where
  initial : stream m <+: stream l
  complete : w * l.length < v * m.length + v

namespace Packs

variable {l : List (BitVec w)} {m m' : List (BitVec v)}

theorem length_eq (hv : 0 < v) (h : Packs l m) : m.length = w * l.length / v := by
  have hle := h.initial.length_le
  rw [length_stream, length_stream] at hle
  symm
  rw [Nat.div_eq_iff hv]
  have := h.complete
  have h1 : m.length * v = v * m.length := Nat.mul_comm _ _
  omega

/-- **The complete words** are determined by the bits. -/
theorem unique (hv : 0 < v) (h : Packs l m) (h' : Packs l m') : m = m' := by
  have hlen : m.length = m'.length := (h.length_eq hv).trans (h'.length_eq hv).symm
  rcases List.prefix_or_prefix_of_prefix h.initial h'.initial with hp | hp
  · exact (isPrefix_of_stream hv hp).eq_of_length hlen
  · exact ((isPrefix_of_stream hv hp).eq_of_length hlen.symm).symm

theorem append (l' : List (BitVec w)) (m' : List (BitVec v)) (heq : stream l' = stream m')
    (h : Packs l m) : Packs (l' ++ l) (m' ++ m) := by
  refine ⟨?_, ?_⟩
  · rw [stream_append, stream_append, heq]
    exact List.prefix_append_right_inj _ |>.mpr h.initial
  · have hlen := congrArg List.length heq
    rw [length_stream, length_stream] at hlen
    have := h.complete
    rw [List.length_append, List.length_append, Nat.mul_add, Nat.mul_add]
    omega

theorem of_stream_eq (rest : List Bool) (heq : stream l = stream m ++ rest)
    (hrest : rest.length < v) : Packs l m := by
  refine ⟨⟨rest, heq.symm⟩, ?_⟩
  have hlen := congrArg List.length heq
  rw [List.length_append, length_stream, length_stream] at hlen
  omega

end Packs

end Bits
