import Mathlib.Tactic.IntervalCases
import Sst.Lib.Bits
import Sst.Lib.CommonPrefix
import Sst.Route.Path

/-!
# Affinity

The affinity of two nodes is the number of leading bits in which their ids agree.

* `affinity`: the loops over the bytes and over the bits of the first byte that differs.
* **`affinity_eq`**: it is the length of the common prefix of the bits.
* `affinity_trans`, `lt_affinity`: what the affinities of two nodes to a third tell of each other.
-/

namespace Sst.Route

open Bits CommonPrefix

/-- The first bit that is set in a byte, the highest first. -/
def firstBit (x : UInt8) : ℕ :=
  (List.range 8).findIdx fun j => x &&& ((0x80 : UInt8) >>> j.toUInt8) ≠ 0

/-- `affinity`: the number of leading bits in which two ids agree. -/
def affinity : NodeId → NodeId → ℕ
  | x :: a, y :: b => if x ^^^ y = 0 then 8 + affinity a b else firstBit (x ^^^ y)
  | _, _ => 0

/-- The bits of an id. -/
def idBits (a : NodeId) : List Bool := stream (a.map UInt8.toBitVec)

theorem length_idBits (a : NodeId) : (idBits a).length = 8 * a.length := by
  rw [idBits, length_stream, List.length_map]

theorem idBits_cons (x : UInt8) (a : NodeId) : idBits (x :: a) = bits x.toBitVec ++ idBits a := rfl

theorem and_mask (x : UInt8) {j : ℕ} (hj : j < 8) :
    x &&& ((0x80 : UInt8) >>> j.toUInt8) ≠ 0 ↔ x.toBitVec.getMsbD j = true := by
  have hmask : ((0x80 : UInt8) >>> j.toUInt8).toBitVec = BitVec.twoPow 8 (7 - j) := by
    interval_cases j <;> rfl
  have hzero : x &&& ((0x80 : UInt8) >>> j.toUInt8) = 0 ↔
      x.toBitVec &&& BitVec.twoPow 8 (7 - j) = 0#8 := by
    rw [← UInt8.toBitVec_inj, UInt8.toBitVec_and, hmask]
    rfl
  have hlsb : x.toBitVec.getMsbD j = x.toBitVec.getLsbD (7 - j) := by
    simp [BitVec.getMsbD, hj]
  rw [ne_eq, hzero, hlsb, BitVec.and_twoPow]
  split_ifs with h
  · refine iff_of_true (fun heq => ?_) h
    have := congrArg (fun v => v.getLsbD (7 - j)) heq
    simp [BitVec.getLsbD_twoPow] at this
    omega
  · simp [h]

theorem findIdx_congr {α : Type*} {p q : α → Bool} {l : List α} (h : ∀ a ∈ l, p a = q a) :
    l.findIdx p = l.findIdx q := by
  induction l with
  | nil => rfl
  | cons a l ih =>
    obtain ⟨ha, h⟩ := List.forall_mem_cons.mp h
    rw [List.findIdx_cons, List.findIdx_cons, ha, ih h]

/-- The first bit that differs ends the common prefix. -/
theorem firstBit_xor (x y : UInt8) :
    firstBit (x ^^^ y) = commonPrefix (bits x.toBitVec) (bits y.toBitVec) := by
  have hbits : ∀ z : UInt8, bits z.toBitVec = (List.range 8).map z.toBitVec.getMsbD := fun z => rfl
  have hbit : ∀ j ∈ List.range 8, decide ((x ^^^ y) &&& ((0x80 : UInt8) >>> j.toUInt8) ≠ 0) =
      decide (x.toBitVec.getMsbD j ≠ y.toBitVec.getMsbD j) := fun j hj => by
    rw [decide_eq_decide, and_mask _ (List.mem_range.mp hj), UInt8.toBitVec_xor, BitVec.getMsbD_xor]
    cases x.toBitVec.getMsbD j <;> cases y.toBitVec.getMsbD j <;> simp
  rw [hbits x, hbits y, commonPrefix_map, firstBit, findIdx_congr hbit]

/-- **Affinity** is the length of the common prefix. -/
theorem affinity_eq (a b : NodeId) : affinity a b = commonPrefix (idBits a) (idBits b) := by
  induction a generalizing b with
  | nil => simp [affinity, idBits]
  | cons x a ih =>
    cases b with
    | nil => simp [affinity, idBits]
    | cons y b =>
      have heq : bits x.toBitVec = bits y.toBitVec ↔ x ^^^ y = 0 := by
        rw [UInt8.xor_eq_zero_iff]
        refine ⟨fun h => UInt8.toBitVec_inj.mp (bits_inj h), fun h => by rw [h]⟩
      rw [affinity, idBits_cons, idBits_cons, commonPrefix_append _ _ (by simp), ih, firstBit_xor,
        length_bits]
      simp only [heq]

variable {a b c : NodeId} {n : ℕ}

theorem affinity_comm : affinity a b = affinity b a := by
  rw [affinity_eq, affinity_eq, commonPrefix_comm]

/-- **Nodes near a third** are near each other. -/
theorem affinity_trans (h₁ : n ≤ affinity a b) (h₂ : n ≤ affinity a c) : n ≤ affinity b c := by
  rw [affinity_eq] at *
  exact commonPrefix_trans (h₁.trans_eq commonPrefix_comm) h₂

/-- Nodes with ids of one length that part from a third at one bit are nearer to each other. -/
theorem lt_affinity (hb : b.length = a.length) (hc : c.length = a.length) (hab : affinity a b = n)
    (hac : affinity a c = n) (hn : n < 8 * a.length) : n < affinity b c := by
  rw [affinity_eq] at *
  refine lt_commonPrefix_of_bool hab hac ?_ ?_ ?_ <;> rw [length_idBits] <;> omega

theorem affinity_le : affinity a b ≤ 8 * a.length := by
  rw [affinity_eq, ← length_idBits]
  exact commonPrefix_le_left

theorem idBits_inj (h : idBits a = idBits b) : a = b := by
  refine List.map_injective_iff.mpr (fun x y => UInt8.toBitVec_inj.mp) ?_
  refine (isPrefix_of_stream (by decide) ⟨[], ?_⟩).eq_of_length ?_
  · rw [List.append_nil]
    exact h
  · have hlen := congrArg List.length h
    rw [length_idBits, length_idBits] at hlen
    rw [List.length_map, List.length_map]
    omega

theorem affinity_lt (hb : b.length = a.length) (h : a ≠ b) : affinity a b < 8 * a.length := by
  refine lt_of_le_of_ne affinity_le fun heq => h (idBits_inj (eq_of_commonPrefix ?_ ?_))
  · rw [← affinity_eq, heq, length_idBits]
  · rw [length_idBits, length_idBits, hb]

end Sst.Route
