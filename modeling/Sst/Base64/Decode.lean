import Sst.Base64.Code
import Sst.Lib.Bits
import Mathlib.Data.List.TakeWhile

/-!
# Base64: decoding

* `Legal x`, `digit x`: the characters that the decoder accepts and the six bits each stands for.
* `decoded l`: the bytes that it makes from the bits; **`packs_decoded`**: they are the complete
  bytes in these bits.
* `finish`: how the loop ends when it makes certain bytes; **`decodeLoop_eq`**.
* **`decode_prefix`**: the decoder stops only at the end of the buffer or behind the first illegal
  character.
-/

namespace Sst.Base64

open Bits

/-! ## Digits -/

def Legal (x : UInt8) : Prop := 0 ≤ dectab.getD x.toNat 0

instance (x : UInt8) : Decidable (Legal x) := inferInstanceAs (Decidable (0 ≤ _))

/-- The six bits of a character. -/
def digit (x : UInt8) : BitVec 6 := .ofInt 6 (dectab.getD x.toNat 0)

theorem dectab_lt (n : ℕ) : dectab.getD n 0 < 64 := by
  have hall : ∀ z ∈ dectab, z < 64 := by decide +kernel
  rw [List.getD_eq_getElem?_getD]
  cases h : dectab[n]? with
  | none => decide
  | some z => exact hall z (List.mem_of_getElem? h)

theorem ofInt_dectab {x : UInt8} (hx : Legal x) :
    BitVec.ofInt 32 (dectab.getD x.toNat 0) = (digit x).setWidth 32 := by
  have hlt := dectab_lt x.toNat
  have hx' : 0 ≤ dectab.getD x.toNat 0 := hx
  apply BitVec.eq_of_toNat_eq
  rw [digit, BitVec.toNat_setWidth, BitVec.toNat_ofInt, BitVec.toNat_ofInt]
  omega

/-- The end of a string is no character of base64. -/
theorem not_legal_zero : ¬ Legal 0 := by decide

/-! ## Bytes -/

variable (a b c d : BitVec 6)

/-- The first byte of a group. -/
def byte0 : BitVec 8 :=
  (((a.setWidth 32 <<< 18 ||| b.setWidth 32 <<< 12) : BitVec 32) >>> 16).setWidth 8

/-- The second byte of a group. -/
def byte1 : BitVec 8 :=
  (((a.setWidth 32 <<< 18 ||| b.setWidth 32 <<< 12 ||| c.setWidth 32 <<< 6) : BitVec 32) >>>
    8).setWidth 8

/-- The third byte of a group. -/
def byte2 : BitVec 8 :=
  ((a.setWidth 32 <<< 18 ||| b.setWidth 32 <<< 12 ||| c.setWidth 32 <<< 6 ||| d.setWidth 32) :
    BitVec 32).setWidth 8

/-- The bytes that the decoder makes. -/
def decoded : List (BitVec 6) → List (BitVec 8)
  | a :: b :: c :: d :: l => byte0 a b :: byte1 a b c :: byte2 a b c d :: decoded l
  | [a, b, c] => [byte0 a b, byte1 a b c]
  | [a, b] => [byte0 a b]
  | [_] => []
  | [] => []

/-- The four digits of a group. -/
def group : BitVec 32 :=
  a.setWidth 32 <<< 18 ||| (b.setWidth 32 <<< 12 ||| (c.setWidth 32 <<< 6 ||| d.setWidth 32))

theorem setWidth_ushiftRight (v : BitVec 32) (k : ℕ) :
    (v >>> k).setWidth 8 = v.extractLsb' k 8 := by
  apply BitVec.eq_of_getLsbD_eq
  intro i hi
  rw [BitVec.getLsbD_setWidth, BitVec.getLsbD_ushiftRight, BitVec.getLsbD_extractLsb']

theorem byte0_eq : byte0 a b = (group a b c d).extractLsb' 16 8 := by
  have hlow : ∀ i, 16 ≤ i → (c.setWidth 32 <<< 6 ||| d.setWidth 32 : BitVec 32).getLsbD i = false :=
    getLsbD_shiftLeft_or_eq_false (by decide) (getLsbD_setWidth_eq_false d)
  rw [byte0, setWidth_ushiftRight, group, ← BitVec.or_assoc, extract_or_of_low hlow]

theorem byte1_eq : byte1 a b c = (group a b c d).extractLsb' 8 8 := by
  have hlow : ∀ i, 8 ≤ i → (d.setWidth 32 : BitVec 32).getLsbD i = false :=
    fun i hi => getLsbD_setWidth_eq_false d i (by omega)
  rw [byte1, setWidth_ushiftRight, group, ← BitVec.or_assoc, ← BitVec.or_assoc,
    extract_or_of_low hlow]

theorem byte2_eq : byte2 a b c d = (group a b c d).extractLsb' 0 8 := by
  rw [← setWidth_ushiftRight, BitVec.ushiftRight_zero, byte2, group, BitVec.or_assoc,
    BitVec.or_assoc]

theorem bits_group :
    bits ((group a b c d).extractLsb' 0 24) = bits a ++ bits b ++ bits c ++ bits d := by
  have hd : ∀ i, 6 ≤ i → (d.setWidth 32 : BitVec 32).getLsbD i = false :=
    getLsbD_setWidth_eq_false d
  have hc : ∀ i, 12 ≤ i → (c.setWidth 32 <<< 6 ||| d.setWidth 32 : BitVec 32).getLsbD i = false :=
    getLsbD_shiftLeft_or_eq_false (by decide) hd
  have hb := getLsbD_shiftLeft_or_eq_false (x := b) (k := 12) (j := 18) (by decide) hc
  rw [bits_extract _ 0 18 6, bits_extract _ 6 12 6, bits_extract _ 12 6 6, group]
  rw [extract_shiftLeft_or (by decide) hb, extract_or (by decide),
    extract_shiftLeft_or (by decide) hc, extract_or (by decide), extract_or (by decide),
    extract_shiftLeft_or (by decide) hd, extract_or (by decide), extract_or (by decide),
    extract_or (by decide), extract_setWidth (by decide)]

/-- **The bytes of a group** have the bits of its digits. -/
theorem bits_bytes :
    bits (byte0 a b) ++ bits (byte1 a b c) ++ bits (byte2 a b c d) =
      bits a ++ bits b ++ bits c ++ bits d := by
  rw [← bits_group, byte0_eq a b c d, byte1_eq a b c d, byte2_eq, bits_extract _ 0 16 8,
    bits_extract _ 8 8 8]

/-- **The decoded bytes** are the complete bytes in the bits of the digits. -/
theorem packs_decoded : ∀ l : List (BitVec 6), Packs l (decoded l)
  | a :: b :: c :: d :: l => by
    refine Packs.append [a, b, c, d] [byte0 a b, byte1 a b c, byte2 a b c d] ?_ (packs_decoded l)
    simp only [stream_cons, stream_nil, List.append_nil]
    rw [← List.append_assoc, ← List.append_assoc, ← List.append_assoc, bits_bytes]
  | [a, b, c] => by
    refine ⟨?_, (by decide : 6 * 3 < 8 * 2 + 8)⟩
    simp only [decoded, stream_cons, stream_nil, List.append_nil]
    rw [← List.append_assoc]
    have hdigits : bits a ++ bits b ++ bits c <+: bits a ++ bits b ++ bits c ++ bits 0#6 :=
      List.prefix_append _ _
    refine List.prefix_of_prefix_length_le ⟨_, bits_bytes a b c 0#6⟩ hdigits ?_
    simp only [List.length_append, length_bits]
    decide
  | [a, b] => by
    refine ⟨?_, (by decide : 6 * 2 < 8 * 1 + 8)⟩
    simp only [decoded, stream_cons, stream_nil, List.append_nil]
    have hbytes := bits_bytes a b 0#6 0#6
    rw [List.append_assoc] at hbytes
    have hdigits : bits a ++ bits b <+: bits a ++ bits b ++ bits 0#6 ++ bits 0#6 := by
      rw [List.append_assoc (bits a ++ bits b)]
      exact List.prefix_append _ _
    refine List.prefix_of_prefix_length_le ⟨_, hbytes⟩ hdigits ?_
    simp only [List.length_append, length_bits]
    decide
  | [_] => ⟨List.nil_prefix, (by decide : 6 * 1 < 8 * 0 + 8)⟩
  | [] => ⟨List.nil_prefix, by decide⟩

theorem length_decoded (l : List (BitVec 6)) : (decoded l).length = 6 * l.length / 8 :=
  (packs_decoded l).length_eq (by decide)

/-! ## The loop -/

variable {str : Bytes} {bmax : ℕ}

theorem fetch_legal {s i : ℕ} {x : UInt8} {out : Bytes} {next : BitVec 32 → Decoder → Outcome}
    (hs : str[s]? = some x) (hx : Legal x) :
    fetch str ⟨s, i, out⟩ next = next ((digit x).setWidth 32) ⟨s + 1, i, out⟩ := by
  unfold fetch
  dsimp only
  rw [hs]
  dsimp only
  rw [if_neg (not_lt.mpr hx), ofInt_dectab hx]

theorem fetch_illegal {s i : ℕ} {x : UInt8} {out : Bytes} {next : BitVec 32 → Decoder → Outcome}
    (hs : str[s]? = some x) (hx : ¬ Legal x) :
    fetch str ⟨s, i, out⟩ next = .stopped ⟨s + 1, i, out⟩ := by
  unfold fetch
  dsimp only
  rw [hs]
  dsimp only
  rw [if_pos (not_le.mp hx)]

/-- How the loop ends at position `s` when it has made `done` and would make `l`, if the buffer has
room for `room` bytes more. -/
def finish (s : ℕ) (done rest : Bytes) (room : ℕ) (l : Bytes) : Outcome :=
  if room < l.length then .full (done ++ l.take room ++ rest.drop room)
  else .stopped ⟨s, (done ++ l).length, done ++ l ++ rest.drop l.length⟩

theorem output_eq {s e room : ℕ} {done rest l : Bytes} {v : BitVec 32} {next : Decoder → Outcome}
    (hb : bmax = done.length + room) (hroom : room ≤ rest.length)
    (hnext : ∀ r rest', bmax = (done ++ [UInt8.ofBitVec (v.setWidth 8)]).length + r →
      r ≤ rest'.length → next ⟨s, (done ++ [UInt8.ofBitVec (v.setWidth 8)]).length,
          done ++ [UInt8.ofBitVec (v.setWidth 8)] ++ rest'⟩ =
        finish e (done ++ [UInt8.ofBitVec (v.setWidth 8)]) rest' r l) :
    output bmax v ⟨s, done.length, done ++ rest⟩ next =
      finish e done rest room (UInt8.ofBitVec (v.setWidth 8) :: l) := by
  unfold output
  dsimp only
  cases room with
  | zero =>
    rw [Nat.add_zero] at hb
    rw [if_pos hb.symm, finish, if_pos (by rw [List.length_cons]; omega), List.take_zero,
      List.append_nil, List.drop_zero]
  | succ r =>
    cases rest with
    | nil => cases hroom
    | cons y rest =>
      rw [if_neg (by omega), store, if_pos (by rw [List.length_append, List.length_cons]; omega)]
      dsimp only
      have hset : (done ++ y :: rest).set done.length (UInt8.ofBitVec (v.setWidth 8)) =
          done ++ [UInt8.ofBitVec (v.setWidth 8)] ++ rest := by
        rw [List.set_append_right _ _ le_rfl, Nat.sub_self, List.set_cons_zero, List.append_assoc]
        rfl
      have hlen : done.length + 1 = (done ++ [UInt8.ofBitVec (v.setWidth 8)]).length := by
        rw [List.length_append, List.length_singleton]
      rw [hset, hlen, hnext r rest (by omega) (Nat.le_of_succ_le_succ hroom), finish, finish]
      simp only [List.length_cons, Nat.add_lt_add_iff_right, List.append_assoc,
        List.cons_append, List.nil_append, List.take_succ_cons, List.drop_succ_cons]

theorem getElem?_of_drop {s : ℕ} {x : UInt8} {l : Bytes} (h : str.drop s = x :: l) :
    str[s]? = some x ∧ str.drop (s + 1) = l := by
  constructor
  · rw [← List.head?_drop, h]
    rfl
  · rw [← List.tail_drop, h]
    rfl

theorem finish_nil (s room : ℕ) (done rest : Bytes) :
    finish s done rest room [] = .stopped ⟨s, done.length, done ++ rest⟩ := by
  rw [finish, List.length_nil, if_neg (Nat.not_lt_zero _), List.append_nil, List.drop_zero]

/-- The bytes of a string's characters. -/
def toBytes (cs : Bytes) : Bytes := (decoded (cs.map digit)).map UInt8.ofBitVec

/-- **The loop** reads on to the first illegal character, or to the end of the buffer. -/
theorem decodeLoop_eq {x : UInt8} {tail : Bytes} (hx : ¬ Legal x) :
    ∀ (cs : Bytes) (n s room : ℕ) (done rest : Bytes), str.drop s = cs ++ x :: tail →
      (∀ y ∈ cs, Legal y) → bmax = done.length + room → room ≤ rest.length → cs.length < n →
      decodeLoop str bmax n ⟨s, done.length, done ++ rest⟩ =
        finish (s + cs.length + 1) done rest room (toBytes cs)
  | c0 :: c1 :: c2 :: c3 :: cs, n + 1, s, room, done, rest, hs, hcs, hb, hroom, hn => by
    obtain ⟨hs0, hs⟩ := getElem?_of_drop hs
    obtain ⟨hs1, hs⟩ := getElem?_of_drop hs
    obtain ⟨hs2, hs⟩ := getElem?_of_drop hs
    obtain ⟨hs3, hs⟩ := getElem?_of_drop hs
    simp only [List.forall_mem_cons] at hcs
    obtain ⟨h0, h1, h2, h3, hcs⟩ := hcs
    rw [decodeLoop, decodeGroup, fetch_legal hs0 h0, fetch_legal hs1 h1]
    refine output_eq hb hroom fun r rest hb hroom => ?_
    rw [fetch_legal hs2 h2]
    refine output_eq hb hroom fun r rest hb hroom => ?_
    rw [fetch_legal hs3 h3]
    refine output_eq hb hroom fun r rest hb hroom => ?_
    simp only [List.length_cons] at hn ⊢
    rw [decodeLoop_eq hx cs n _ r _ rest hs hcs hb hroom (by omega)]
    rw [(by omega : s + 1 + 1 + 1 + 1 + cs.length + 1 = s + (cs.length + 1 + 1 + 1 + 1) + 1)]
    rfl
  | [c0, c1, c2], n + 1, s, room, done, rest, hs, hcs, hb, hroom, hn => by
    obtain ⟨hs0, hs⟩ := getElem?_of_drop hs
    obtain ⟨hs1, hs⟩ := getElem?_of_drop hs
    obtain ⟨hs2, hs⟩ := getElem?_of_drop hs
    obtain ⟨hs3, hs⟩ := getElem?_of_drop hs
    simp only [List.forall_mem_cons] at hcs
    obtain ⟨h0, h1, h2, -⟩ := hcs
    rw [decodeLoop, decodeGroup, fetch_legal hs0 h0, fetch_legal hs1 h1]
    refine output_eq hb hroom fun r rest hb hroom => ?_
    rw [fetch_legal hs2 h2]
    refine output_eq hb hroom fun r rest hb hroom => ?_
    rw [fetch_illegal hs3 hx]
    exact (finish_nil _ _ _ _).symm
  | [c0, c1], n + 1, s, room, done, rest, hs, hcs, hb, hroom, hn => by
    obtain ⟨hs0, hs⟩ := getElem?_of_drop hs
    obtain ⟨hs1, hs⟩ := getElem?_of_drop hs
    obtain ⟨hs2, hs⟩ := getElem?_of_drop hs
    simp only [List.forall_mem_cons] at hcs
    obtain ⟨h0, h1, -⟩ := hcs
    rw [decodeLoop, decodeGroup, fetch_legal hs0 h0, fetch_legal hs1 h1]
    refine output_eq hb hroom fun r rest hb hroom => ?_
    rw [fetch_illegal hs2 hx]
    exact (finish_nil _ _ _ _).symm
  | [c0], n + 1, s, room, done, rest, hs, hcs, hb, hroom, hn => by
    obtain ⟨hs0, hs⟩ := getElem?_of_drop hs
    obtain ⟨hs1, hs⟩ := getElem?_of_drop hs
    rw [decodeLoop, decodeGroup, fetch_legal hs0 (hcs c0 (List.mem_singleton_self _)),
      fetch_illegal hs1 hx]
    exact (finish_nil _ _ _ _).symm
  | [], n + 1, s, room, done, rest, hs, hcs, hb, hroom, hn => by
    obtain ⟨hs0, hs⟩ := getElem?_of_drop hs
    rw [decodeLoop, decodeGroup, fetch_illegal hs0 hx]
    exact (finish_nil _ _ _ _).symm

/-! ## Strings -/

/-- The longest prefix of base64 characters. -/
def legalPrefix (str : Bytes) : Bytes := str.takeWhile fun x => Legal x

theorem length_toBytes (cs : Bytes) : (toBytes cs).length = 6 * cs.length / 8 := by
  rw [toBytes, List.length_map, length_decoded, List.length_map]

/-- The terminator ends the prefix if nothing else does. -/
theorem legalPrefix_spec (str : Bytes) :
    ∃ x tail, str ++ [0] = legalPrefix str ++ x :: tail ∧ ¬ Legal x := by
  induction str with
  | nil => exact ⟨0, [], rfl, not_legal_zero⟩
  | cons y str ih =>
    obtain ⟨x, tail, heq, hx⟩ := ih
    by_cases hy : Legal y
    · refine ⟨x, tail, ?_, hx⟩
      have hcons : legalPrefix (y :: str) = y :: legalPrefix str :=
        List.takeWhile_cons_of_pos (decide_eq_true hy)
      rw [hcons, List.cons_append, heq, List.cons_append]
    · refine ⟨y, str ++ [0], ?_, hy⟩
      have hnil : legalPrefix (y :: str) = [] :=
        List.takeWhile_cons_of_neg (by rw [decide_eq_false hy]; exact Bool.false_ne_true)
      rw [hnil]
      rfl

/-- **The decoder** in full. -/
theorem decode_eq (str out : Bytes) {size : ℕ} (hsize : size ≤ out.length) :
    decode (str ++ [0]) out size = some (
      if size < (toBytes (legalPrefix str)).length then
        ⟨-1, size, (toBytes (legalPrefix str)).take size ++ out.drop size⟩
      else
        ⟨int ((legalPrefix str).length + 1), (toBytes (legalPrefix str)).length,
          toBytes (legalPrefix str) ++ out.drop (toBytes (legalPrefix str)).length⟩) := by
  obtain ⟨x, tail, heq, hx⟩ := legalPrefix_spec str
  have hlegal : ∀ y ∈ legalPrefix str, Legal y := by
    intro y hy
    have hdec := List.mem_takeWhile_imp hy
    exact of_decide_eq_true hdec
  have hlen : (legalPrefix str).length < (str ++ [0]).length := by
    rw [heq, List.length_append, List.length_cons]
    omega
  have hloop := decodeLoop_eq hx (legalPrefix str) (str ++ [0]).length 0 size []
    out heq hlegal (Nat.zero_add size).symm hsize hlen
  unfold decode
  rw [List.length_nil, List.nil_append] at hloop
  rw [hloop, finish]
  split_ifs with h
  · rfl
  · rw [Nat.zero_add]
    rfl

/-! ## What the decoder reports -/

theorem int_ne_of_succ (k : ℕ) : int (k + 1) ≠ k := by
  intro h
  have hdvd := Int.dvd_bmod_sub_self (x := (k + 1 : ℕ)) (m := 2 ^ 32)
  unfold int Word.wrap at h
  rw [h, Nat.cast_succ, sub_add_cancel_left] at hdvd
  exact absurd hdvd (by decide)

/-- What is documented: for a string with `k` characters that encode `n` bytes. -/
structure Documented (k n size : ℕ) (r : Decoded) : Prop where
  full : r.ret = -1 ↔ size < n
  read : n ≤ size → r.ret = k ∧ r.size = n

/-- **Decoding a string** into a buffer: the decoder neither reads behind the terminator nor writes
behind the buffer, and fails exactly if the buffer is too small. It does what is documented only
then: if it succeeds, it counts the character that it stops at. -/
theorem decode_prefix (str buf beyond : Bytes) :
    ∃ r, decode (str ++ [0]) (buf ++ beyond) buf.length = some r ∧
      (∃ buf', buf'.length = buf.length ∧ r.out = buf' ++ beyond) ∧
      (6 * (legalPrefix str).length / 8 ≤ buf.length →
        r.ret = int ((legalPrefix str).length + 1) ∧
        r.size = 6 * (legalPrefix str).length / 8 ∧
        r.out.take r.size = toBytes (legalPrefix str)) ∧
      (Documented (legalPrefix str).length (6 * (legalPrefix str).length / 8) buf.length r ↔
        buf.length < 6 * (legalPrefix str).length / 8) := by
  have hsize : buf.length ≤ (buf ++ beyond).length := by
    rw [List.length_append]
    exact Nat.le_add_right _ _
  have hlen := length_toBytes (legalPrefix str)
  refine ⟨_, decode_eq str (buf ++ beyond) hsize, ?_⟩
  rw [← hlen]
  split_ifs with h
  · refine ⟨⟨(toBytes (legalPrefix str)).take buf.length, ?_, ?_⟩, fun hle => ?_, ?_⟩
    · rw [List.length_take, Nat.min_eq_left h.le]
    · rw [List.drop_left]
    · exact absurd h hle.not_gt
    · exact iff_of_true ⟨iff_of_true rfl h, fun hle => absurd h hle.not_gt⟩ h
  · have hle := not_lt.mp h
    refine ⟨⟨toBytes (legalPrefix str) ++ buf.drop (toBytes (legalPrefix str)).length, ?_, ?_⟩,
      fun _ => ⟨rfl, rfl, List.take_left⟩, ?_⟩
    · rw [List.length_append, List.length_drop]
      omega
    · rw [List.drop_append_of_le_length hle, List.append_assoc]
    · refine iff_of_false (fun hdoc => ?_) h
      exact int_ne_of_succ _ (hdoc.read hle).1

/-- Four characters are reported as five. -/
theorem decode_prefix_four :
    legalPrefix [84, 87, 70, 117] = [84, 87, 70, 117] ∧
    decode [84, 87, 70, 117, 0] [0, 0, 0] 3 = some ⟨5, 3, [77, 97, 110]⟩ := by
  decide +kernel

end Sst.Base64
