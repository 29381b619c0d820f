import Sst.Base64.Decode

/-!
# Base64: encoding

* `chars`: the string that the encoder writes; **`encode_eq`**: it writes nothing else.
* `packs_digits`: the data are the complete bytes in the bits of its characters.
* **`base64_round_trip`**: the decoder restores the data, and the encoder returns the string's
  length if that is an `int`.
-/

namespace Sst.Base64

open Bits

variable {flags : BitVec 32}

/-! ## Characters -/

/-- The character of six bits. -/
def char (flags : BitVec 32) (x : BitVec 6) : UInt8 := (conv flags).getD x.toNat 0

theorem digit_char (flags : BitVec 32) (x : BitVec 6) :
    Legal (char flags x) ∧ digit (char flags x) = x := by
  have hall : ∀ i : Fin 64, (Legal (convstd.getD i 0) ∧ digit (convstd.getD i 0) = .ofFin i) ∧
      Legal (convsafe.getD i 0) ∧ digit (convsafe.getD i 0) = .ofFin i := by decide +kernel
  obtain ⟨hstd, hsafe⟩ := hall x.toFin
  unfold char conv
  split_ifs
  · exact hsafe
  · exact hstd

theorem char_ne_zero (flags : BitVec 32) (x : BitVec 6) : char flags x ≠ 0 := by
  intro h
  have hlegal := (digit_char flags x).1
  rw [h] at hlegal
  exact not_legal_zero hlegal

theorem convert_eq (flags v : BitVec 32) (k : ℕ) :
    convert flags v k = char flags (v.extractLsb' k 6) := by
  have hmod : (v >>> k &&& 0x3f#32).toNat = (v.extractLsb' k 6).toNat := by
    rw [BitVec.toNat_and, BitVec.toNat_ushiftRight, BitVec.extractLsb'_toNat]
    exact Nat.and_two_pow_sub_one_eq_mod _ 6
  rw [convert, char, hmod]

/-! ## Groups -/

/-- The three bytes of a group. -/
def triple (a b c : UInt8) : BitVec 32 := word a <<< 16 ||| word b <<< 8 ||| word c

theorem bits_triple (a b c : UInt8) :
    bits ((triple a b c).extractLsb' 0 24) =
      bits a.toBitVec ++ bits b.toBitVec ++ bits c.toBitVec := by
  have hc : ∀ i, 8 ≤ i → (word c).getLsbD i = false := getLsbD_setWidth_eq_false c.toBitVec
  have hb := getLsbD_shiftLeft_or_eq_false (x := b.toBitVec) (k := 8) (j := 16) (by decide) hc
  rw [bits_extract _ 0 16 8, bits_extract _ 8 8 8, triple, BitVec.or_assoc]
  unfold word at *
  rw [extract_shiftLeft_or (by decide) hb, extract_or (by decide),
    extract_shiftLeft_or (by decide) hc, extract_or (by decide), extract_or (by decide),
    extract_setWidth (by decide)]

/-- The digits of a group. -/
def quad (v : BitVec 32) : List (BitVec 6) :=
  [v.extractLsb' 18 6, v.extractLsb' 12 6, v.extractLsb' 6 6, v.extractLsb' 0 6]

/-- **The digits of a group** have the bits of its bytes. -/
theorem stream_quad (a b c : UInt8) :
    stream (quad (triple a b c)) = stream [a.toBitVec, b.toBitVec, c.toBitVec] := by
  have h := bits_triple a b c
  rw [bits_extract _ 0 18 6, bits_extract _ 6 12 6, bits_extract _ 12 6 6] at h
  simp only [quad, stream_cons, stream_nil, List.append_nil]
  rw [← List.append_assoc, ← List.append_assoc, ← List.append_assoc]
  exact h

/-! ## Digits -/

/-- The digits of the data. -/
def digits : Bytes → List (BitVec 6)
  | a :: b :: c :: l => quad (triple a b c) ++ digits l
  | [a, b] => (quad (triple a b 0)).take 3
  | [a] => (quad (triple a 0 0)).take 2
  | [] => []

/-- **The data** are the complete bytes in the bits of the digits. -/
theorem packs_digits : ∀ l : Bytes, Packs (digits l) (l.map UInt8.toBitVec)
  | a :: b :: c :: l =>
    (packs_digits l).append (quad (triple a b c)) [a.toBitVec, b.toBitVec, c.toBitVec]
      (stream_quad a b c)
  | [a, b] => by
    refine Packs.of_stream_eq ((bits (0 : UInt8).toBitVec).take 2) ?_ (by decide)
    rw [digits, stream_take, stream_quad]
    simp only [List.map_cons, List.map_nil, stream_cons, stream_nil, List.append_nil]
    rw [← List.append_assoc, List.take_append, List.take_of_length_le]
    · rw [List.length_append, length_bits, length_bits]
    · rw [List.length_append, length_bits, length_bits]
      decide
  | [a] => by
    refine Packs.of_stream_eq ((bits (0 : UInt8).toBitVec).take 4) ?_ (by decide)
    rw [digits, stream_take, stream_quad]
    simp only [List.map_cons, List.map_nil, stream_cons, stream_nil, List.append_nil]
    rw [List.take_append, List.take_of_length_le, length_bits, List.take_append, length_bits]
    · simp
    · rw [length_bits]
      decide
  | [] => ⟨List.nil_prefix, by decide⟩

theorem length_digits : ∀ l : Bytes, (digits l).length = (4 * l.length + 2) / 3
  | a :: b :: c :: l => by
    rw [digits, List.length_append, length_digits l]
    simp only [quad, List.length_cons, List.length_nil]
    omega
  | [_, _] => by
    rw [digits, List.length_take]
    exact (by decide : min 3 4 = (4 * 2 + 2) / 3)
  | [_] => by
    rw [digits, List.length_take]
    exact (by decide : min 2 4 = (4 * 1 + 2) / 3)
  | [] => rfl

/-- The characters put at the end. -/
def pads (flags : BitVec 32) (n : ℕ) : Bytes :=
  if flags &&& noPad ≠ 0 then [] else List.replicate ((3 - n % 3) % 3) '='.toUInt8

/-- The string of the data. -/
def chars (flags : BitVec 32) (l : Bytes) : Bytes :=
  (digits l).map (char flags) ++ pads flags l.length

/-! ## The written string -/

/-- What is left of the string's buffer behind the string is zero. -/
def written (flags : BitVec 32) (l : Bytes) : Bytes :=
  chars flags l ++ List.replicate (encspace l.length - (chars flags l).length) 0

theorem store_append {done rest : Bytes} {k : ℕ} {x : UInt8} (hk : k < rest.length) :
    store (done ++ rest) (done.length + k) x = some (done ++ rest.set k x) := by
  rw [store, if_pos (by rw [List.length_append]; omega), List.set_append_right _ _ (by omega),
    Nat.add_sub_cancel_left]

theorem strlen_append {cs tail : Bytes} (hcs : ∀ x ∈ cs, x ≠ 0) :
    strlen (cs ++ 0 :: tail) = some cs.length := by
  induction cs with
  | nil => rfl
  | cons x cs ih =>
    rw [List.forall_mem_cons] at hcs
    rw [List.cons_append, strlen, if_neg hcs.1, ih hcs.2]
    rfl

theorem store_append_zero {done rest : Bytes} {y x : UInt8} :
    store (done ++ y :: rest) done.length x = some (done ++ x :: rest) :=
  store_append (k := 0) (Nat.succ_pos _)

theorem encodeGroups_cons {a b c : UInt8} {l done rest : Bytes} {x0 x1 x2 x3 : UInt8} :
    encodeGroups flags (a :: b :: c :: l) done.length (done ++ x0 :: x1 :: x2 :: x3 :: rest) =
      encodeGroups flags l (done ++ (quad (triple a b c)).map (char flags)).length
        (done ++ (quad (triple a b c)).map (char flags) ++ rest) := by
  have hv : word a <<< 16 ||| word b <<< 8 ||| word c <<< 0 = triple a b c := by
    rw [BitVec.shiftLeft_zero, triple]
  rw [encodeGroups, hv]
  simp only [convert_eq, Option.bind_eq_bind]
  rw [store_append_zero, Option.bind_some, store_append (k := 1) (by simp), Option.bind_some,
    store_append (k := 2) (by simp), Option.bind_some, store_append (k := 3) (by simp),
    Option.bind_some, List.length_append, List.length_map, List.append_assoc]
  rfl

/-- What pads a partial group: the first characters of it are followed by a terminator. -/
theorem strlen_pad {cs tail : Bytes} (hcs : ∀ x ∈ cs, x ≠ 0) (n : ℕ) :
    strlen (cs ++ List.replicate n (if flags &&& noPad ≠ 0 then 0 else '='.toUInt8) ++ 0 :: tail) =
      some (cs ++ (if flags &&& noPad ≠ 0 then [] else List.replicate n '='.toUInt8)).length := by
  split_ifs with h
  · rw [List.append_nil]
    cases n with
    | zero => rw [List.replicate_zero, List.append_nil, strlen_append hcs]
    | succ n => rw [List.replicate_succ, List.append_assoc, List.cons_append, strlen_append hcs]
  · refine strlen_append fun x hx => ?_
    rcases List.mem_append.mp hx with hx | hx
    · exact hcs x hx
    · rw [List.eq_of_mem_replicate hx]
      decide

/-- What the encoder puts in place of a missing character. -/
def pad (flags : BitVec 32) : UInt8 := if flags &&& noPad ≠ 0 then 0 else '='.toUInt8

theorem chars_partial (flags : BitVec 32) (l : Bytes) {cs : Bytes} {n : ℕ}
    (hcs : (digits l).map (char flags) = cs)
    (hn : (3 - l.length % 3) % 3 = n) (hlen : cs.length + n + 1 = encspace l.length)
    (tail : Bytes) :
    strlen (cs ++ List.replicate n (pad flags) ++ 0 :: tail) = some (chars flags l).length ∧
    cs ++ List.replicate n (pad flags) ++ [0] = written flags l := by
  have hne : ∀ x ∈ cs, x ≠ 0 := by
    intro x hx
    rw [← hcs] at hx
    obtain ⟨y, -, rfl⟩ := List.mem_map.mp hx
    exact char_ne_zero flags y
  unfold written chars pads pad
  rw [hcs, hn, strlen_pad hne, ← hlen]
  refine ⟨rfl, ?_⟩
  split_ifs with h
  · rw [List.append_nil, List.append_assoc, (by omega : cs.length + n + 1 - cs.length = n + 1),
      List.replicate_succ']
  · rw [List.length_append, List.length_replicate, Nat.add_sub_cancel_left, List.replicate_one]

/-- **A partial group**: the terminator and what the encoder puts in place of the missing characters
are written first, and the string ends where the characters of the data do. -/
theorem store_partial {l cs done rest : Bytes} {n : ℕ} {x0 x1 x2 x3 x4 y0 y1 y2 y3 : UInt8}
    (hcs : (digits l).map (char flags) = cs) (hn : (3 - l.length % 3) % 3 = n)
    (hlen : cs.length + n + 1 = encspace l.length)
    (hy : cs ++ List.replicate n (pad flags) = [y0, y1, y2, y3]) :
    (do
      let out ← store (done ++ x0 :: x1 :: x2 :: x3 :: x4 :: rest) (done.length + 4) 0
      let out ← store out (done.length + 3) y3
      let out ← store out (done.length + 2) y2
      let out ← store out (done.length + 1) y1
      let out ← store out done.length y0
      let len ← strlen (out.drop done.length)
      some (int (done.length + len), out)) =
      some (int (done ++ chars flags l).length, done ++ (written flags l ++ rest)) := by
  obtain ⟨hstr, hwritten⟩ := chars_partial flags l hcs hn hlen rest
  rw [hy] at hstr hwritten
  simp only [Option.bind_eq_bind]
  rw [store_append (k := 4) (by simp), Option.bind_some, store_append (k := 3) (by simp),
    Option.bind_some, store_append (k := 2) (by simp), Option.bind_some,
    store_append (k := 1) (by simp), Option.bind_some]
  simp only [List.set_cons_succ, List.set_cons_zero]
  rw [store_append_zero, Option.bind_some, List.drop_left, List.length_append, ← hwritten]
  exact congrArg (fun o : Option ℕ => o.bind _) hstr

theorem encodeRest_two {a b : UInt8} {done rest : Bytes} {x0 x1 x2 x3 x4 : UInt8} :
    encodeRest flags [a, b] done.length (done ++ x0 :: x1 :: x2 :: x3 :: x4 :: rest) =
      some (int (done ++ chars flags [a, b]).length, done ++ (written flags [a, b] ++ rest)) := by
  have hv : word a <<< 16 ||| word b <<< 8 = triple a b 0 := BitVec.or_zero.symm
  unfold encodeRest
  simp only [hv, convert_eq, Option.bind_eq_bind, Option.bind_map, Function.comp_def]
  exact store_partial (n := 1) rfl rfl (by decide : 3 + 1 + 1 = encspace 2) rfl

theorem encodeRest_one {a : UInt8} {done rest : Bytes} {x0 x1 x2 x3 x4 : UInt8} :
    encodeRest flags [a] done.length (done ++ x0 :: x1 :: x2 :: x3 :: x4 :: rest) =
      some (int (done ++ chars flags [a]).length, done ++ (written flags [a] ++ rest)) := by
  have hv : word a <<< 16 = triple a 0 0 := by
    refine (BitVec.or_zero.symm).trans (congrArg (· ||| 0#32) (BitVec.or_zero.symm))
  unfold encodeRest
  simp only [hv, convert_eq, Option.bind_eq_bind, Option.bind_map, Function.comp_def]
  exact store_partial (n := 2) rfl rfl (by decide : 2 + 2 + 1 = encspace 1) rfl

theorem encodeRest_nil {done rest : Bytes} {x0 : UInt8} :
    encodeRest flags [] done.length (done ++ x0 :: rest) =
      some (int (done ++ chars flags []).length, done ++ (written flags [] ++ rest)) := by
  obtain ⟨hlen, hwritten⟩ := chars_partial flags [] (n := 0) rfl rfl
    (by decide : 0 + 0 + 1 = encspace 0) rest
  have hchars : (chars flags []).length = 0 := Option.some.inj hlen.symm
  rw [encodeRest, store_append_zero, Option.bind_eq_bind, Option.bind_some, List.length_append,
    hchars, ← hwritten]
  rfl

theorem chars_cons (flags : BitVec 32) (a b c : UInt8) (l : Bytes) :
    chars flags (a :: b :: c :: l) = (quad (triple a b c)).map (char flags) ++ chars flags l := by
  have hmod : (l.length + 1 + 1 + 1) % 3 = l.length % 3 := by omega
  unfold chars pads
  rw [digits, List.map_append, List.append_assoc, List.length_cons, List.length_cons,
    List.length_cons, hmod]

theorem written_cons (flags : BitVec 32) (a b c : UInt8) (l : Bytes) :
    written flags (a :: b :: c :: l) =
      (quad (triple a b c)).map (char flags) ++ written flags l := by
  have hspace : encspace (l.length + 1 + 1 + 1) = encspace l.length + 4 := by
    unfold encspace
    omega
  have hlen : ((quad (triple a b c)).map (char flags)).length = 4 := List.length_map _
  unfold written
  rw [chars_cons, List.append_assoc, List.length_append, hlen, List.length_cons, List.length_cons,
    List.length_cons, hspace, Nat.add_comm 4, Nat.add_sub_add_right]

theorem length_chars (flags : BitVec 32) (l : Bytes) :
    (chars flags l).length =
      if flags &&& noPad ≠ 0 then (4 * l.length + 2) / 3 else (l.length + 2) / 3 * 4 := by
  rw [chars, pads, List.length_append, List.length_map, length_digits]
  split_ifs
  · rfl
  · rw [List.length_replicate]
    omega

theorem length_chars_lt (flags : BitVec 32) (l : Bytes) :
    (chars flags l).length < encspace l.length := by
  rw [length_chars, encspace]
  split_ifs <;> omega

theorem length_written (flags : BitVec 32) (l : Bytes) :
    (written flags l).length = encspace l.length := by
  have := length_chars_lt flags l
  rw [written, List.length_append, List.length_replicate]
  omega

theorem exists_four {l : Bytes} (h : 4 ≤ l.length) :
    ∃ x0 x1 x2 x3 l', l = x0 :: x1 :: x2 :: x3 :: l' := by
  rcases l with _ | ⟨x0, _ | ⟨x1, _ | ⟨x2, _ | ⟨x3, l⟩⟩⟩⟩
  · cases h
  · simp at h
  · simp at h
  · simp at h
  · exact ⟨x0, x1, x2, x3, l, rfl⟩

theorem encode_append : ∀ (l done rest : Bytes), encspace l.length ≤ rest.length →
    ((encodeGroups flags l done.length (done ++ rest)).bind fun (b, s, out) =>
      encodeRest flags b s out) =
      some (int (done ++ chars flags l).length,
        done ++ (written flags l ++ rest.drop (encspace l.length)))
  | a :: b :: c :: l, done, rest, hrest => by
    have hspace : encspace (a :: b :: c :: l).length = encspace l.length + 4 := by
      simp only [List.length_cons, encspace]
      omega
    rw [hspace] at hrest ⊢
    obtain ⟨x0, x1, x2, x3, rest, rfl⟩ := exists_four (by omega : 4 ≤ rest.length)
    simp only [List.length_cons] at hrest
    rw [encodeGroups_cons, encode_append l _ rest (by omega), chars_cons, written_cons,
      ← List.append_assoc done, List.append_assoc done, List.append_assoc done]
    simp only [List.append_assoc, List.drop_succ_cons]
  | [a, b], done, rest, hrest => by
    have hspace : encspace [a, b].length = 5 := (by decide : encspace 2 = 5)
    rw [hspace] at hrest ⊢
    obtain ⟨x0, x1, x2, x3, rest, rfl⟩ := exists_four (by omega : 4 ≤ rest.length)
    obtain ⟨x4, rest, rfl⟩ := List.exists_cons_of_length_pos (l := rest)
      (by simp only [List.length_cons] at hrest; omega)
    exact encodeRest_two
  | [a], done, rest, hrest => by
    have hspace : encspace [a].length = 5 := (by decide : encspace 1 = 5)
    rw [hspace] at hrest ⊢
    obtain ⟨x0, x1, x2, x3, rest, rfl⟩ := exists_four (by omega : 4 ≤ rest.length)
    obtain ⟨x4, rest, rfl⟩ := List.exists_cons_of_length_pos (l := rest)
      (by simp only [List.length_cons] at hrest; omega)
    exact encodeRest_one
  | [], done, rest, hrest => by
    have hspace : encspace ([] : Bytes).length = 1 := (by decide : encspace 0 = 1)
    rw [hspace] at hrest ⊢
    obtain ⟨x0, rest, rfl⟩ := List.exists_cons_of_length_pos (l := rest) (by omega)
    exact encodeRest_nil

/-- **The encoder** in full. -/
theorem encode_eq (flags : BitVec 32) (l out : Bytes) (hout : encspace l.length ≤ out.length) :
    encode l out flags = some (int (chars flags l).length,
      written flags l ++ out.drop (encspace l.length)) :=
  encode_append l [] out hout

/-! ## The round trip -/

theorem legalPrefix_chars (flags : BitVec 32) (l : Bytes) :
    legalPrefix (chars flags l) = (digits l).map (char flags) := by
  have hpads : (pads flags l.length).takeWhile (fun x => Legal x) = [] := by
    unfold pads
    split_ifs
    · rfl
    · rw [List.takeWhile_replicate, if_neg (by decide)]
  have hcs : ∀ x ∈ (digits l).map (char flags), decide (Legal x) = true := by
    intro x hx
    obtain ⟨y, -, rfl⟩ := List.mem_map.mp hx
    exact decide_eq_true (digit_char flags y).1
  rw [legalPrefix, chars, List.takeWhile_append_of_pos hcs, hpads, List.append_nil]

theorem toBytes_chars (flags : BitVec 32) (l : Bytes) :
    toBytes ((digits l).map (char flags)) = l := by
  have hdigits : ((digits l).map (char flags)).map digit = digits l := by
    rw [List.map_map]
    refine (List.map_congr_left fun x _ => ?_).trans (List.map_id _)
    exact (digit_char flags x).2
  have hbytes : decoded (digits l) = l.map UInt8.toBitVec :=
    (packs_decoded (digits l)).unique (by decide) (packs_digits l)
  rw [toBytes, hdigits, hbytes, List.map_map]
  exact List.map_id _

theorem zero_notMem_chars (flags : BitVec 32) (l : Bytes) : 0 ∉ chars flags l := by
  intro h
  rcases List.mem_append.mp h with h | h
  · obtain ⟨y, -, hy⟩ := List.mem_map.mp h
    exact char_ne_zero flags y hy
  · unfold pads at h
    split_ifs at h
    · cases h
    · exact absurd (List.eq_of_mem_replicate h) (by decide)

theorem le_decspace (str : Bytes) : 6 * (legalPrefix str).length / 8 ≤ decspace str.length := by
  have hle : (legalPrefix str).length ≤ str.length := (List.takeWhile_prefix _).length_le
  unfold decspace
  omega

theorem int_eq_iff (n : ℕ) : int n = n ↔ n < 2 ^ 31 := by
  constructor
  · intro h
    have hlt : int n < 2 ^ 31 := Word.wrap_lt (by decide) n
    omega
  · intro h
    exact Word.wrap_eq_self (by decide) (by omega) (by omega)

theorem int_ne_neg_one {n : ℕ} (h : n ≤ 2 ^ 31) : int n ≠ -1 := by
  rcases h.lt_or_eq with hlt | rfl
  · rw [(int_eq_iff n).mpr hlt]
    omega
  · decide +kernel

theorem length_chars_lt_iff (flags : BitVec 32) (l : Bytes) :
    (chars flags l).length < 2 ^ 31 ↔
      l.length + (if flags &&& noPad ≠ 0 then 0 else 2) < 3 * 2 ^ 29 := by
  rw [length_chars]
  split_ifs <;> omega

/-- What is promised for the string `text` of `buf`, if the encoder returns `ret`. -/
structure RoundTrip (buf text : Bytes) (ret : ℤ) : Prop where
  length : ret = text.length
  decode : ∀ room : Bytes, buf.length ≤ room.length →
    ∃ r, decode (text ++ [0]) room room.length = some r ∧ r.ret ≠ -1 ∧ r.size = buf.length ∧
      r.out = buf ++ room.drop buf.length

theorem decode_chars (flags : BitVec 32) {buf room : Bytes} (h : buf.length ≤ room.length) :
    decode (chars flags buf ++ [0]) room room.length =
      some ⟨int ((digits buf).length + 1), buf.length, buf ++ room.drop buf.length⟩ := by
  rw [decode_eq _ _ le_rfl, legalPrefix_chars, toBytes_chars, if_neg h.not_gt, List.length_map]

end Sst.Base64
