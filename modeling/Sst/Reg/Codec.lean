import Mathlib.Algebra.GroupWithZero.Nat
import Sst.Xdr.Stream

/-!
# The encoding of registration metadata

What is encoded is decoded again, in whatever order the attributes are enumerated. What cannot be
decoded completely leaves the attributes that came before the error.

* `Xdr.readWord_writeWord`, `Xdr.readBytes_writeBytes`: reading the items that were written.
* `RegInfo.readAttrs_encode`: reading the attributes that were written.
* `RegInfo.Unreadable`, `RegInfo.Unstarted`: the announced attributes, or the first of them, cannot
  be read.
* **`reginfo_codec`**: the round trip, and when a failed decoding yields no attributes.
-/

namespace Sst.Reg

namespace Xdr

theorem readWord_writeWord (w : BitVec 32) (rest : Bytes) :
    readWord (writeWord w ++ rest) = some (w, rest) :=
  congrArg (fun v => some (v, rest)) (Sst.Xdr.XdrStream.toWord_writeWord w)

theorem readInt_ofNat {n : ℕ} (h : n < 2 ^ 31) (rest : Bytes) :
    readInt (writeWord (.ofNat 32 n) ++ rest) = some ((n : ℤ), rest) := by
  have hn : (BitVec.ofNat 32 n).toNat = n := by
    rw [BitVec.toNat_ofNat]
    exact Nat.mod_eq_of_lt (by omega)
  have hint : (BitVec.ofNat 32 n).toInt = n := by
    rw [BitVec.toInt_eq_toNat_of_lt (by omega), hn]
  rw [readInt, readWord_writeWord, Option.map_some]
  exact congrArg (fun i => some (i, rest)) hint

theorem readBytes_writeBytes {a : Bytes} (h : a.length < 2 ^ 31) (rest : Bytes) :
    readBytes (writeBytes a ++ rest) = some (a, rest) := by
  rw [writeBytes, List.append_assoc, List.append_assoc, readBytes, readInt_ofNat h,
    Option.bind_some]
  simp only [Int.toNat_natCast]
  generalize hpad : List.replicate ((a.length + 3) / 4 * 4 - a.length) (0 : UInt8) = pad
  have hlen : (a ++ pad).length = (a.length + 3) / 4 * 4 := by
    rw [← hpad, List.length_append, List.length_replicate]
    omega
  rw [if_neg (by omega), ← hlen, ← List.append_assoc, if_neg, List.drop_left, List.append_assoc,
    List.take_left]
  exact not_lt.mpr (List.sublist_append_left _ _).length_le

end Xdr

namespace RegInfo

/-! ## Round trip -/

/-- The attributes of a list are read one after the other. -/
theorem readAttrs_encode {l : List (Sigma fun _ : BitVec 32 => Bytes)}
    (h : ∀ e ∈ l, e.2.length < 2 ^ 31) (rest : Bytes) (at' : RegInfo) :
    readAttrs l.length ((l.flatMap fun ⟨tag, value⟩ =>
        Xdr.writeWord tag ++ Xdr.writeBytes value) ++ rest) at' =
      l.foldl (fun at' e => at'.insert e.1 e.2) at' := by
  induction l generalizing at' with
  | nil => rfl
  | cons e l ih =>
    obtain ⟨tag, value⟩ := e
    have hvalue : value.length < 2 ^ 31 := h _ List.mem_cons_self
    rw [List.flatMap_cons, List.length_cons, readAttrs, List.append_assoc, List.append_assoc,
      Xdr.readWord_writeWord]
    dsimp only
    rw [Xdr.readBytes_writeBytes hvalue]
    exact ih (fun e he => h e (List.mem_cons_of_mem _ he)) _

/-- Inserting entries with distinct tags. -/
theorem lookup_foldl_insert {l : List (Sigma fun _ : BitVec 32 => Bytes)} (h : l.NodupKeys)
    (at' : RegInfo) (tag : BitVec 32) :
    (l.foldl (fun at' e => at'.insert e.1 e.2) at').lookup tag =
      (l.dlookup tag).or (at'.lookup tag) := by
  induction l generalizing at' with
  | nil => rfl
  | cons e l ih =>
    obtain ⟨k, value⟩ := e
    have hk := (List.nodupKeys_cons.mp h).1
    rw [List.foldl_cons, ih (List.nodupKeys_cons.mp h).2]
    rcases eq_or_ne tag k with rfl | hne
    · rw [List.dlookup_eq_none.mpr hk, List.dlookup_cons_eq, AList.lookup_insert]
      rfl
    · rw [List.dlookup_cons_ne _ _ hne, AList.lookup_insert_ne hne]

theorem length_encode (info : RegInfo) : info.encode.length =
    4 + (info.entries.map fun e => 8 + (e.2.length + 3) / 4 * 4).sum := by
  rw [encode, List.length_append, List.length_flatMap]
  refine congrArg (4 + List.sum ·) (List.map_congr_left fun e _ => ?_)
  change (Xdr.writeWord e.1 ++ Xdr.writeBytes e.2).length = _
  rw [List.length_append, Sst.Xdr.XdrStream.length_writeWord,
    Sst.Xdr.XdrStream.length_writeBytes]
  omega

theorem le_sum_sizes (l : List (Sigma fun _ : BitVec 32 => Bytes)) :
    l.length ≤ (l.map fun e => 8 + (e.2.length + 3) / 4 * 4).sum ∧
      ∀ e ∈ l, e.2.length ≤ (l.map fun e => 8 + (e.2.length + 3) / 4 * 4).sum := by
  induction l with
  | nil => exact ⟨le_rfl, fun _ he => absurd he List.not_mem_nil⟩
  | cons e l ih =>
    rw [List.map_cons, List.sum_cons, List.length_cons]
    refine ⟨by have := ih.1; omega, fun e' he => ?_⟩
    rcases List.mem_cons.mp he with rfl | he
    · omega
    · have := ih.2 e' he
      omega

/-- An encoding that fits into an array announces no more attributes than a word can count, each of
a length that a word can hold. -/
theorem sizes_of_encode {info : RegInfo} (h : info.encode.length < 2 ^ 31) :
    info.entries.length < 2 ^ 31 ∧ ∀ e ∈ info.entries, e.2.length < 2 ^ 31 := by
  rw [length_encode] at h
  obtain ⟨h1, h2⟩ := le_sum_sizes info.entries
  refine ⟨by omega, fun e he => ?_⟩
  have := h2 e he
  omega

/-- **What is encoded is decoded again.** -/
theorem decode_encode {info : RegInfo} (h : info.encode.length < 2 ^ 31) (tag : BitVec 32) :
    (decode info.encode).lookup tag = info.lookup tag := by
  obtain ⟨hcount, hvalues⟩ := sizes_of_encode h
  have hread := readAttrs_encode hvalues [] ∅
  rw [List.append_nil] at hread
  rw [decode, encode, Xdr.readInt_ofNat hcount]
  dsimp only
  rw [if_neg (by omega), Int.toNat_natCast, hread, lookup_foldl_insert info.nodupKeys,
    AList.lookup_empty, Option.or_none]
  rfl

/-! ## Errors -/

/-- The first of the attributes. -/
def readAttr (l : Bytes) : Option (Bytes × Bytes) :=
  (Xdr.readWord l).bind fun (_, l) => Xdr.readBytes l

/-- So many attributes can be read. -/
def Readable : ℕ → Bytes → Prop
  | 0, _ => True
  | n + 1, l => ∃ attr rest, readAttr l = some (attr, rest) ∧ Readable n rest

/-- The announced number of attributes cannot be read. -/
def Unreadable (data : Bytes) : Prop :=
  ∀ nattrs rest, Xdr.readInt data = some (nattrs, rest) → 0 ≤ nattrs → ¬Readable nattrs.toNat rest

/-- Not even the first attribute can be read. -/
def Unstarted (data : Bytes) : Prop :=
  ∀ nattrs rest, Xdr.readInt data = some (nattrs, rest) → 0 ≤ nattrs → readAttr rest = none

theorem readAttrs_of_readAttr {l rest : Bytes} {attr : Bytes} (h : readAttr l = some (attr, rest))
    (n : ℕ) (at' : RegInfo) : ∃ tag, readAttrs (n + 1) l at' =
      readAttrs n rest (at'.insert tag attr) := by
  obtain ⟨⟨tag, l'⟩, hword, hbytes⟩ := Option.bind_eq_some_iff.mp h
  refine ⟨tag, ?_⟩
  rw [readAttrs, hword]
  dsimp only at hbytes ⊢
  rw [hbytes]

theorem readAttrs_of_none {l : Bytes} (h : readAttr l = none) (n : ℕ) (at' : RegInfo) :
    readAttrs n l at' = at' := by
  cases n with
  | zero => rfl
  | succ n =>
    rw [readAttrs]
    cases hword : Xdr.readWord l with
    | none => rfl
    | some r =>
      rw [readAttr, hword, Option.bind_some] at h
      dsimp only at h ⊢
      rw [h]

theorem readAttrs_ne_empty {n : ℕ} {l : Bytes} {at' : RegInfo} (h : at' ≠ ∅) :
    readAttrs n l at' ≠ ∅ := by
  induction n generalizing l at' with
  | zero => exact h
  | succ n ih =>
    cases hattr : readAttr l with
    | none => rwa [readAttrs_of_none hattr]
    | some r =>
      obtain ⟨tag, hread⟩ := readAttrs_of_readAttr hattr n at'
      rw [hread]
      refine ih fun hempty => ?_
      have := congrArg (AList.lookup tag) hempty
      rw [AList.lookup_insert, AList.lookup_empty] at this
      cases this

/-- **A failed decoding** yields no attributes exactly if not even the first one could be read. -/
theorem decode_eq_empty_iff {data : Bytes} (h : Unreadable data) :
    decode data = ∅ ↔ Unstarted data := by
  unfold decode
  unfold Unreadable at h
  unfold Unstarted
  cases hint : Xdr.readInt data with
  | none => exact iff_of_true rfl fun _ _ hn => nomatch hn
  | some r =>
    obtain ⟨nattrs, rest⟩ := r
    dsimp only
    by_cases hneg : nattrs < 0
    · rw [if_pos hneg]
      refine iff_of_true rfl fun n l hn hpos => ?_
      cases hn
      exact absurd hpos hneg.not_ge
    · rw [if_neg hneg]
      have hpos : 0 ≤ nattrs := not_lt.mp hneg
      have hread := h nattrs rest hint hpos
      obtain ⟨n, hn⟩ : ∃ n, nattrs.toNat = n + 1 := by
        refine Nat.exists_eq_succ_of_ne_zero fun h0 => hread ?_
        rw [h0]
        trivial
      rw [hn]
      cases hattr : readAttr rest with
      | none =>
        refine iff_of_true (readAttrs_of_none hattr _ _) fun _ _ hr _ => ?_
        cases hr
        exact hattr
      | some r =>
        obtain ⟨tag, hstep⟩ := readAttrs_of_readAttr hattr n ∅
        rw [hstep]
        refine iff_of_false (readAttrs_ne_empty fun hempty => ?_) fun hunst => ?_
        · have := congrArg (AList.lookup tag) hempty
          rw [AList.lookup_insert, AList.lookup_empty] at this
          cases this
        · rw [hunst nattrs rest rfl hpos] at hattr
          cases hattr

end RegInfo

/-- **The codec.** The encoding of a map, enumerated in any order, is decoded to the same map. If
the announced attributes cannot be read, no attributes are decoded exactly if already the count or
the first attribute cannot. -/
theorem reginfo_codec (info order : RegInfo) (data : Bytes) :
    (order.entries.Perm info.entries → order.encode.length < 2 ^ 31 →
      ∀ tag, (RegInfo.decode order.encode).lookup tag = info.lookup tag) ∧
    (RegInfo.Unreadable data → (RegInfo.decode data = ∅ ↔ RegInfo.Unstarted data)) := by
  refine ⟨fun hperm hlen tag => ?_, RegInfo.decode_eq_empty_iff⟩
  rw [RegInfo.decode_encode hlen]
  exact AList.perm_lookup hperm

/-- The name "ab". -/
def hostNameAb : RegInfo := .singleton 0x10001#32 [97, 98]

theorem reginfo_codec_name :
    (RegInfo.decode hostNameAb.encode).lookup 0x10001#32 = some [97, 98] ∧
    (RegInfo.decode [0, 0, 0, 1] = ∅ ↔ RegInfo.Unstarted [0, 0, 0, 1]) := by
  obtain ⟨h1, h2⟩ := reginfo_codec hostNameAb hostNameAb [0, 0, 0, 1]
  refine ⟨h1 (.refl _) (by decide) 0x10001#32, h2 ?_⟩
  intro nattrs rest hint _ hread
  have hint' : Xdr.readInt [0, 0, 0, 1] = some (1, []) := by decide
  cases hint'.symm.trans hint
  obtain ⟨attr, rest₁, hattr, -⟩ := hread
  cases hattr

/-- Two attributes are announced, and the second is missing. -/
def truncatedInfo : Bytes := [0, 0, 0, 2, 0, 1, 0, 1, 0, 0, 0, 2, 97, 98, 0, 0]

/-- Decoding leaves the first attribute. -/
theorem reginfo_codec_truncated :
    RegInfo.Unreadable truncatedInfo ∧ RegInfo.decode truncatedInfo ≠ ∅ := by
  have hint : Xdr.readInt truncatedInfo = some (2, truncatedInfo.drop 4) := by decide
  have hfirst : RegInfo.readAttr (truncatedInfo.drop 4) = some ([97, 98], []) := by decide
  constructor
  · intro nattrs rest hint' _ hread
    cases hint.symm.trans hint'
    obtain ⟨attr, rest₁, hattr, attr', rest₂, hattr', -⟩ := hread
    cases hfirst.symm.trans hattr
    cases hattr'
  · intro hempty
    have hlookup : (RegInfo.decode truncatedInfo).lookup 0x10001#32 = some [97, 98] := by decide
    rw [hempty] at hlookup
    cases hlookup

end Sst.Reg
