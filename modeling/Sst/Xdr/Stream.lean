import Mathlib.Algebra.Order.Group.Nat
import Sst.RegCli.State

/-!
# XDR streams

Items are read from a buffer through a stream, whose status records that something went wrong.

* `XdrStream`: the buffer, the position and the status.
* `readRawData`, `readPadData`, `readInt`, `readBytes`: the items.
* **`readBytes_eq`**, **`readBytes_ok`**: reading what was written, and what was read without an
  error.
* `Later s t`: what reading does to a stream; the status never returns to `Ok`.
* `result`: what was read without an error; `result_readInt`, **`result_readBytes`**: it is what
  the readers of `Reg.Xdr` read, which the callers use that stop at the first error.

Writing to a buffer does not fail: `Reg.Xdr.writeWord` and `Reg.Xdr.writeBytes` are the bytes that
the operators `<<` write.
-/

namespace Sst.Xdr

open Reg (Bytes)
open Reg.Xdr (word writeWord writeBytes)

/-- `XdrStream::Status`. -/
inductive Status
  | ok
  | readPastEnd
  | readCorruptData
  | ioError
  deriving DecidableEq

/-- A stream that reads from a buffer. `mem` is what fresh memory holds, in the order in which it is
used. Besides the fields of the class: every error so far, the latest first. -/
structure XdrStream where
  buf : Bytes
  pos : ℕ
  st : Status
  mem : ℕ → UInt8
  errors : List Status

namespace XdrStream

/-- A stream at the start of a buffer. -/
def new (buf : Bytes) (mem : ℕ → UInt8) : XdrStream := ⟨buf, 0, .ok, mem, []⟩

def setStatus (s : XdrStream) (st : Status) : XdrStream :=
  { s with st := st, errors := if st = .ok then s.errors else st :: s.errors }

/-- What was not read yet. -/
def unread (s : XdrStream) : Bytes := s.buf.drop s.pos

/-- The stream further on. -/
def advance (s : XdrStream) (n : ℕ) : XdrStream := { s with pos := s.pos + n }

/-- `XdrStream::readRawData` into fresh memory, which keeps what it held where the data ends. -/
def readRawData (s : XdrStream) (len : ℕ) : Bytes × XdrStream :=
  let got := s.unread.take len
  let missing := len - got.length
  let t : XdrStream := { s.advance got.length with mem := fun i => s.mem (missing + i) }
  (got ++ (List.range missing).map s.mem,
    if got.length < len then t.setStatus .readPastEnd else t)

/-- `XdrStream::skipRawData`. A read-only buffer does not let the position go past its end. -/
def skipRawData (s : XdrStream) (len : ℕ) : XdrStream :=
  if s.pos + len ≤ s.buf.length then s.advance len else s.setStatus .ioError

/-- `XdrStream::readPadData`. -/
def readPadData (s : XdrStream) (len : ℕ) : Bytes × XdrStream :=
  let (a, s) := s.readRawData len
  (a, if len % 4 ≠ 0 then s.skipRawData (4 - len % 4) else s)

/-- The word in four bytes, in network byte order. -/
def toWord : Bytes → BitVec 32
  | [a, b, c, d] => word a b c d
  | _ => 0#32

/-- `operator>>(qint32 &)`. -/
def readInt (s : XdrStream) : BitVec 32 × XdrStream :=
  let (v, s) := s.readRawData 4
  (toWord v, s)

/-- `operator>>(QByteArray &)` into an empty array. -/
def readBytes (s : XdrStream) : Bytes × XdrStream :=
  let (len, s) := s.readInt
  if s.st ≠ .ok then ([], s)
  else if len.toInt < 0 then ([], s.setStatus .readCorruptData)
  else s.readPadData len.toInt.toNat

/-! ## Reading what was written -/

theorem toWord_writeWord (w : BitVec 32) : toWord (writeWord w) = w := by
  have h1 : w.extractLsb' 24 8 ++ w.extractLsb' 16 8 = w.extractLsb' 16 16 :=
    BitVec.extractLsb'_append_extractLsb'_eq_extractLsb' rfl
  have h2 : w.extractLsb' 16 16 ++ w.extractLsb' 8 8 = w.extractLsb' 8 24 :=
    BitVec.extractLsb'_append_extractLsb'_eq_extractLsb' rfl
  have h3 : w.extractLsb' 8 24 ++ w.extractLsb' 0 8 = w.extractLsb' 0 32 :=
    BitVec.extractLsb'_append_extractLsb'_eq_extractLsb' rfl
  calc toWord (writeWord w)
      = w.extractLsb' 24 8 ++ w.extractLsb' 16 8 ++ w.extractLsb' 8 8 ++ w.extractLsb' 0 8 := rfl
    _ = w := by rw [h1, h2, h3, BitVec.extractLsb'_eq_self]

theorem writeWord_word (a b c d : UInt8) : writeWord (word a b c d) = [a, b, c, d] := by
  have h0 : (word a b c d).extractLsb' 0 8 = d.toBitVec := BitVec.extractLsb'_append_eq_right
  have h1 : (word a b c d).extractLsb' 8 8 = c.toBitVec := by
    rw [word, BitVec.extractLsb'_append_eq_of_le (Nat.le_refl 8)]
    exact BitVec.extractLsb'_append_eq_right
  have h2 : (word a b c d).extractLsb' 16 8 = b.toBitVec := by
    rw [word, BitVec.extractLsb'_append_eq_of_le (by decide),
      BitVec.extractLsb'_append_eq_of_le (by decide)]
    exact BitVec.extractLsb'_append_eq_right
  have h3 : (word a b c d).extractLsb' 24 8 = a.toBitVec := by
    rw [word, BitVec.extractLsb'_append_eq_of_le (by decide),
      BitVec.extractLsb'_append_eq_of_le (by decide)]
    exact BitVec.extractLsb'_append_eq_left
  rw [writeWord, h0, h1, h2, h3]

theorem writeWord_toWord {a : Bytes} (h : a.length = 4) : writeWord (toWord a) = a := by
  obtain ⟨b₁, b₂, b₃, b₄, rfl⟩ := List.length_eq_four.mp h
  exact writeWord_word b₁ b₂ b₃ b₄

@[simp] theorem length_writeWord (w : BitVec 32) : (writeWord w).length = 4 := rfl

theorem length_writeBytes (a : Bytes) : (writeBytes a).length = 4 + (a.length + 3) / 4 * 4 := by
  rw [writeBytes, List.length_append, List.length_append, length_writeWord, List.length_replicate]
  omega

theorem unread_advance (s : XdrStream) (n : ℕ) : (s.advance n).unread = s.unread.drop n := by
  rw [unread, unread, advance, List.drop_drop]

theorem unread_advance_append {s : XdrStream} {a rest : Bytes} (h : s.unread = a ++ rest) :
    (s.advance a.length).unread = rest := by
  rw [unread_advance, h, List.drop_left]

theorem advance_advance (s : XdrStream) (m n : ℕ) :
    (s.advance m).advance n = s.advance (m + n) := by
  simp only [advance, Nat.add_assoc]

theorem readRawData_eq {s : XdrStream} {a rest : Bytes} (h : s.unread = a ++ rest) :
    s.readRawData a.length = (a, s.advance a.length) := by
  have htake : s.unread.take a.length = a := by rw [h, List.take_left]
  simp only [readRawData, htake, Nat.sub_self, Nat.lt_irrefl, if_false, List.range_zero,
    List.map_nil, List.append_nil, Nat.zero_add]
  rfl

theorem readInt_eq {s : XdrStream} {w : BitVec 32} {rest : Bytes}
    (h : s.unread = writeWord w ++ rest) : s.readInt = (w, s.advance 4) := by
  have hread : s.readRawData 4 = (writeWord w, s.advance 4) := readRawData_eq h
  simp only [readInt, hread, toWord_writeWord]

theorem readPadData_eq {s : XdrStream} {a pad rest : Bytes} (h : s.unread = a ++ pad ++ rest)
    (hpad : a.length + pad.length = (a.length + 3) / 4 * 4) :
    s.readPadData a.length = (a, s.advance (a.length + pad.length)) := by
  rw [List.append_assoc] at h
  simp only [readPadData, readRawData_eq h]
  split_ifs with hmod
  · have hlen : pad.length = 4 - a.length % 4 := by omega
    have hin : (s.advance a.length).pos + pad.length ≤ (s.advance a.length).buf.length := by
      have := congrArg List.length (unread_advance_append h)
      rw [unread, List.length_drop, List.length_append] at this
      omega
    rw [← hlen, skipRawData, if_pos hin, advance_advance]
  · have hlen : pad.length = 0 := by omega
    rw [hlen, Nat.add_zero]

/-- **A string is read as it was written.** -/
theorem readBytes_eq {s : XdrStream} {a rest : Bytes} (hs : s.st = .ok) (ha : a.length < 2 ^ 31)
    (h : s.unread = writeBytes a ++ rest) :
    s.readBytes = (a, s.advance (writeBytes a).length) := by
  rw [writeBytes, List.append_assoc, List.append_assoc] at h
  have hint := readInt_eq h
  have hrest : (s.advance 4).unread =
      a ++ List.replicate ((a.length + 3) / 4 * 4 - a.length) 0 ++ rest := by
    rw [List.append_assoc]
    exact unread_advance_append h
  have hlen : (BitVec.ofNat 32 a.length).toInt = a.length := by
    have hn : (BitVec.ofNat 32 a.length).toNat = a.length := by
      rw [BitVec.toNat_ofNat]
      exact Nat.mod_eq_of_lt (by omega)
    rw [BitVec.toInt_eq_toNat_of_lt (by rw [hn]; omega), hn]
  have hpad := readPadData_eq hrest (by rw [List.length_replicate]; omega)
  simp only [readBytes, hint, hlen]
  have hst : ¬(s.advance 4).st ≠ .ok := not_not_intro hs
  have hneg : ¬(a.length : ℤ) < 0 := by omega
  rw [if_neg hst, if_neg hneg, Int.toNat_natCast, hpad, advance_advance, length_writeBytes,
    List.length_replicate]
  refine congrArg (Prod.mk a) (congrArg s.advance ?_)
  omega

/-! ## Reading anything -/

/-- What reading does to a stream. -/
structure Later (s t : XdrStream) : Prop where
  buf : t.buf = s.buf
  pos : s.pos ≤ t.pos
  inside : s.pos ≤ s.buf.length → t.pos ≤ t.buf.length
  sticky : s.st ≠ .ok → t.st ≠ .ok
  marked : (s.st = .ok ↔ s.errors = []) → (t.st = .ok ↔ t.errors = [])

namespace Later

theorem refl (s : XdrStream) : Later s s := ⟨rfl, Nat.le_refl _, id, id, id⟩

theorem trans {s t u : XdrStream} (h : Later s t) (h' : Later t u) : Later s u :=
  ⟨h'.buf.trans h.buf, h.pos.trans h'.pos, fun hs => h'.inside (h.inside hs),
    fun hs => h'.sticky (h.sticky hs), fun hs => h'.marked (h.marked hs)⟩

theorem setStatus (s : XdrStream) {st : Status} (h : st ≠ .ok) : Later s (s.setStatus st) := by
  refine ⟨rfl, Nat.le_refl _, id, fun _ => h, fun _ => ?_⟩
  simp only [XdrStream.setStatus, if_neg h]
  exact iff_of_false h (List.cons_ne_nil _ _)

theorem advance (s : XdrStream) {n : ℕ} (h : s.pos ≤ s.buf.length → s.pos + n ≤ s.buf.length) :
    Later s (s.advance n) := ⟨rfl, Nat.le_add_right _ _, h, id, id⟩

theorem readRawData (s : XdrStream) (len : ℕ) : Later s (s.readRawData len).2 := by
  have hgot : Later s (s.advance (s.unread.take len).length) := by
    refine advance s fun h => ?_
    rw [List.length_take, unread, List.length_drop]
    omega
  have hmem : Later s { s.advance (s.unread.take len).length with
      mem := fun i => s.mem (len - (s.unread.take len).length + i) } :=
    ⟨hgot.buf, hgot.pos, hgot.inside, hgot.sticky, hgot.marked⟩
  simp only [XdrStream.readRawData]
  split_ifs
  · exact hmem.trans (setStatus _ Status.noConfusion)
  · exact hmem

theorem skipRawData (s : XdrStream) (len : ℕ) : Later s (s.skipRawData len) := by
  rw [XdrStream.skipRawData]
  split_ifs with h
  · exact advance s fun _ => h
  · exact setStatus s Status.noConfusion

theorem readPadData (s : XdrStream) (len : ℕ) : Later s (s.readPadData len).2 := by
  simp only [XdrStream.readPadData]
  split_ifs
  · exact (readRawData s len).trans (skipRawData _ _)
  · exact readRawData s len

theorem readInt (s : XdrStream) : Later s s.readInt.2 := readRawData s 4

theorem readBytes (s : XdrStream) : Later s s.readBytes.2 := by
  simp only [XdrStream.readBytes]
  split_ifs
  · exact readInt s
  · exact (readInt s).trans (setStatus _ Status.noConfusion)
  · exact (readInt s).trans (readPadData _ _)

theorem ok {s t : XdrStream} (h : Later s t) (ht : t.st = .ok) : s.st = .ok :=
  Decidable.byContradiction fun hs => h.sticky hs ht

end Later

theorem readRawData_ok {s : XdrStream} {len : ℕ} (h : (s.readRawData len).2.st = .ok) :
    len ≤ s.unread.length ∧ s.readRawData len = (s.unread.take len, s.advance len) := by
  have hle : len ≤ s.unread.length := by
    simp only [readRawData] at h
    split_ifs at h with hlt
    · cases h
    · rw [List.length_take] at hlt
      omega
  have hlen : (s.unread.take len).length = len := by
    rw [List.length_take]
    exact Nat.min_eq_left hle
  have hread := readRawData_eq (List.take_append_drop len s.unread).symm
  rw [hlen] at hread
  exact ⟨hle, hread⟩

theorem readInt_ok {s : XdrStream} (h : s.readInt.2.st = .ok) :
    s.readInt.2 = s.advance 4 ∧ s.unread.take 4 = writeWord s.readInt.1 := by
  obtain ⟨h1, h2⟩ := readRawData_ok h
  have hread : s.readInt = (toWord (s.unread.take 4), s.advance 4) := by simp only [readInt, h2]
  rw [hread]
  refine ⟨rfl, (writeWord_toWord ?_).symm⟩
  rw [List.length_take]
  exact Nat.min_eq_left h1

theorem skipRawData_ok {s : XdrStream} {len : ℕ} (h : (s.skipRawData len).st = .ok) :
    s.skipRawData len = s.advance len := by
  rw [skipRawData] at h ⊢
  split_ifs at h ⊢
  · rfl
  · cases h

theorem readPadData_ok {s : XdrStream} {len : ℕ} (h : (s.readPadData len).2.st = .ok) :
    len ≤ s.unread.length ∧
      s.readPadData len = (s.unread.take len, s.advance ((len + 3) / 4 * 4)) := by
  simp only [readPadData] at h ⊢
  split_ifs at h ⊢ with hmod
  · obtain ⟨h1, h2⟩ := readRawData_ok ((Later.skipRawData _ _).ok h)
    rw [h2] at h ⊢
    refine ⟨h1, congrArg (Prod.mk _) ?_⟩
    rw [skipRawData_ok h, advance_advance]
    exact congrArg s.advance (by omega)
  · obtain ⟨h1, h2⟩ := readRawData_ok h
    rw [h2]
    exact ⟨h1, congrArg (Prod.mk _) (congrArg s.advance (by omega))⟩

/-- **A string read without an error** is there as it would be written, but for its padding. -/
theorem readBytes_ok {s : XdrStream} (h : s.readBytes.2.st = .ok) :
    s.unread.take (4 + s.readBytes.1.length) =
        (writeBytes s.readBytes.1).take (4 + s.readBytes.1.length) ∧
      s.readBytes.2 = s.advance (writeBytes s.readBytes.1).length := by
  simp only [readBytes] at h ⊢
  split_ifs at h ⊢ with hst hneg
  · exact absurd h hst
  · cases h
  · obtain ⟨h1, h2⟩ := readInt_ok (not_not.mp hst)
    obtain ⟨h3, h4⟩ := readPadData_ok h
    obtain ⟨n, hn⟩ : ∃ n, n = s.readInt.1.toInt.toNat := ⟨_, rfl⟩
    have hunread : s.readInt.2.unread = s.unread.drop 4 := by rw [h1, unread_advance]
    rw [← hn, hunread] at h3
    have hlen : ((s.unread.drop 4).take n).length = n := by
      rw [List.length_take]
      exact Nat.min_eq_left h3
    have hword : BitVec.ofNat 32 n = s.readInt.1 := by
      have hlt := s.readInt.1.isLt
      have hint := BitVec.toInt_eq_toNat_cond s.readInt.1
      refine BitVec.eq_of_toNat_eq ?_
      rw [BitVec.toNat_ofNat]
      split_ifs at hint <;> omega
    rw [← hn] at h4
    rw [← hn, h4, hunread, hlen]
    refine ⟨?_, ?_⟩
    · have hsplit : (writeWord s.readInt.1 ++ (s.unread.drop 4).take n).length = 4 + n := by
        rw [List.length_append, length_writeWord, hlen]
      rw [List.take_add, h2, writeBytes, hlen, hword, ← hsplit, List.take_left]
    · rw [h1, advance_advance, length_writeBytes, hlen]

/-! ## Readers that stop at an error -/

/-- What was read without an error, and what is left. -/
def result {α : Type*} (p : α × XdrStream) : Option (α × Bytes) :=
  if p.2.st = .ok then some (p.1, p.2.unread) else none

section

variable {s : XdrStream} {l rest : Bytes} {w : BitVec 32} {n : ℕ}

theorem readWord_eq (h : Reg.Xdr.readWord l = some (w, rest)) : l = writeWord w ++ rest := by
  match l, h with
  | a :: b :: c :: d :: l, h =>
    cases h
    rw [writeWord_word]
    rfl

theorem readInt_of_readWord (hs : s.unread = l) (h : Reg.Xdr.readWord l = some (w, rest)) :
    ∃ t, s.readInt = (w, t) ∧ t.unread = rest ∧ t.st = s.st := by
  have hl := hs.trans (readWord_eq h)
  exact ⟨_, readInt_eq hl, unread_advance_append hl, rfl⟩

theorem readRawData_of_readRaw {a : Bytes} (hs : s.unread = l)
    (h : Reg.Xdr.readRaw n l = some (a, rest)) :
    ∃ t, s.readRawData n = (a, t) ∧ t.unread = rest ∧ t.st = s.st := by
  unfold Reg.Xdr.readRaw at h
  split_ifs at h with hlen
  cases h
  have hn : (l.take n).length = n := by
    rw [List.length_take]
    omega
  have hl : s.unread = l.take n ++ l.drop n := hs.trans (List.take_append_drop n l).symm
  have hread := readRawData_eq hl
  have hunread := unread_advance_append hl
  rw [hn] at hread hunread
  exact ⟨_, hread, hunread, rfl⟩

/-- What is read after an error does not count. -/
theorem result_bind {α β : Type*} {p : α × XdrStream} {q : β × XdrStream}
    {g : α × Bytes → Option (β × Bytes)} (hl : Later p.2 q.2)
    (hg : p.2.st = .ok → result q = g (p.1, p.2.unread)) : result q = (result p).bind g := by
  by_cases hok : p.2.st = .ok
  · rw [hg hok, result, if_pos hok, Option.bind_some]
  · rw [result, result, if_neg fun h => hok (hl.ok h), if_neg hok, Option.bind_none]

theorem result_readInt (hs : s.st = .ok) : result s.readInt = Reg.Xdr.readWord s.unread := by
  cases h : Reg.Xdr.readWord s.unread with
  | some p =>
    obtain ⟨t, ht, hu, hst⟩ := readInt_of_readWord rfl h
    rw [ht, result, if_pos (hst.trans hs), hu]
  | none =>
    refine if_neg fun hok => ?_
    obtain ⟨hlen, -⟩ := readRawData_ok hok
    match s.unread, hlen, h with
    | _ :: _ :: _ :: _ :: _, _, h => cases h

theorem result_readRawData (hs : s.st = .ok) :
    result (s.readRawData n) = Reg.Xdr.readRaw n s.unread := by
  cases h : Reg.Xdr.readRaw n s.unread with
  | some p =>
    obtain ⟨t, ht, hu, hst⟩ := readRawData_of_readRaw rfl h
    rw [ht, result, if_pos (hst.trans hs), hu]
  | none =>
    refine if_neg fun hok => ?_
    rw [Reg.Xdr.readRaw, if_neg (Nat.not_lt.mpr (readRawData_ok hok).1)] at h
    cases h

theorem result_readPadData (hs : s.st = .ok) (hp : s.pos ≤ s.buf.length) :
    result (s.readPadData n) = if s.unread.length < (n + 3) / 4 * 4 then none
      else some (s.unread.take n, s.unread.drop ((n + 3) / 4 * 4)) := by
  split
  · rename_i hlt
    refine if_neg fun hok => ?_
    -- the position stays inside the buffer, so that the padding was there
    have hin := (Later.readPadData s n).inside hp
    rw [(readPadData_ok hok).2] at hin
    change s.pos + (n + 3) / 4 * 4 ≤ s.buf.length at hin
    rw [unread, List.length_drop] at hlt
    omega
  · rename_i hle
    obtain ⟨pad, hpad⟩ : ∃ pad, pad = (s.unread.drop n).take ((n + 3) / 4 * 4 - n) := ⟨_, rfl⟩
    have hn : (s.unread.take n).length = n := by
      rw [List.length_take]
      omega
    have hlen : pad.length = (n + 3) / 4 * 4 - n := by
      rw [hpad, List.length_take, List.length_drop]
      omega
    have hl : s.unread = s.unread.take n ++ pad ++ s.unread.drop ((n + 3) / 4 * 4) := by
      have hadd : n + ((n + 3) / 4 * 4 - n) = (n + 3) / 4 * 4 := by omega
      rw [hpad, ← List.take_add, hadd, List.take_append_drop]
    have hread := readPadData_eq hl (by rw [hn, hlen]; omega)
    rw [hn, hlen] at hread
    rw [hread]
    refine (if_pos hs).trans ?_
    rw [unread_advance]
    exact congrArg (fun k => some (s.unread.take n, s.unread.drop k)) (by omega)

/-- **A string is read** as from the bytes alone, as long as there is no error. -/
theorem result_readBytes (hs : s.st = .ok) (hp : s.pos ≤ s.buf.length) :
    result s.readBytes = Reg.Xdr.readBytes s.unread := by
  rw [Reg.Xdr.readBytes, Reg.Xdr.readInt, ← result_readInt hs, Option.bind_map]
  refine result_bind ?_ fun hok => ?_
  · simp only [readBytes]
    split_ifs
    · exact .refl _
    · exact .setStatus _ Status.noConfusion
    · exact .readPadData _ _
  · simp only [readBytes, Function.comp_apply]
    rw [if_neg (not_not_intro hok)]
    split_ifs
    · exact if_neg Status.noConfusion
    · rw [result_readPadData hok ((Later.readInt s).inside hp), if_pos (by assumption)]
    · rw [result_readPadData hok ((Later.readInt s).inside hp), if_neg (by assumption)]

end

end XdrStream

end Sst.Xdr
