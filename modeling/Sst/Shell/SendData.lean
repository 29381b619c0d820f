import Sst.Shell.Proto

/-!
# Sending data on shell streams

Character data is sent up to each marker, which is escaped, and then the rest. The position of the
next marker is looked up once, before the loop.

* `SendState`, `sendTurn`: the loop of `sendData` and one turn of it.
* `sendData`: the bytes written, if the loop ends within so many turns.
* `escape`: the bytes that should be written.
* **`send_data`**: data is sent exactly if it has no marker.
-/

namespace Sst.Shell

/-- `memchr` from the start of the buffer. -/
def memchr (buf : Bytes) (ch : UInt8) : Option ℕ := buf.findIdx? (· = ch)

/-- The position in the buffer, what is left of it, and the bytes written so far. -/
structure SendState where
  data : ℕ
  size : ℤ
  written : Bytes

/-- One turn of the loop of `sendData`, with the marker at `mark`. -/
def sendTurn (buf : Bytes) (mark : ℕ) (s : SendState) : SendState :=
  let amt := mark + 1 - s.data
  { data := s.data + amt
    size := s.size - amt
    written := s.written ++ (buf.drop s.data).take amt ++ [0x80] }

/-- The loop of `sendData`, for so many turns at most. -/
def sendLoop (buf : Bytes) : ℕ → Option ℕ → SendState → Option SendState
  | _, none, s => some s
  | 0, some _, _ => none
  | fuel + 1, some mark, s => sendLoop buf fuel (some mark) (sendTurn buf mark s)

/-- **`ShellStream::sendData`**: what it writes to the stream. -/
def sendData (fuel : ℕ) (buf : Bytes) : Option Bytes :=
  (sendLoop buf fuel (memchr buf controlMarker) ⟨0, buf.length, []⟩).map fun s =>
    s.written ++ (buf.drop s.data).take s.size.toNat

/-- The data with each marker escaped. -/
def escape (buf : Bytes) : Bytes :=
  buf.flatMap fun ch => if ch = controlMarker then [ch, 0x80] else [ch]

variable {buf : Bytes} {mark : ℕ}

theorem memchr_eq_none : memchr buf controlMarker = none ↔ controlMarker ∉ buf := by
  rw [memchr, List.findIdx?_eq_none_iff]
  constructor
  · intro h hmem
    exact of_decide_eq_false (h _ hmem) rfl
  · intro h ch hch
    refine decide_eq_false ?_
    rintro rfl
    exact h hch

theorem escape_of_not_mem (h : controlMarker ∉ buf) : escape buf = buf := by
  unfold escape
  induction buf with
  | nil => rfl
  | cons ch buf ih =>
    rw [List.mem_cons, not_or] at h
    rw [List.flatMap_cons, if_neg (Ne.symm h.1), ih h.2, List.singleton_append]

/-- The loop does not end once there is a marker. -/
theorem sendLoop_some (fuel : ℕ) (s : SendState) : sendLoop buf fuel (some mark) s = none := by
  induction fuel generalizing s with
  | zero => rfl
  | succ fuel ih => exact ih (sendTurn buf mark s)

/-- Behind the marker every turn writes one more byte and stays where it is. -/
theorem sendTurn_iterate (n : ℕ) (s : SendState) (hs : s.data = mark + 1) :
    (sendTurn buf mark)^[n] s = { s with written := s.written ++ List.replicate n 0x80 } := by
  induction n generalizing s with
  | zero => rw [Function.iterate_zero_apply, List.replicate_zero, List.append_nil]
  | succ n ih =>
    have hturn : sendTurn buf mark s = { s with written := s.written ++ [0x80] } := by
      rw [sendTurn, hs, Nat.sub_self, List.take_zero, List.append_nil, Nat.cast_zero, sub_zero,
        Nat.add_zero, ← hs]
    rw [Function.iterate_succ_apply, hturn,
      ih { s with written := s.written ++ [0x80] } hs, List.replicate_succ, List.append_assoc]
    rfl

/-- **Sending data.** The loop ends, having written the data with each marker escaped, exactly if
there is no marker. Otherwise it goes on to escape the first one for ever. -/
theorem send_data (buf : Bytes) :
    ((∃ fuel, sendData fuel buf = some (escape buf)) ↔ controlMarker ∉ buf) ∧
    ∀ mark, memchr buf controlMarker = some mark →
      (∀ fuel, sendData fuel buf = none) ∧
      ∀ n, ((sendTurn buf mark)^[n + 1] ⟨0, buf.length, []⟩).written =
        buf.take (mark + 1) ++ List.replicate (n + 1) 0x80 := by
  have hnone : ∀ mark, memchr buf controlMarker = some mark → ∀ fuel, sendData fuel buf = none := by
    intro mark hmark fuel
    rw [sendData, hmark, sendLoop_some]
    rfl
  refine ⟨⟨?_, fun h => ⟨0, ?_⟩⟩, fun mark hmark => ⟨hnone mark hmark, fun n => ?_⟩⟩
  · rintro ⟨fuel, hfuel⟩
    rw [← memchr_eq_none]
    by_contra hmark
    obtain ⟨mark, hmark⟩ := Option.ne_none_iff_exists'.mp hmark
    rw [hnone mark hmark] at hfuel
    cases hfuel
  · rw [sendData, memchr_eq_none.mpr h, escape_of_not_mem h]
    change some ([] ++ (buf.drop 0).take (buf.length : ℤ).toNat) = some buf
    rw [List.drop_zero, Int.toNat_natCast, List.take_length, List.nil_append]
  · rw [Function.iterate_succ_apply, sendTurn_iterate n _ (Nat.zero_add _), List.replicate_succ]
    change ([] ++ (buf.drop 0).take (mark + 1) ++ [0x80]) ++ List.replicate n 0x80 = _
    rw [List.drop_zero, List.nil_append, List.append_assoc]
    rfl

/-- A single marker is never sent. -/
theorem send_data_marker : ¬∃ fuel, sendData fuel [1] = some (escape [1]) := by
  rintro ⟨fuel, h⟩
  rw [sendData, show memchr [1] controlMarker = some 0 from rfl, sendLoop_some] at h
  cases h

end Sst.Shell
