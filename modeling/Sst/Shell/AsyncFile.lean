import Sst.Lib.Transition
import Sst.Lib.Word

/-!
# Asynchronous output to a file descriptor

An `AsyncFile` writes to a descriptor in nonblocking mode. What the descriptor does not take is
queued, and written when the descriptor is ready; the shell server reads no further input while
`shellBufferSize` bytes or more wait.

* `Written`: what one call of `::write` does.
* `AsyncFile.writeData`, `AsyncFile.readyWrite`, `asyncFile`: the output side and its runs.
* `Intact`: written and queued bytes are the accepted ones; `Exact`: the counter is the queue's.
* `Fits`, `Undrained`: the calls that keep them.
* **`async_output`**: output is in order, and the counter right as long as nothing was drained.
-/

namespace Sst.Shell

open Transition

abbrev Bytes := List UInt8

/-- What a call of `::write` does: it writes so many bytes, at most those it was given, fails with
`EINTR`, `EAGAIN` or `EWOULDBLOCK`, or with another `errno`. -/
inductive Written
  | bytes (n : ℕ)
  | again
  | error (errno : ℕ)
  deriving DecidableEq

/-- `QByteArray(const char *, int)`, to which a `qint64` is passed. -/
def byteArray (data : Bytes) : Bytes := data.take (Word.wrap 32 data.length).toNat

/-- The output side of `AsyncFile`. `snout` is the state of the notifier. Besides the fields of the
class: the bytes the descriptor has taken, the bytes accepted from the caller, and whether an error
has emptied the queue. -/
structure AsyncFile where
  outq : List Bytes
  outqd : ℕ
  error : Option ℕ
  snout : Bool
  written : Bytes
  accepted : Bytes
  cleared : Bool
  deriving DecidableEq

namespace AsyncFile

/-- An open file. -/
def new : AsyncFile := ⟨[], 0, none, true, [], [], false⟩

/-- `AsyncFile::setError`. -/
def setError (f : AsyncFile) (errno : ℕ) : AsyncFile := { f with error := some errno }

/-- The descriptor takes bytes of the caller. -/
def put (f : AsyncFile) (data : Bytes) : AsyncFile :=
  { f with written := f.written ++ data, accepted := f.accepted ++ data }

/-- The end of `writeData`: queue what could not be written. -/
def enqueue (f : AsyncFile) (data : Bytes) : AsyncFile :=
  if 0 < data.length then
    { f with
      outq := f.outq ++ [byteArray data]
      outqd := f.outqd + data.length
      accepted := f.accepted ++ data
      snout := true }
  else f

/-- `AsyncFile::writeData`, where the call of `::write` does `w`; `none` stands for `-1`. -/
def writeData (f : AsyncFile) (w : Written) (data : Bytes) : AsyncFile × Option ℕ :=
  if f.outq.isEmpty then
    match w with
    | .bytes n => ((f.put (data.take n)).enqueue (data.drop n), some data.length)
    | .again => (f.enqueue data, some data.length)
    | .error errno => (f.setError errno, none)
  else (f.enqueue data, some data.length)

def bytesToWrite (f : AsyncFile) : ℕ := f.outqd

/-- The loop of `readyWrite`, from call `i` of `::write` on, over the rest of the queue. -/
def readyWriteLoop (ws : ℕ → Written) (i : ℕ) (f : AsyncFile) : List Bytes → AsyncFile
  | [] => { f with outq := [], snout := false }
  | buf :: outq =>
    let partly (act : ℕ) : AsyncFile :=
      let f := { f with written := f.written ++ buf.take act }
      if act < buf.length then { f with outq := buf.drop act :: outq }
      else readyWriteLoop ws (i + 1) f outq
    match ws i with
    | .bytes n => partly (min n buf.length)
    | .again => partly 0
    | .error errno => { f.setError errno with outq := [], cleared := true }

/-- `AsyncFile::readyWrite`, where the calls of `::write` do `ws`. -/
def readyWrite (f : AsyncFile) (ws : ℕ → Written) : AsyncFile := readyWriteLoop ws 0 f f.outq

/-- The calls. -/
inductive Op
  | writeData (w : Written) (data : Bytes)
  | readyWrite (ws : ℕ → Written)

def exec (f : AsyncFile) : Op → AsyncFile
  | .writeData w data => (f.writeData w data).1
  | .readyWrite ws => f.readyWrite ws

end AsyncFile

/-- The runs of an open file. -/
def asyncFile : Machine AsyncFile AsyncFile.Op where
  init := .new
  step f op := some (f.exec op)

namespace AsyncFile

/-- The bytes in the queue. -/
def queued (f : AsyncFile) : ℕ := f.outq.flatten.length

/-- The descriptor has taken what was accepted, but for what is queued. -/
def Intact (f : AsyncFile) : Prop := f.cleared = false → f.written ++ f.outq.flatten = f.accepted

/-- The counter is the size of the queue, which has no empty buffers. -/
structure Exact (f : AsyncFile) : Prop where
  solid : ∀ buf ∈ f.outq, buf ≠ []
  count : f.outqd = f.queued

/-- The counter is ahead of the queue. -/
def Ahead (f : AsyncFile) : Prop := f.queued < f.outqd

/-- What `writeData` leaves to the queue. -/
def remainder (f : AsyncFile) (w : Written) (data : Bytes) : Bytes :=
  if f.outq.isEmpty then
    match w with
    | .bytes n => data.drop n
    | .again => data
    | .error _ => []
  else data

/-- The call leaves to the queue no more than a `QByteArray` holds. -/
def Fits (f : AsyncFile) : Op → Prop
  | .writeData w data => (f.remainder w data).length < 2 ^ 31
  | .readyWrite _ => True

/-- Besides, it neither writes a byte of a queued buffer nor empties the queue for an error: there
is nothing queued, or the first call of `::write` has no effect. -/
def Undrained (f : AsyncFile) : Op → Prop
  | .writeData w data => f.Fits (.writeData w data)
  | .readyWrite ws => f.outq = [] ∨ ws 0 = .again ∨ ws 0 = .bytes 0

/-! ## Queueing -/

variable {f g : AsyncFile}

theorem byteArray_of_lt {data : Bytes} (h : data.length < 2 ^ 31) : byteArray data = data := by
  rw [byteArray, Word.wrap_eq_self (by decide) (by omega) (by omega)]
  exact List.take_of_length_le (by omega)

theorem length_byteArray_le (data : Bytes) : (byteArray data).length ≤ data.length := by
  rw [byteArray, List.length_take]
  exact min_le_right _ _

theorem length_byteArray_lt {data : Bytes} (h : ¬data.length < 2 ^ 31) :
    (byteArray data).length < data.length := by
  have h1 : Word.wrap 32 data.length < 2 ^ 31 := Word.wrap_lt (by decide) _
  rw [byteArray, List.length_take]
  omega

theorem queued_enqueue (f : AsyncFile) (data : Bytes) :
    (f.enqueue data).queued = f.queued + (byteArray data).length := by
  have hnil : (byteArray []).length = 0 := Nat.le_zero.mp (length_byteArray_le [])
  unfold enqueue
  split_ifs with h
  · simp [queued]
  · rw [List.length_eq_zero_iff.mp (Nat.eq_zero_of_not_pos h), hnil, Nat.add_zero]

theorem outqd_enqueue (f : AsyncFile) (data : Bytes) :
    (f.enqueue data).outqd = f.outqd + data.length := by
  unfold enqueue
  split_ifs with h
  · rfl
  · exact (Nat.eq_zero_of_not_pos h).symm ▸ rfl

/-- **`writeData`** accepts nothing, or queues the remainder after what the descriptor took. -/
theorem writeData_cases (f : AsyncFile) (w : Written) (data : Bytes) :
    (∃ errno, (f.writeData w data).1 = f.setError errno ∧ f.remainder w data = []) ∨
      ∃ now, (f.writeData w data).1 = (f.put now).enqueue (f.remainder w data) ∧
        (f.outq = [] ∨ now = []) := by
  have hput : f.put [] = f := by
    unfold put
    rw [List.append_nil, List.append_nil]
  unfold writeData remainder
  split_ifs with h
  · have hnil := List.isEmpty_iff.mp h
    cases w with
    | bytes n => exact .inr ⟨data.take n, rfl, .inl hnil⟩
    | again => exact .inr ⟨[], by rw [hput], .inr rfl⟩
    | error errno => exact .inl ⟨errno, rfl, rfl⟩
  · exact .inr ⟨[], by rw [hput], .inr rfl⟩

theorem Intact.enqueue (h : f.Intact) {data : Bytes} (hd : data.length < 2 ^ 31) :
    (f.enqueue data).Intact := by
  unfold AsyncFile.enqueue
  split_ifs
  · intro hc
    change f.written ++ (f.outq ++ [byteArray data]).flatten = f.accepted ++ data
    rw [List.flatten_append, List.flatten_singleton, byteArray_of_lt hd, ← List.append_assoc, h hc]
  · exact h

theorem Intact.put (h : f.Intact) {now : Bytes} (hq : f.outq = [] ∨ now = []) :
    (f.put now).Intact := by
  intro hc
  have hf := h hc
  change f.written ++ now ++ f.outq.flatten = f.accepted ++ now
  rcases hq with hq | rfl
  · rw [hq, List.flatten_nil, List.append_nil] at hf ⊢
    rw [hf]
  · rw [List.append_nil, List.append_nil, hf]

theorem Exact.enqueue (h : f.Exact) {data : Bytes} (hd : data.length < 2 ^ 31) :
    (f.enqueue data).Exact where
  solid := by
    unfold AsyncFile.enqueue
    split_ifs with hpos
    · intro buf hbuf
      rcases List.mem_append.mp hbuf with hbuf | hbuf
      · exact h.solid buf hbuf
      · rw [List.mem_singleton.mp hbuf, byteArray_of_lt hd]
        exact List.length_pos_iff.mp hpos
    · exact h.solid
  count := by
    rw [outqd_enqueue, queued_enqueue, byteArray_of_lt hd, h.count]

/-! ## Draining -/

/-- **The loop of `readyWrite`** writes the queue from its front, or loses it for an error. -/
theorem readyWriteLoop_spec (ws : ℕ → Written) (i : ℕ) (f : AsyncFile) (outq : List Bytes) :
    (readyWriteLoop ws i f outq).outqd = f.outqd ∧
      (readyWriteLoop ws i f outq).queued ≤ outq.flatten.length ∧
      ((readyWriteLoop ws i f outq).cleared = true ∨
        (readyWriteLoop ws i f outq).cleared = f.cleared ∧
        (readyWriteLoop ws i f outq).accepted = f.accepted ∧
        (readyWriteLoop ws i f outq).written ++ (readyWriteLoop ws i f outq).outq.flatten =
          f.written ++ outq.flatten) := by
  induction outq generalizing i f with
  | nil => exact ⟨rfl, le_rfl, .inr ⟨rfl, rfl, rfl⟩⟩
  | cons buf outq ih =>
    rw [readyWriteLoop]
    rw [List.flatten_cons, List.length_append]
    have hpart : ∀ act, f.written ++ buf.take act ++ (buf.drop act ++ outq.flatten) =
        f.written ++ (buf ++ outq.flatten) := by
      intro act
      rw [List.append_assoc, ← List.append_assoc (buf.take act), List.take_append_drop]
    have hpartly : ∀ act, ∀ g, g = (if act < buf.length then
        { f with written := f.written ++ buf.take act, outq := buf.drop act :: outq }
        else readyWriteLoop ws (i + 1) { f with written := f.written ++ buf.take act } outq) →
        g.outqd = f.outqd ∧ g.queued ≤ buf.length + outq.flatten.length ∧
          (g.cleared = true ∨ g.cleared = f.cleared ∧ g.accepted = f.accepted ∧
            g.written ++ g.outq.flatten = f.written ++ (buf ++ outq.flatten)) := by
      rintro act g rfl
      split_ifs with hlt
      · refine ⟨rfl, ?_, .inr ⟨rfl, rfl, hpart act⟩⟩
        change (buf.drop act ++ outq.flatten).length ≤ _
        rw [List.length_append, List.length_drop]
        omega
      · obtain ⟨h1, h2, h3⟩ := ih (i + 1) { f with written := f.written ++ buf.take act }
        refine ⟨h1, by omega, h3.imp_right fun ⟨h4, h5, h6⟩ => ⟨h4, h5, h6.trans ?_⟩⟩
        rw [← hpart act, List.drop_eq_nil_of_le (not_lt.mp hlt), List.nil_append]
    cases ws i with
    | bytes n => exact hpartly _ _ rfl
    | again => exact hpartly _ _ rfl
    | error errno => exact ⟨rfl, Nat.zero_le _, .inl rfl⟩

theorem Intact.readyWrite (h : f.Intact) (ws : ℕ → Written) : (f.readyWrite ws).Intact := by
  obtain ⟨-, -, h1⟩ := readyWriteLoop_spec ws 0 f f.outq
  intro hc
  rcases h1 with h1 | ⟨h1, h2, h3⟩
  · cases h1.symm.trans hc
  · exact (h3.trans (h (h1.symm.trans hc))).trans h2.symm

theorem Exact.undrained (h : f.Exact) {ws : ℕ → Written} (hu : f.Undrained (.readyWrite ws)) :
    (f.readyWrite ws).Exact := by
  obtain ⟨h1, h2⟩ := h
  unfold queued at h2
  unfold AsyncFile.readyWrite
  cases hq : f.outq with
  | nil =>
    rw [hq] at h2
    exact ⟨fun _ hb => absurd hb List.not_mem_nil, h2⟩
  | cons buf outq =>
    rw [hq] at h1 h2
    have hpos : 0 < buf.length := List.length_pos_iff.mpr (h1 buf List.mem_cons_self)
    have hsame : (readyWriteLoop ws 0 f (buf :: outq)) =
        { f with written := f.written ++ buf.take 0, outq := buf.drop 0 :: outq } := by
      rw [readyWriteLoop]
      rcases hu with hu | hu | hu
      · rw [hq] at hu
        cases hu
      · rw [hu]
        exact if_pos hpos
      · rw [hu]
        exact if_pos ((Nat.min_le_left 0 _).trans_lt hpos)
    rw [hsame]
    exact ⟨h1, h2⟩

theorem Exact.drained (h : f.Exact) {ws : ℕ → Written} (hu : ¬f.Undrained (.readyWrite ws)) :
    (f.readyWrite ws).Ahead := by
  obtain ⟨h1, h2⟩ := h
  unfold Undrained at hu
  push Not at hu
  obtain ⟨hne, hagain, hzero⟩ := hu
  unfold queued at h2
  unfold AsyncFile.readyWrite Ahead
  cases hq : f.outq with
  | nil => exact absurd hq hne
  | cons buf outq =>
    rw [hq, List.flatten_cons, List.length_append] at h2
    have hpos : 0 < buf.length := List.length_pos_iff.mpr (h1 buf (hq ▸ List.mem_cons_self))
    rw [readyWriteLoop]
    cases hw : ws 0 with
    | bytes n =>
      have hn : 0 < n := Nat.pos_of_ne_zero fun h0 => hzero (h0 ▸ hw)
      dsimp only
      split_ifs with hlt
      · change (buf.drop _ ++ outq.flatten).length < f.outqd
        rw [List.length_append, List.length_drop]
        omega
      · obtain ⟨h3, h4, -⟩ := readyWriteLoop_spec ws 1
          { f with written := f.written ++ buf.take (min n buf.length) } outq
        rw [h3]
        exact h4.trans_lt (show outq.flatten.length < f.outqd by omega)
    | again => exact absurd hw hagain
    | error errno =>
      change 0 < f.outqd
      omega

/-! ## Calls -/

theorem Ahead.exec (h : f.Ahead) (op : Op) : (f.exec op).Ahead := by
  unfold Ahead at h ⊢
  cases op with
  | writeData w data =>
    change (f.writeData w data).1.queued < (f.writeData w data).1.outqd
    rcases writeData_cases f w data with ⟨errno, heq, -⟩ | ⟨now, heq, -⟩
    · rw [heq]
      exact h
    · have h1 := length_byteArray_le (f.remainder w data)
      have h2 : (f.put now).queued < (f.put now).outqd := h
      rw [heq, queued_enqueue, outqd_enqueue]
      omega
  | readyWrite ws =>
    obtain ⟨h1, h2, -⟩ := readyWriteLoop_spec ws 0 f f.outq
    exact (h2.trans_lt h).trans_eq h1.symm

theorem Intact.exec (h : f.Intact) {op : Op} (hfit : f.Fits op) : (f.exec op).Intact := by
  cases op with
  | writeData w data =>
    change (f.writeData w data).1.Intact
    rcases writeData_cases f w data with ⟨errno, heq, -⟩ | ⟨now, heq, hq⟩
    · rw [heq]
      exact h
    · rw [heq]
      exact (h.put hq).enqueue hfit
  | readyWrite ws => exact h.readyWrite ws

/-- **A call that drains nothing** keeps the counter right. -/
theorem Exact.exec (h : f.Exact) {op : Op} (hu : f.Undrained op) : (f.exec op).Exact := by
  cases op with
  | writeData w data =>
    change (f.writeData w data).1.Exact
    rcases writeData_cases f w data with ⟨errno, heq, -⟩ | ⟨now, heq, -⟩
    · rw [heq]
      exact ⟨h.solid, h.count⟩
    · have hput : (f.put now).Exact := ⟨h.solid, h.count⟩
      rw [heq]
      exact hput.enqueue hu
  | readyWrite ws => exact h.undrained hu

/-- **Every other call** leaves the counter ahead. -/
theorem Exact.ahead (h : f.Exact) {op : Op} (hu : ¬f.Undrained op) : (f.exec op).Ahead := by
  cases op with
  | writeData w data =>
    replace hu : ¬(f.remainder w data).length < 2 ^ 31 := hu
    change (f.writeData w data).1.queued < (f.writeData w data).1.outqd
    rcases writeData_cases f w data with ⟨errno, -, hr⟩ | ⟨now, heq, -⟩
    · rw [hr] at hu
      exact absurd (by decide) hu
    · have h1 := length_byteArray_lt hu
      have h2 : (f.put now).outqd = (f.put now).queued := h.count
      rw [heq, queued_enqueue, outqd_enqueue]
      omega
  | readyWrite ws => exact h.drained hu

end AsyncFile

/-- **Asynchronous output.** In every run of calls that leave at most `2 ^ 31 - 1` bytes each to
the queue, the bytes the descriptor has taken and then the queue are the accepted bytes in order,
until an error empties the queue. They are, and `bytesToWrite` is the size of the queue, if and
only if moreover no call of `readyWrite` so far wrote a byte of a queued buffer or emptied the
queue for an error. -/
theorem async_output {l : List AsyncFile.Op} {f : AsyncFile}
    (h : asyncFile.run asyncFile.init l = some f) :
    (asyncFile.Meets AsyncFile.Fits asyncFile.init l → f.Intact) ∧
      (f.Intact ∧ f.bytesToWrite = f.queued ↔
        asyncFile.Meets AsyncFile.Undrained asyncFile.init l) := by
  have hnew : AsyncFile.new.Exact := ⟨fun _ hb => absurd hb List.not_mem_nil, rfl⟩
  have hintact : asyncFile.Meets AsyncFile.Fits asyncFile.init l → f.Intact := by
    refine fun hfit => hfit.invariant (fun s t op hs hop ht => ?_) (fun _ => rfl) h
    cases ht
    exact hs.exec hop
  refine ⟨hintact, ?_⟩
  rcases Machine.meets_or (I := AsyncFile.Exact) (B := AsyncFile.Ahead)
    (C := AsyncFile.Undrained) (m := asyncFile)
    (fun s t op hs hu ht => by cases ht; exact hs.exec hu)
    (fun s t op hs hu ht => by cases ht; exact hs.ahead hu)
    (fun s t op hs ht => by cases ht; exact hs.exec op) hnew h with ⟨h1, h2⟩ | ⟨h1, h2⟩
  · have hfit : asyncFile.Meets AsyncFile.Fits asyncFile.init l := h1.mono fun s op hop => by
      cases op with
      | writeData w data => exact hop
      | readyWrite ws => trivial
    exact iff_of_true ⟨hintact hfit, h2.count⟩ h1
  · refine iff_of_false (fun h3 => ?_) h1
    have hlt : f.queued < f.outqd := h2
    have heq : f.outqd = f.queued := h3.2
    omega

/-- Three bytes are accepted, of which the descriptor takes one, and then nothing for a while. -/
theorem async_output_waiting : ∃ f : AsyncFile, asyncFile.run asyncFile.init
    [.writeData (.bytes 1) [1, 2, 3], .readyWrite fun _ => .again] = some f ∧
      f.written = [1] ∧ f.Intact ∧ f.bytesToWrite = f.queued := by
  have hrun : ∃ f : AsyncFile, asyncFile.run asyncFile.init
      [.writeData (.bytes 1) [1, 2, 3], .readyWrite fun _ => .again] = some f ∧ f.written = [1] :=
    ⟨_, rfl, by decide +kernel⟩
  obtain ⟨f, hf, hw⟩ := hrun
  refine ⟨f, hf, hw, (async_output hf).2.mpr ⟨?_, fun t _ => ⟨.inr (.inl rfl), fun _ _ => trivial⟩⟩⟩
  change 2 < 2 ^ 31
  decide

/-- The two bytes left are written later, and still counted. -/
theorem async_output_drained : ¬∀ (l : List AsyncFile.Op) (f : AsyncFile),
    asyncFile.run asyncFile.init l = some f → f.Intact ∧ f.bytesToWrite = f.queued := by
  intro hall
  have := (hall [.writeData (.bytes 1) [1, 2, 3], .readyWrite fun _ => .bytes 2] _ rfl).2
  revert this
  decide +kernel

/-! ## Flow control -/

/-- `shellBufferSize`. -/
def shellBufferSize : ℕ := 16384

/-- The test of `ShellSession::inReady`: the session waits until the write buffer empties. -/
def AsyncFile.Full (f : AsyncFile) : Prop := shellBufferSize ≤ f.bytesToWrite

/-- **A session that waits once waits for ever.** -/
theorem full_stable {f g : AsyncFile} {l : List AsyncFile.Op} (h : asyncFile.run f l = some g)
    (hf : f.Full) : g.Full := by
  refine Machine.run_invariant (m := asyncFile) (fun s t op hs ht => ?_) hf h
  cases ht
  cases op with
  | writeData w data =>
    change shellBufferSize ≤ (s.writeData w data).1.outqd
    rcases AsyncFile.writeData_cases s w data with ⟨errno, heq, -⟩ | ⟨now, heq, -⟩
    · rw [heq]
      exact hs
    · rw [heq, AsyncFile.outqd_enqueue]
      exact hs.trans (Nat.le_add_right _ _)
  | readyWrite ws => exact hs.trans (AsyncFile.readyWriteLoop_spec ws 0 s s.outq).1.ge

end Sst.Shell
