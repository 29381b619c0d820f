import Sst.Flow.Trace

/-!
# Words and acknowledged packets

Whatever else happens to a flow, the words that it sends stand for packets that were acknowledged,
as long as the numbers fit the parameter of `acknowledge`.

* `RunOK`: every number of an acknowledgment run, packet 0 apart, was acknowledged.
* `Flow.Words`: the current run and all words sent are such runs.
* **`Flow.Micro.words`**, `Flow.Path.words`: elementary steps and their sequences keep it.
* `Flow.Micro.acknowledged_mem`: what elementary steps acknowledge.
-/

namespace Sst

/-- The numbers `ackseq - ackct, …, ackseq` were acknowledged, packet 0 apart. -/
structure RunOK (log : List Event) (ackct ackseq : ℕ) : Prop where
  ct : ackct ≤ ackctMax
  le : ackct ≤ ackseq
  lt : ackseq < 2 ^ 16
  acked : ∀ n ∈ Flow.covered ackseq ackct, n = 0 ∨ .acknowledged n ∈ log

namespace RunOK

variable {log : List Event}

theorem mono {log' : List Event} {ackct ackseq : ℕ} (h : RunOK log ackct ackseq)
    (hsub : log ⊆ log') : RunOK log' ackct ackseq :=
  ⟨h.ct, h.le, h.lt, fun n hn => (h.acked n hn).imp_right (@hsub _)⟩

theorem single {n : ℕ} (hn : n < 2 ^ 16) (h : .acknowledged n ∈ log) : RunOK log 0 n := by
  refine ⟨Nat.zero_le _, Nat.zero_le _, hn, fun m hm => .inr ?_⟩
  obtain ⟨h1, h2⟩ := hm
  rwa [show m = n by omega]

theorem extend {ackct ackseq : ℕ} (h : RunOK log ackct ackseq) (hlt : ackseq + 1 < 2 ^ 16)
    (hn : .acknowledged (ackseq + 1) ∈ log) :
    RunOK log (min (ackct + 1) ackctMax) (ackseq + 1) := by
  have hle := h.le
  refine ⟨min_le_right _ _, by omega, hlt, fun m hm => ?_⟩
  obtain ⟨h1, h2⟩ := hm
  rcases Nat.lt_or_ge m (ackseq + 1) with h3 | h3
  · exact h.acked m ⟨by omega, by omega⟩
  · rw [show m = ackseq + 1 by omega]
    exact .inr hn

end RunOK

namespace Flow

variable {S : Scope} {f g : Flow}

/-- **The current run and the words sent** are runs of acknowledged packets. -/
structure Words (f : Flow) : Prop where
  run : RunOK f.log f.rxackct f.rxackseq
  words : ∀ pkt isdata, .sent pkt isdata ∈ f.log →
    ∃ ackct ackseq, RunOK f.log ackct ackseq ∧ pkt.packseq = ackWord ackct ackseq
  narrow : ∀ n, .acknowledged n ∈ f.log → n < 2 ^ 16

theorem Words.new (chan : BitVec 8) : Words (.new chan) where
  run := ⟨Nat.zero_le _, le_rfl, Nat.two_pow_pos 16, fun _ hn => .inl (Nat.le_zero.1 hn.1)⟩
  words := nofun
  narrow := nofun

theorem Words.of_eq (h : Words f) (hl : g.log = f.log) (hc : g.rxackct = f.rxackct)
    (hs : g.rxackseq = f.rxackseq) : Words g :=
  ⟨by rw [hl, hc, hs]; exact h.run, by rw [hl]; exact h.words, by rw [hl]; exact h.narrow⟩

theorem Words.logged (h : Words f) (e : Event) (h1 : ∀ pkt d, e ≠ .sent pkt d)
    (h2 : ∀ n, e = .acknowledged n → n < 2 ^ 16) : Words (f.logged e) where
  run := h.run.mono (List.subset_cons_self _ _)
  words pkt d hs := by
    rcases List.mem_cons.1 hs with hs | hs
    · exact absurd hs.symm (h1 pkt d)
    · obtain ⟨ct, sq, hr, hw⟩ := h.words pkt d hs
      exact ⟨ct, sq, hr.mono (List.subset_cons_self _ _), hw⟩
  narrow n hn := by
    rcases List.mem_cons.1 hn with hn | hn
    · exact h2 n hn.symm
    · exact h.narrow n hn

/-- **Elementary steps** keep the words. -/
theorem Micro.words (hm : Micro S f g) (hS : ∀ n ∈ S.calls, n < 2 ^ 16) (h : Words f) :
    Words g := by
  cases hm with
  | tune hk =>
    exact h.of_eq (congrArg Kept.log hk) (congrArg Kept.rxackct hk) (congrArg Kept.rxackseq hk)
  | note e he =>
    exact h.logged e (by rintro pkt d rfl; exact he) (by rintro n rfl; exact he.elim)
  | tx now ackct ackseq size isdata hw =>
    have hr : RunOK f.log ackct ackseq := by
      rcases hw with ⟨rfl, rfl⟩ | ⟨n, hn, rfl, rfl⟩
      · exact h.run
      · rw [Nat.mod_eq_of_lt (h.narrow n hn)]
        exact .single (h.narrow n hn) hn
    refine ⟨h.run.mono (List.subset_cons_self _ _), fun pkt d hs => ?_, fun n hn => ?_⟩
    · rcases List.mem_cons.1 hs with hs | hs
      · cases hs
        exact ⟨ackct, ackseq, hr.mono (List.subset_cons_self _ _), rfl⟩
      · obtain ⟨ct, sq, hr', hw'⟩ := h.words pkt d hs
        exact ⟨ct, sq, hr'.mono (List.subset_cons_self _ _), hw'⟩
    · rcases List.mem_cons.1 hn with hn | hn
      · cases hn
      · exact h.narrow n hn
  | acknowledged n hn =>
    exact h.logged _ nofun fun m hm => by cases hm; exact hS n hn
  | extend n hn hd =>
    have hlt := h.narrow n hn
    have hrun := h.run.lt
    rw [Nat.mod_eq_of_lt hlt, Word.wrap_eq_self (by decide) (by omega) (by omega)] at hd
    have he : n = f.rxackseq + 1 := by omega
    refine ⟨?_, h.words, h.narrow⟩
    change RunOK f.log (min (f.rxackct + 1) ackctMax) (n % 2 ^ 16)
    rw [Nat.mod_eq_of_lt hlt, he]
    exact h.run.extend (by omega) (he ▸ hn)
  | restart n hn =>
    refine ⟨?_, h.words, h.narrow⟩
    change RunOK f.log 0 (n % 2 ^ 16)
    rw [Nat.mod_eq_of_lt (h.narrow n hn)]
    exact .single (h.narrow n hn) hn
  | exit seq e r hs he hp hr =>
    have hl : Words (f.leavePipe seq e) := ⟨h.run, h.words, h.narrow⟩
    refine hl.logged r ?_ ?_
    · rcases hr with ⟨-, rxseq, rfl⟩ | rfl <;> nofun
    · rcases hr with ⟨-, rxseq, rfl⟩ | rfl <;> nofun
  | expire e evts _ he hp hlow =>
    have hl : Words { f with txevts := evts, txevtseq := f.txevtseq + 1 } :=
      ⟨h.run, h.words, h.narrow⟩
    exact hl.logged _ nofun nofun
  | roll ackseq hR => exact ⟨h.run, h.words, h.narrow⟩
  | stray _ => exact ⟨h.run, h.words, h.narrow⟩

theorem Path.words (hp : Path S f g) (hS : ∀ n ∈ S.calls, n < 2 ^ 16) (h : Words f) : Words g :=
  hp.invariant (fun _ _ hm => hm.words hS) h

theorem Micro.acknowledged_mem (hm : Micro S f g) {n : ℕ} (hn : .acknowledged n ∈ g.log) :
    n ∈ S.calls ∨ .acknowledged n ∈ f.log := by
  have hcons : ∀ e, .acknowledged n ∈ e :: f.log → e ≠ .acknowledged n →
      n ∈ S.calls ∨ .acknowledged n ∈ f.log := fun e hn he =>
    .inr ((List.mem_cons.1 hn).resolve_left fun h => he h.symm)
  cases hm with
  | tune hk =>
    rw [show g.log = f.log from congrArg Kept.log hk] at hn
    exact .inr hn
  | note e he => exact hcons e hn (by rintro rfl; exact he)
  | tx now ackct ackseq size isdata hw => exact hcons _ hn nofun
  | acknowledged m hm =>
    rcases List.mem_cons.1 hn with hn | hn
    · cases hn
      exact .inl hm
    · exact .inr hn
  | exit seq e r hs he hp hr =>
    exact hcons r hn (by rcases hr with ⟨-, rxseq, rfl⟩ | rfl <;> nofun)
  | expire e evts _ he hp hlow => exact hcons _ hn nofun
  | _ => exact .inr hn

theorem Path.acknowledged_mem (hp : Path S f g) {n : ℕ} (hn : .acknowledged n ∈ g.log) :
    n ∈ S.calls ∨ .acknowledged n ∈ f.log := by
  refine hp.invariant (P := fun k => .acknowledged n ∈ k.log →
    n ∈ S.calls ∨ .acknowledged n ∈ f.log) (fun _ _ hm ih hk => ?_) .inr hn
  exact (hm.acknowledged_mem hk).elim .inl ih

end Flow

end Sst
