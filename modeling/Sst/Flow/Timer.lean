import Sst.Flow.Losses

/-!
# The retransmission timer

The timer should run only while data is in flight. It is armed by `start` and by `rtxTimeout`
without regard to the packets in flight, and the straggler loop of `receive` may take the last
packet out of the pipe without stopping it.

* `Keeps`: what happens to the pipe and the timer while only some packets may leave.
* `range_turns`, `straggle_turns`, `collect_keeps`: the loops of `receive`.
* `TimerSafe`: the operations that do not go wrong.
* **`timer_in_flight`**: in every run of these, the timer runs only while data is in flight.
-/

namespace Sst

open Transition

/-- The upper layer transmits a data packet when `e` is raised. -/
def Env.Transmits (env : Env) (e : Event) : Prop := ∃ size, .flowTransmit size ∈ env.calls e

namespace Flow

/-- A data packet is in flight. -/
def InFlight (f : Flow) : Prop := ∃ n, f.kept.inPipe n = true

/-- A data packet numbered `N` or above is in flight. -/
def Fresh (N : ℕ) (f : Flow) : Prop := ∃ n, N ≤ n ∧ f.kept.inPipe n = true

theorem Fresh.inFlight {N : ℕ} {f : Flow} (h : Fresh N f) : f.InFlight := h.imp fun _ h => h.2

/-! ## Packets that stay in the pipe -/

/-- The records are the last numbers, and `N` is not beyond them. -/
structure Sized (N : ℕ) (f : Flow) : Prop where
  len : f.txevtseq + f.txevts.length = f.txseq
  le : N ≤ f.txseq

/-- Between `f` and `g` only packets in `A` leave the pipe, packets numbered below `N` do not enter
it, and the timer is started only by a transmission. -/
structure Keeps (N : ℕ) (A : Set ℕ) (f g : Flow) : Prop where
  sized : Sized N g
  stays : ∀ n, n ∉ A → f.kept.inPipe n = true → g.kept.inPipe n = true
  old : ∀ n, n < N → g.kept.inPipe n = true → f.kept.inPipe n = true
  timer : g.rtxtimer = true → f.rtxtimer = true ∨ Fresh N g

variable {N : ℕ} {A B : Set ℕ} {f g k : Flow}

namespace Keeps

theorem refl (hf : Sized N f) : Keeps N A f f := ⟨hf, fun _ _ => id, fun _ _ => id, .inl⟩

theorem fresh (h : Keeps N A f g) (hA : ∀ n ∈ A, n < N) (hf : Fresh N f) : Fresh N g := by
  obtain ⟨n, hn, hp⟩ := hf
  exact ⟨n, hn, h.stays n (fun ha => absurd (hA n ha) (not_lt.mpr hn)) hp⟩

theorem trans (h₁ : Keeps N A f g) (h₂ : Keeps N A g k) (hA : ∀ n ∈ A, n < N) : Keeps N A f k where
  sized := h₂.sized
  stays n hn hp := h₂.stays n hn (h₁.stays n hn hp)
  old n hn hp := h₁.old n hn (h₂.old n hn hp)
  timer ht := by
    rcases h₂.timer ht with h | h
    · exact (h₁.timer h).imp_right (h₂.fresh hA)
    · exact .inr h

theorem after (h₁ : Keeps N A f g) (h₂ : Keeps N ∅ g k) : Keeps N A f k where
  sized := h₂.sized
  stays n hn hp := h₂.stays n id (h₁.stays n hn hp)
  old n hn hp := h₁.old n hn (h₂.old n hn hp)
  timer ht := by
    have hno : ∀ n ∈ (∅ : Set ℕ), n < N := fun _ h => h.elim
    rcases h₂.timer ht with h | h
    · exact (h₁.timer h).imp_right (h₂.fresh hno)
    · exact .inr h

theorem logged (h : Keeps N A f g) (e : Event) : Keeps N A f (g.logged e) :=
  ⟨⟨h.sized.len, h.sized.le⟩, h.stays, h.old, h.timer⟩

theorem mono (h : Keeps N A f g) (hAB : A ⊆ B) : Keeps N B f g :=
  ⟨h.sized, fun n hn => h.stays n fun ha => hn (hAB ha), h.old, h.timer⟩

theorem same (hf : Sized N f) (h1 : g.txevts = f.txevts) (h2 : g.txevtseq = f.txevtseq)
    (h3 : g.txseq = f.txseq) (h4 : g.rtxtimer = true → f.rtxtimer = true) : Keeps N A f g := by
  have hp : ∀ n, g.kept.inPipe n = f.kept.inPipe n := by
    intro n
    change (decide (g.txevtseq ≤ n) && _) = (decide (f.txevtseq ≤ n) && _)
    rw [h2]
    change (_ && (g.txevts[n - g.txevtseq]?).any _) = _
    rw [h1, h2]
    rfl
  refine ⟨⟨by rw [h1, h2, h3]; exact hf.len, h3 ▸ hf.le⟩, fun n _ h => (hp n).trans h,
    fun n _ h => (hp n).symm.trans h, fun h => .inl (h4 h)⟩

theorem tuned {n : ℕ} (hf : Sized N f) (h : Tuned n f g) : Keeps N A f g :=
  same hf (congrArg (·.txevts) h.rest) (congrArg (·.txevtseq) h.rest) (congrArg (·.txseq) h.rest)
    fun ht => (congrArg (·.rtxtimer) h.rest).symm.trans ht

/-- **A transmission** adds a record. -/
theorem tx (hf : Sized N f) (now : ℕ) (packseq : BitVec 32) (size : ℕ) (isdata : Bool) :
    Keeps N A f (f.tx now packseq size isdata) := by
  have hp : ∀ n, (f.tx now packseq size isdata).kept.inPipe n =
      if n = f.txseq then isdata else f.kept.inPipe n :=
    Acct.inPipe_append (k := f.kept) hf.len ⟨size, isdata, isdata⟩
  refine ⟨⟨?_, hf.le.trans (Nat.le_succ _)⟩, fun n _ h => ?_, fun n hn h => ?_, .inl⟩
  · change f.txevtseq + (f.txevts ++ [_]).length = f.txseq + 1
    have := hf.len
    rw [List.length_append, List.length_singleton]
    omega
  · rw [hp, if_neg]
    · exact h
    · rintro rfl
      cases h.symm.trans (Acct.inPipe_txseq (k := f.kept) hf.len le_rfl)
  · have hlt := hn.trans_le hf.le
    rwa [hp, if_neg hlt.ne] at h

/-- **A data packet** enters the pipe. -/
theorem data (hf : Sized N f) (now : ℕ) (packseq : BitVec 32) (size : ℕ) :
    Keeps N A f { f.tx now packseq size true with rtxtimer := true } ∧
      Fresh N { f.tx now packseq size true with rtxtimer := true } := by
  have h : Keeps N A f (f.tx now packseq size true) := tx hf now packseq size true
  have hfresh : Fresh N { f.tx now packseq size true with rtxtimer := true } := by
    exact ⟨f.txseq, hf.le,
      (Acct.inPipe_append (k := f.kept) hf.len ⟨size, true, true⟩ f.txseq).trans (if_pos rfl)⟩
  exact ⟨⟨⟨h.sized.len, h.sized.le⟩, h.stays, h.old, fun _ => .inr hfresh⟩, hfresh⟩

/-- **A packet leaves the pipe.** -/
theorem leave (hf : Sized N f) {seq : ℕ} {e : TxEvent} (hs : f.txevtseq ≤ seq)
    (he : f.txevts[seq - f.txevtseq]? = some e) :
    Keeps N {seq} f (f.leavePipe seq e) ∧ (f.leavePipe seq e).kept.inPipe seq = false := by
  have hp : ∀ n, (f.leavePipe seq e).kept.inPipe n = (f.kept.inPipe n && decide (n ≠ seq)) :=
    Acct.inPipe_set (k := f.kept) hs he
  refine ⟨⟨⟨?_, hf.le⟩, fun n hn h => ?_, fun n _ h => ?_, .inl⟩, ?_⟩
  · change f.txevtseq + (f.txevts.set _ _).length = f.txseq
    rw [List.length_set]
    exact hf.len
  · rw [hp, h, decide_eq_true (show n ≠ seq from hn)]
    rfl
  · rw [hp] at h
    exact (Bool.and_eq_true _ _ ▸ h).1
  · rw [hp, decide_eq_false (not_not.mpr rfl), Bool.and_false]

end Keeps

/-- **Every action** while nothing is updated. -/
theorem Act.keeps {S : ActScope} (h : Act S f g) (hS : S.Idle) (hout : S.acks ∪ S.misses ⊆ A)
    (hf : Sized N f) : Keeps N A f g := by
  cases h with
  | txack now ackct ackseq => exact .tx hf now _ _ _
  | data now size => exact (Keeps.data hf now _ size).1
  | acked seq rxseq e hs he hp ha =>
    have h1 := (Keeps.leave hf hs he).1.mono (Set.singleton_subset_iff.mpr (hout (.inl ha)))
    exact h1.logged _
  | missed seq e hs he hp hm =>
    have h1 := (Keeps.leave hf hs he).1.mono (Set.singleton_subset_iff.mpr (hout (.inr hm)))
    exact h1.logged _
  | cut _ seq e hs he hp hm =>
    have h1 := (Keeps.leave hf hs he).1.mono (Set.singleton_subset_iff.mpr (hout (.inr hm)))
    exact (h1.after (.tuned h1.sized (ccMissed_tuned _ seq))).logged _
  | roll ackseq m h => exact absurd h (hS.fixed ackseq)
  | expire e evts h => exact absurd h hS.expires
  | link h => exact absurd h hS.updates
  | timer h => exact absurd h hS.updates
  | grow h => exact absurd h hS.updates
  | timeout h => exact absurd h hS.updates
  | _ => exact .same hf rfl rfl rfl id

theorem Acts.keeps {S : ActScope} (h : Acts S f g) (hS : S.Idle) (hout : S.acks ∪ S.misses ⊆ A)
    (hA : ∀ n ∈ A, n < N) (hf : Sized N f) : Keeps N A f g := by
  refine h.invariant (P := Keeps N A f) (fun a b hab ha => ?_) (.refl hf)
  exact ha.trans (hab.keeps hS hout ha.sized) hA

theorem Acts.callingKeeps (h : Acts .calling f g) (hf : Sized N f) : Keeps N ∅ f g :=
  h.keeps ActScope.idle_calling (Set.union_subset (Set.empty_subset _) (Set.empty_subset _))
    (fun _ h => h.elim) hf

section Reports

variable {env : Env}

theorem call_keeps (hf : Sized N f) (c : Call) : Keeps N ∅ f (f.call env c) :=
  Acts.callingKeeps (call_acts env f fun n _ _ => Set.mem_univ n) hf

theorem raise_keeps (hf : Sized N f) (e : Event) : Keeps N ∅ f (f.raise env e) := by
  have hg : Sized N (f.logged e) := ⟨hf.len, hf.le⟩
  have h : Keeps N ∅ (f.logged e) (f.raise env e) :=
    Acts.callingKeeps (raise_acts (sound_calling env) f e) hg
  exact ⟨h.sized, h.stays, h.old, h.timer⟩

/-- A report from which the upper layer transmits. -/
theorem raise_fresh (hf : Sized N f) (e : Event) (he : env.Transmits e) :
    Fresh N (f.raise env e) := by
  have hcalls : ∀ (l : List Call) (g : Flow), Sized N g → Keeps N ∅ g (l.foldl (call env) g) :=
    fun l g hg => Acts.callingKeeps (calls_acts env g fun _ _ n _ _ => Set.mem_univ n) hg
  obtain ⟨size, hmem⟩ := he
  obtain ⟨l₁, l₂, hl⟩ := List.append_of_mem hmem
  unfold raise
  rw [hl, List.foldl_append, List.foldl_cons]
  have hf' : Sized N { f with log := e :: f.log } := ⟨hf.len, hf.le⟩
  have h1 := hcalls l₁ _ hf'
  generalize l₁.foldl (call env) { f with log := e :: f.log } = g at h1 ⊢
  have h2 : Fresh N (g.call env (.flowTransmit size)) := by
    have hg : Sized N (if (g.check (decide (hdrlen < size))).rxunacked = 0 then
        g.check (decide (hdrlen < size)) else
        { g.check (decide (hdrlen < size)) with rxunacked := 0, acktimer := none }) := by
      split_ifs <;> exact ⟨h1.sized.len, h1.sized.le⟩
    exact (Keeps.data (A := ∅) hg _ _ size).2
  exact (hcalls l₂ _ (call_keeps h1.sized _).sized).fresh (fun _ h => h.elim) h2

end Reports

/-! ## Loops -/

/-- One turn of a loop takes packet `m` out of the pipe, and makes the upper layer transmit if the
packet was in the pipe and `T` holds. -/
structure Turn (N m : ℕ) (T : Prop) (f g : Flow) : Prop where
  keeps : Keeps N {m} f g
  out : g.kept.inPipe m = false
  fresh : T → f.kept.inPipe m = true → Fresh N g

section Turns

variable {env : Env}

theorem exitPipe_turn {m : ℕ} (hm : m < N) (hf : Sized N f) {T : Prop} {report : Flow → Flow}
    (hr : ∀ g, Sized N g → Keeps N ∅ g (report g)) (hT : ∀ g, Sized N g → T → Fresh N (report g)) :
    Turn N m T f (f.exitPipe m report) := by
  have hA : ∀ n ∈ ({m} : Set ℕ), n < N := fun n hn => by rw [Set.mem_singleton_iff.mp hn]; exact hm
  cases hin : f.kept.inPipe m with
  | true =>
    obtain ⟨e, hs, he, hp, heq⟩ := exitPipe_inPipe hin report
    obtain ⟨h1, h2⟩ := Keeps.leave hf hs he
    have h3 := hr _ h1.sized
    rw [heq]
    refine ⟨h1.trans (h3.mono (Set.empty_subset _)) hA, ?_, fun ht _ => hT _ h1.sized ht⟩
    refine Bool.eq_false_iff.mpr fun hn => ?_
    cases (h3.old m hm hn).symm.trans h2
  | false =>
    rcases exitPipe_not_inPipe hin report with heq | heq
    · rw [heq]
      exact ⟨.refl hf, hin, fun _ h => nomatch hin.symm.trans h⟩
    · rw [heq]
      exact ⟨.same hf rfl rfl rfl id, hin, fun _ h => nomatch hin.symm.trans h⟩

theorem ackOne_turn {m : ℕ} (hm : m < N) (rxseq : ℕ) (hf : Sized N f) :
    Turn N m (env.Transmits (.acked m rxseq)) f (f.ackOne env rxseq m) :=
  exitPipe_turn hm hf (fun _ hg => raise_keeps hg _) fun _ hg => raise_fresh hg _

theorem rtoOne_turn {m : ℕ} (hm : m < N) (hf : Sized N f) :
    Turn N m (env.Transmits (.missed m)) f (f.rtoOne env m) :=
  exitPipe_turn hm hf (fun _ hg => raise_keeps hg _) fun _ hg => raise_fresh hg _

theorem missOne_turn {m : ℕ} (hm : m < N) (hf : Sized N f) :
    Turn N m (env.Transmits (.missed m)) f (f.missOne env m) := by
  have hcut : ∀ g : Flow, Sized N g → Keeps N ∅ g (g.ccMissed m) := fun g hg =>
    .tuned hg (ccMissed_tuned g m)
  exact exitPipe_turn hm hf
    (fun g hg => (hcut g hg).trans (raise_keeps (hcut g hg).sized _) fun _ h => h.elim)
    fun g hg => raise_fresh (hcut g hg).sized _

/-- The packets `seq, …, seq + n - 1`. -/
def span (seq n : ℕ) : Set ℕ := {m | seq ≤ m ∧ m < seq + n}

/-- **A loop over a range of packets.** -/
theorem range_turns {turn : Flow → ℕ → Flow} {T : ℕ → Prop}
    (hturn : ∀ g m, m < N → Sized N g → Turn N m (T m) g (turn g m)) (seq n : ℕ)
    (hn : seq + n ≤ N) (hf : Sized N f) :
    Keeps N (span seq n) f ((List.range' seq n).foldl turn f) ∧
      ∀ m ∈ span seq n, ((List.range' seq n).foldl turn f).kept.inPipe m = false ∧
        (T m → f.kept.inPipe m = true → Fresh N ((List.range' seq n).foldl turn f)) := by
  induction n generalizing f seq with
  | zero => exact ⟨.refl hf, fun m hm => absurd (hm.1.trans_lt hm.2) (lt_irrefl _)⟩
  | succ n ih =>
    have h1 := hturn f seq (by omega) hf
    obtain ⟨h2, h3⟩ := ih (seq + 1) (by omega) h1.keeps.sized
    rw [List.range'_succ, List.foldl_cons]
    generalize (List.range' (seq + 1) n).foldl turn (turn f seq) = g at h2 h3 ⊢
    have hA : ∀ m ∈ span seq (n + 1), m < N := fun m hm => hm.2.trans_le hn
    have hs : ∀ m, m ∈ span seq (n + 1) ↔ m = seq ∨ m ∈ span (seq + 1) n := by
      intro m
      change seq ≤ m ∧ m < seq + (n + 1) ↔ m = seq ∨ seq + 1 ≤ m ∧ m < seq + 1 + n
      omega
    refine ⟨(h1.keeps.mono fun m hm => (hs m).mpr (.inl hm)).trans
      (h2.mono fun m hm => (hs m).mpr (.inr hm)) hA, fun m hm => ?_⟩
    rcases (hs m).mp hm with rfl | hm
    · refine ⟨Bool.eq_false_iff.mpr fun hin => ?_, fun ht hp => ?_⟩
      · cases (h2.old m (by omega) hin).symm.trans h1.out
      · exact h2.fresh (fun k hk => hA k ((hs k).mpr (.inr hk))) (h1.fresh ht hp)
    · refine ⟨(h3 m hm).1, fun ht hp => (h3 m hm).2 ht (h1.keeps.stays m ?_ hp)⟩
      rintro rfl
      exact absurd hm.1 (Nat.not_succ_le_self m)

theorem ackRange_turns (pktseq seq n : ℕ) (hn : seq + n ≤ N) (hf : Sized N f) :
    Keeps N (span seq n) f (f.ackRange env pktseq seq n) ∧
      ∀ m ∈ span seq n, (f.ackRange env pktseq seq n).kept.inPipe m = false ∧
        (env.Transmits (.acked m pktseq) → f.kept.inPipe m = true →
          Fresh N (f.ackRange env pktseq seq n)) :=
  range_turns (fun _ _ hm hg => ackOne_turn hm pktseq hg) seq n hn hf

theorem missRange_turns (seq n : ℕ) (hn : seq + n ≤ N) (hf : Sized N f) :
    Keeps N (span seq n) f (f.missRange env seq n) ∧
      ∀ m ∈ span seq n, (f.missRange env seq n).kept.inPipe m = false ∧
        (env.Transmits (.missed m) → f.kept.inPipe m = true → Fresh N (f.missRange env seq n)) :=
  range_turns (fun _ _ hm hg => missOne_turn hm hg) seq n hn hf

/-- The straggler loop takes out only packets that the word covers. -/
theorem straggle_turns (hf : Sized N f) (hlt : f.txackseq < N) (pktseq back ackct newpackets : ℕ) :
    Keeps N {m | ∃ bit, back ≤ bit ∧ bit ≤ back + ackct ∧ m + bit = f.txackseq} f
        (f.straggle env pktseq back ackct newpackets).1 ∧
      ∀ m, env.Transmits (.acked m pktseq) → f.kept.inPipe m = true →
        (f.straggle env pktseq back ackct newpackets).1.kept.inPipe m = true ∨
          Fresh N (f.straggle env pktseq back ackct newpackets).1 := by
  set A : Set ℕ := {m | ∃ bit, back ≤ bit ∧ bit ≤ back + ackct ∧ m + bit = f.txackseq}
  have hA : ∀ m ∈ A, m < N := by
    rintro m ⟨bit, -, -, hm⟩
    omega
  have hkeep := straggle_acts (S := .straggling A) (.of_univ Set.mem_univ env)
    (fun _ => id) not_false trivial pktseq f back ackct newpackets (.inl trivial)
    fun bit h1 h2 h3 => ⟨bit, h1, h2, Nat.sub_add_cancel h3⟩
  refine ⟨hkeep.keeps (ActScope.idle_straggling A)
    (Set.union_subset subset_rfl (Set.empty_subset _)) hA hf, fun m ht hp => ?_⟩
  have key : ∀ (l : List ℕ) (st : Flow × ℕ), Sized N st.1 → st.1.txackseq < N →
      (st.1.kept.inPipe m = true ∨ Fresh N st.1) →
      (l.foldl (straggleOne env pktseq) st).1.kept.inPipe m = true ∨
        Fresh N (l.foldl (straggleOne env pktseq) st).1 := by
    intro l
    induction l with
    | nil => exact fun st _ _ h => h
    | cons bit l ih =>
      rintro ⟨g, n⟩ hg hlt hm
      replace hlt : g.txackseq < N := hlt
      have hacts : Acts (.straggling Set.univ) g (straggleOne env pktseq (g, n) bit).1 :=
        straggleOne_acts (.of_univ Set.mem_univ env) trivial pktseq bit (g, n) (.inl trivial)
          fun _ => Set.mem_univ _
      have hone : Keeps N {g.txackseq - bit} g (straggleOne env pktseq (g, n) bit).1 ∧
          (g.kept.inPipe (g.txackseq - bit) = true →
            env.Transmits (.acked (g.txackseq - bit) pktseq) →
            (straggleOne env pktseq (g, n) bit).1.kept.inPipe (g.txackseq - bit) = true ∨
              Fresh N (straggleOne env pktseq (g, n) bit).1) := by
        dsimp only [straggleOne]
        split_ifs with h1 h2 h3
        · exact ⟨.refl hg, fun h _ => .inl h⟩
        · exact ⟨.refl hg, fun h _ => .inl h⟩
        · exact ⟨.same hg rfl rfl rfl id, fun h _ => .inl h⟩
        · have hg' : Sized N { g with txackmask := g.txackmask ||| 1#32 <<< bit } := ⟨hg.len, hg.le⟩
          have hlt' : g.txackseq - bit < N := by omega
          have h : Turn N (g.txackseq - bit) (env.Transmits (.acked (g.txackseq - bit) pktseq)) _
              (({ g with txackmask := g.txackmask ||| 1#32 <<< bit } : Flow).ackOne env pktseq
                (g.txackseq - bit)) := ackOne_turn hlt' pktseq hg'
          exact ⟨⟨h.keeps.sized, h.keeps.stays, h.keeps.old, h.keeps.timer⟩,
            fun hp ht => .inr (h.fresh ht hp)⟩
      refine ih _ hone.1.sized ((hacts.still (ActScope.idle_straggling _)).txackseq.symm ▸ hlt) ?_
      rcases hm with hm | hm
      · by_cases hmb : m = g.txackseq - bit
        · subst hmb
          exact hone.2 hm ht
        · exact .inl (hone.1.stays m hmb hm)
      · refine .inr (hone.1.fresh (fun k hk => ?_) hm)
        rw [Set.mem_singleton_iff.mp hk]
        omega
  dsimp only [straggle]
  split_ifs
  · exact key _ (f, newpackets) hf hlt (.inl hp)
  · exact .inl hp

theorem setLinkStatus_keeps (hf : Sized N f) (status : LinkStatus) :
    Keeps N ∅ f (f.setLinkStatus env status) ∧
      (f.setLinkStatus env status).txackmask = f.txackmask ∧
      (f.linkstat ≠ status ∨ status = .stalled → env.Transmits (.linkStatus status) →
        Fresh N (f.setLinkStatus env status)) := by
  have hg : Sized N { f with linkstat := status } := ⟨hf.len, hf.le⟩
  unfold setLinkStatus
  split_ifs with h
  · have h1 : Keeps N ∅ { f with linkstat := status }
        (({ f with linkstat := status } : Flow).raise env (.linkStatus status)) :=
      raise_keeps hg _
    exact ⟨⟨h1.sized, h1.stays, h1.old, h1.timer⟩, raise_txackmask env _ _,
      fun _ => raise_fresh hg _⟩
  · exact ⟨.refl hf, rfl, fun h' => absurd h' h⟩

theorem expireOne_keeps (hB : f.Balanced) (hf : Sized N f)
    (hlow : f.txevtseq + maskBits ≤ f.txackseq) :
    (f.expireOne env).Balanced ∧ Keeps N ∅ f (f.expireOne env) ∧
      (f.expireOne env).txevtseq = f.txevtseq + 1 ∧ (f.expireOne env).txackseq = f.txackseq ∧
      (f.expireOne env).linkstat = f.linkstat ∧
      (f.expireOne env).txackmask = f.txackmask ∧
      (env.Transmits (.expire f.txevtseq) → Fresh N (f.expireOne env)) := by
  obtain ⟨e, evts, he, hp⟩ := hB.head hlow
  have hbal := (expireOne_acts (S := still.collecting.full) (sound_still_collecting env) f trivial
    hlow (.inr ⟨e, evts, he, hp⟩)).path.balanced (fun _ => id) not_false hB
  have heq : f.expireOne env = (f.dropRecord evts).raise env (.expire f.txevtseq) := by
    unfold expireOne
    rw [he]
    change Flow.raise _ env _ = _
    rw [hp]
    rfl
  have hg : Sized N (f.dropRecord evts) := by
    refine ⟨?_, hf.le⟩
    have hlen := hf.len
    rw [he, List.length_cons] at hlen
    change f.txevtseq + 1 + evts.length = f.txseq
    omega
  have hpipe : ∀ n, (f.dropRecord evts).kept.inPipe n = f.kept.inPipe n :=
    Acct.inPipe_tail (k := f.kept) he hp
  have h1 : Keeps N ∅ (f.dropRecord evts) ((f.dropRecord evts).raise env (.expire f.txevtseq)) :=
    raise_keeps hg _
  have h2 := (raise_acts (sound_calling env) (f.dropRecord evts) (.expire f.txevtseq)).still
    ActScope.idle_calling
  rw [heq] at hbal ⊢
  refine ⟨hbal, ⟨h1.sized, fun n hn h => h1.stays n hn ((hpipe n).trans h),
    fun n hn h => (hpipe n).symm.trans (h1.old n hn h), h1.timer⟩, h2.txevtseq, h2.txackseq,
    h2.linkstat, raise_txackmask env _ _, raise_fresh hg _⟩

/-- **Garbage collection** takes nothing out of the pipe. -/
theorem collect_keeps (hB : f.Balanced) (hf : Sized N f) :
    Keeps N ∅ f (f.collect env) ∧ (f.collect env).linkstat = f.linkstat ∧
      (f.collect env).txackmask = f.txackmask ∧
      ∀ m, f.txevtseq ≤ m → m + maskBits ≤ f.txackseq → maskBits < f.txackseq →
        env.Transmits (.expire m) → Fresh N (f.collect env) := by
  have key : ∀ k (g : Flow), g.Balanced → Sized N g →
      (0 < k → g.txevtseq + k + maskBits ≤ g.txackseq + 1) →
      Keeps N ∅ g ((expireOne env)^[k] g) ∧ ((expireOne env)^[k] g).linkstat = g.linkstat ∧
        ((expireOne env)^[k] g).txackmask = g.txackmask ∧
        ∀ m, g.txevtseq ≤ m → m < g.txevtseq + k → env.Transmits (.expire m) →
          Fresh N ((expireOne env)^[k] g) := by
    intro k
    induction k with
    | zero => exact fun g _ hg _ => ⟨.refl hg, rfl, rfl, fun m h1 h2 => by omega⟩
    | succ k ih =>
      intro g hB hg hk
      have hlow : g.txevtseq + maskBits ≤ g.txackseq := by have := hk (Nat.succ_pos k); omega
      obtain ⟨h1, h2, h3, h4, h5, hm, h6⟩ := expireOne_keeps hB hg hlow
      obtain ⟨h7, h8, hm', h9⟩ := ih _ h1 h2.sized fun _ => by have := hk (Nat.succ_pos k); omega
      rw [Function.iterate_succ_apply]
      refine ⟨h2.trans h7 fun _ h => h.elim, h8.trans h5, hm'.trans hm, fun m hm1 hm2 ht => ?_⟩
      rcases hm1.eq_or_lt with rfl | hlt
      · exact h7.fresh (fun _ h => h.elim) (h6 ht)
      · exact h9 m (by omega) (by omega) ht
  unfold collect
  split_ifs with h
  · obtain ⟨h1, h2, hm, h3⟩ := key (f.txackseq - maskBits + 1 - f.txevtseq) f hB hf fun _ =>
      by omega
    exact ⟨h1, h2, hm, fun m hm1 hm2 _ => h3 m hm1 (by omega)⟩
  · exact ⟨.refl hf, rfl, rfl, fun m _ _ h' => absurd h' h⟩

/-- A counter of packets in flight that is not zero. -/
theorem Balanced.inFlight (hB : f.Balanced) (h : f.txfltcnt ≠ 0#32) : f.InFlight := by
  have hcnt : f.txfltcnt = BitVec.ofNat 32 (f.txevts.countP TxEvent.pipe) := hB.1.cnt
  have hpos : 0 < f.txevts.countP TxEvent.pipe := by
    refine Nat.pos_of_ne_zero fun h0 => h ?_
    rw [hcnt, h0]
  obtain ⟨e, he, hp⟩ := List.countP_pos_iff.mp hpos
  obtain ⟨i, hi, hget⟩ := List.getElem_of_mem he
  refine ⟨f.txevtseq + i, inPipe_iff.mpr ⟨Nat.le_add_right _ _, e, ?_, hp⟩⟩
  change f.txevts[f.txevtseq + i - f.txevtseq]? = some e
  rw [Nat.add_sub_cancel_left, List.getElem?_eq_getElem hi, hget]

theorem Balanced.txfltcnt (hB : f.Balanced) (h : ¬f.InFlight) : f.txfltcnt = 0#32 :=
  Decidable.byContradiction fun h' => h (hB.inFlight h')

/-- The packets newly acknowledged by a word for `ackseq`. -/
def newSpan (ackseq newpackets : ℕ) : Set ℕ := span (ackseq - newpackets + 1) newpackets

/-- The packets that are inferred lost. -/
def lossSpan (f : Flow) (ackseq ackdiff newpackets : ℕ) : Set ℕ :=
  span (f.missseq ackseq ackdiff) (f.misslim ackseq newpackets + 1 - f.missseq ackseq ackdiff)

theorem lossSpan_le {f : Flow} {ackseq ackdiff newpackets m : ℕ}
    (hm : m ∈ f.lossSpan ackseq ackdiff newpackets) :
    m ≤ ackseq - min ackseq (max f.missthresh newpackets) := by
  obtain ⟨h1, h2⟩ : f.missseq ackseq ackdiff ≤ m ∧ m < f.missseq ackseq ackdiff +
    (f.misslim ackseq newpackets + 1 - f.missseq ackseq ackdiff) := hm
  unfold misslim at h2
  omega

/-- **The loops over newly acknowledged and lost packets.** -/
theorem losses_turns (hf : Sized N f) (pktseq ackseq ackdiff newpackets : ℕ) (hlt : ackseq < N)
    {g : Flow} (hg : (f.rollAcks env pktseq ackseq ackdiff newpackets).inferLosses env ackseq
      ackdiff newpackets = g) (hnew : newpackets ≤ ackseq) :
    Keeps N (newSpan ackseq newpackets ∪ f.lossSpan ackseq ackdiff newpackets) f g ∧
      g.txevtseq = f.txevtseq ∧ g.linkstat = f.linkstat ∧
      g.txackmask = f.rolledMask ackdiff newpackets ∧
      (∀ m ∈ newSpan ackseq newpackets, g.kept.inPipe m = false ∧
        (env.Transmits (.acked m pktseq) → f.kept.inPipe m = true → Fresh N g)) ∧
      ∀ m ∈ f.lossSpan ackseq ackdiff newpackets, g.kept.inPipe m = false ∧
        (m ∉ newSpan ackseq newpackets → env.Transmits (.missed m) → f.kept.inPipe m = true →
          Fresh N g) := by
  obtain ⟨mask, hmask, hroll⟩ : ∃ mask, f.rolledMask ackdiff newpackets = mask ∧
      f.rollAcks env pktseq ackseq ackdiff newpackets =
        (f.rollWindow ackseq mask).ackRange env pktseq (ackseq - newpackets + 1) newpackets :=
    ⟨_, rfl, rfl⟩
  rw [hroll] at hg
  have h0 : Keeps N ∅ f (f.rollWindow ackseq mask) := .same hf rfl rfl rfl id
  have hA₁ : ∀ m ∈ newSpan ackseq newpackets, m < N := fun m hm => by
    have := hm.2
    omega
  obtain ⟨h1, h2⟩ := ackRange_turns pktseq (ackseq - newpackets + 1) newpackets
    (by omega) h0.sized
  have ha₁ := ackRange_acts (sound_exits env) not_false (f.rollWindow ackseq mask) pktseq
    (ackseq - newpackets + 1) newpackets (.inl trivial) fun _ _ _ => Set.mem_univ _
  generalize (f.rollWindow ackseq mask).ackRange env pktseq (ackseq - newpackets + 1) newpackets =
    f₂ at hg h1 h2 ha₁
  have hs₁ := ha₁.still ActScope.idle_exits
  have hA₂ : ∀ m ∈ f.lossSpan ackseq ackdiff newpackets, m < N := fun m hm =>
    ((lossSpan_le hm).trans (Nat.sub_le _ _)).trans_lt hlt
  dsimp only [inferLosses, missseq, misslim] at hg
  rw [show f₂.missthresh = f.missthresh from hs₁.missthresh] at hg
  generalize hlo : ackseq - min ackseq (f.missthresh + ackdiff - 1) = lo at hg
  generalize hhi : ackseq - min ackseq (max f.missthresh newpackets) + 1 - lo = k at hg
  have hspan : f.lossSpan ackseq ackdiff newpackets = span lo k := by
    rw [← hhi, ← hlo]
    rfl
  rw [hspan] at hA₂ ⊢
  have ha₂ := missRange_acts (sound_exits env) not_false trivial f₂ lo k (.inl trivial)
    fun _ _ _ => Set.mem_univ _
  obtain ⟨h3, h4⟩ := missRange_turns lo k (by omega) h1.sized
  rw [hg] at h3 h4 ha₂
  have hs₂ := ha₂.still ActScope.idle_exits
  have hmask₂ := (ha₂.txackmask ActScope.idle_exits id).trans (ha₁.txackmask ActScope.idle_exits id)
  have hA : ∀ m ∈ newSpan ackseq newpackets ∪ span lo k, m < N :=
    fun m hm => hm.elim (hA₁ m) (hA₂ m)
  refine ⟨((h0.mono (Set.empty_subset _)).trans (h1.mono Set.subset_union_left) hA).trans
    (h3.mono Set.subset_union_right) hA, hs₂.txevtseq.trans hs₁.txevtseq,
    hs₂.linkstat.trans hs₁.linkstat,
    hmask₂.trans hmask.symm, fun m hm => ⟨?_, fun ht hp => ?_⟩, fun m hm => ⟨(h4 m hm).1,
      fun hn ht hp => (h4 m hm).2 ht (h1.stays m hn (h0.stays m id hp))⟩⟩
  · refine Bool.eq_false_iff.mpr fun hin => ?_
    cases (h3.old m (hA₁ m hm) hin).symm.trans (h2 m hm).1
  · exact h3.fresh hA₂ ((h2 m hm).2 ht (h0.stays m id hp))

/-- **New acknowledgments**: what stays in the pipe, which reports make the upper layer transmit,
and the timer, which then runs only while data is in flight. -/
structure NewAcked (N : ℕ) (env : Env) (pktseq ackseq ackdiff newpackets : ℕ) (f g : Flow) :
    Prop where
  sized : Sized N g
  stays : ∀ m, m ∉ newSpan ackseq newpackets → m ∉ f.lossSpan ackseq ackdiff newpackets →
    f.kept.inPipe m = true → g.kept.inPipe m = true
  old : ∀ m, m < N → g.kept.inPipe m = true → f.kept.inPipe m = true ∧
    m ∉ newSpan ackseq newpackets ∧ m ∉ f.lossSpan ackseq ackdiff newpackets
  acked : ∀ m ∈ newSpan ackseq newpackets, env.Transmits (.acked m pktseq) →
    f.kept.inPipe m = true → Fresh N g
  missed : ∀ m ∈ f.lossSpan ackseq ackdiff newpackets, m ∉ newSpan ackseq newpackets →
    env.Transmits (.missed m) → f.kept.inPipe m = true → Fresh N g
  expired : ∀ m, f.txevtseq ≤ m → m + maskBits ≤ ackseq → maskBits < ackseq →
    env.Transmits (.expire m) → Fresh N g
  linkUp : f.linkstat ≠ .up → env.Transmits (.linkStatus .up) → Fresh N g
  mask : g.txackmask = f.rolledMask ackdiff newpackets
  timer : g.rtxtimer = true → g.InFlight

theorem ackNew_turns (hB : f.Balanced) (hf : Sized N f) (pktseq ackseq ackdiff ackct : ℕ)
    (hd0 : 0 < ackdiff) (hd : ackseq = f.txackseq + ackdiff) (hlt : ackseq < N) :
    NewAcked N env pktseq ackseq ackdiff (min ackdiff (ackct + 1)) f
      (f.ackNew env pktseq ackseq ackdiff ackct).1 := by
  have hB' := (ackNew_balanced env hB pktseq ackseq ackdiff ackct hd0 hd (hlt.trans_le hf.le)).1
  obtain ⟨hB₁, hs₁⟩ := losses_balanced env hB pktseq ackseq ackdiff ackct hd0 hd
    (hlt.trans_le hf.le)
  dsimp only [ackNew] at hB' ⊢
  generalize hnp : min ackdiff (ackct + 1) = np at hB' hB₁ hs₁ ⊢
  obtain ⟨h1, h2, h3, hm₁, h4, h5⟩ := losses_turns hf pktseq ackseq ackdiff np hlt rfl
    (by omega)
  generalize (f.rollAcks env pktseq ackseq ackdiff np).inferLosses env ackseq ackdiff np = g₁
    at hB' hB₁ hs₁ h1 h2 h3 hm₁ h4 h5 ⊢
  obtain ⟨h6, h7, hm₂, h8⟩ := collect_keeps hB₁ h1.sized
  obtain ⟨h9, hm₃, h10⟩ := setLinkStatus_keeps h6.sized .up
  have h11 := h6.trans h9 fun _ h => h.elim
  have hno : ∀ n ∈ (∅ : Set ℕ), n < N := fun _ h => h.elim
  -- the timer is set last, and leaves the pipe alone
  have hpipe : ∀ m, (g₁.progress env).kept.inPipe m =
      ((g₁.collect env).setLinkStatus env .up).kept.inPipe m := fun _ => rfl
  have hfresh : Fresh N g₁ → Fresh N (g₁.progress env) := h11.fresh hno
  refine ⟨⟨h11.sized.len, h11.sized.le⟩, fun m hm1 hm2 hp => ?_, fun m hm hp => ?_,
    fun m hm ht hp => hfresh ((h4 m hm).2 ht hp),
    fun m hm hn ht hp => hfresh ((h5 m hm).2 hn ht hp),
    fun m hm1 hm2 hm3 ht => ?_, fun hl ht => ?_, (hm₃.trans hm₂).trans hm₁, fun ht => ?_⟩
  · exact h11.stays m id (h1.stays m (fun h => h.elim hm1 hm2) hp)
  · have hp₁ := h11.old m hm hp
    refine ⟨h1.old m hm hp₁, fun h => ?_, fun h => ?_⟩
    · cases hp₁.symm.trans (h4 m h).1
    · cases hp₁.symm.trans (h5 m h).1
  · exact h9.fresh hno (h8 m (h2.symm ▸ hm1) (hs₁.symm ▸ hm2) (hs₁.symm ▸ hm3) ht)
  · exact h10 (.inl (by rw [h7, h3]; exact hl)) ht
  · refine hB'.inFlight ?_
    exact of_decide_eq_true ht

/-! ## Delivery -/

/-- The flow may transmit when nothing is in flight. -/
structure Ready (env : Env) (f : Flow) : Prop where
  sock : f.nocc = true → 0 < env.sockMay
  cwnd : f.nocc = false → 0 < f.cwnd.toNat ∧ f.cwnd.toNat + 33 < 2 ^ 32

theorem Act.ready {S : ActScope} (h : Act S f g) (hf : Ready env f) : Ready env g := by
  cases h with
  | cut _ seq e =>
    have hl : Ready env (f.leavePipe seq e) := ⟨hf.sock, hf.cwnd⟩
    have ht := ccMissed_tuned (f.leavePipe seq e) seq
    obtain ⟨h1, h2⟩ : Ready env ((f.leavePipe seq e).ccMissed seq) := by
      refine ⟨fun h => hl.sock (ht.nocc ▸ h), fun h => ?_⟩
      obtain ⟨h1, h2⟩ := hl.cwnd (ht.nocc ▸ h)
      have := ht.wide h1 (by omega)
      omega
    exact ⟨h1, h2⟩
  | grow _ _ env' ackseq n hn =>
    have ht := ccReceived_tuned f env' ackseq n
    have hle : (f.ccReceived env' ackseq n).cwnd.toNat ≤ 2 ^ 20 := by
      dsimp only [ccReceived]
      rw [toNat_qMin]
      exact min_le_right _ _
    refine ⟨fun h => hf.sock (ht.nocc ▸ h), fun h => ?_⟩
    obtain ⟨h1, h2⟩ := hf.cwnd (ht.nocc ▸ h)
    have := ht.wide h1 (by omega)
    omega
  | timeout _ => exact ⟨hf.sock, fun _ => by change 0 < 2 ∧ 2 + 33 < 2 ^ 32; decide⟩
  | _ => exact ⟨hf.sock, hf.cwnd⟩

theorem Acts.ready {S : ActScope} (h : Acts S f g) (hf : Ready env f) : Ready env g :=
  h.invariant (P := Ready env) (fun _ _ hab ha => hab.ready ha) hf

theorem Ready.mayTransmit (hf : Ready env f) (h : f.txfltcnt = 0#32) :
    (f.mayTransmit env).2 = true := by
  unfold Flow.mayTransmit
  cases hn : f.nocc with
  | true => exact decide_eq_true (hf.sock hn)
  | false =>
    have hlt : f.txfltcnt < f.cwnd := by
      rw [BitVec.lt_def, h]
      exact (hf.cwnd hn).1
    rw [if_neg Bool.false_ne_true, if_pos hlt]

theorem deliver_keeps (hf : Sized N f) (pktseq newpackets : ℕ) :
    Keeps N ∅ f (f.deliver env pktseq newpackets) ∧
      (env.Transmits (.received pktseq) → Fresh N (f.deliver env pktseq newpackets)) := by
  have hno : ∀ n ∈ (∅ : Set ℕ), n < N := fun _ h => h.elim
  refine ⟨Acts.callingKeeps (deliver_acts (sound_calling env) f pktseq newpackets
    fun _ => Set.mem_univ _) hf, fun ht => ?_⟩
  have h1 := raise_fresh hf (.received pktseq) ht
  have h2 : Fresh N (f.passUp env pktseq) ∧ Sized N (f.passUp env pktseq) := by
    have hr : Keeps N ∅ f (f.raise env (.received pktseq)) := raise_keeps hf _
    dsimp only [passUp]
    split_ifs
    · have hc : Keeps N ∅ (f.raise env (.received pktseq))
          ((f.raise env (.received pktseq)).call env (.acknowledge pktseq true)) :=
        call_keeps hr.sized _
      exact ⟨hc.fresh hno h1, hc.sized⟩
    · exact ⟨h1, hr.sized⟩
  dsimp only [deliver]
  split_ifs
  · exact h2.1
  · exact (Acts.callingKeeps (signalReady_acts (sound_calling env) _) h2.2).fresh hno h2.1

theorem deliver_ready (hB : f.Balanced) (hf : Sized N f) (hr : Ready env f) (pktseq : ℕ)
    {newpackets : ℕ} (hn : newpackets ≠ 0) (ht : env.Transmits .readyTransmit) :
    (f.deliver env pktseq newpackets).InFlight := by
  have hB₁ : (f.passUp env pktseq).Balanced := (passUp_acts (S := still.full) (sound_still env) f
    pktseq fun _ => Set.mem_univ _).path.balanced (fun _ => id) not_false hB
  have hacts := passUp_acts (sound_calling env) f pktseq fun _ => Set.mem_univ _
  have hs₁ := (hacts.callingKeeps hf).sized
  have hr₁ := hacts.ready hr
  dsimp only [deliver]
  rw [if_neg hn]
  generalize f.passUp env pktseq = g at hB₁ hs₁ hr₁ ⊢
  have hk := Acts.callingKeeps (signalReady_acts (sound_calling env) g) hs₁
  by_cases hin : g.InFlight
  · exact hin.imp fun n h => hk.stays n id h
  · have hmay := hr₁.mayTransmit (hB₁.txfltcnt hin)
    have hs₂ : Sized N (g.call env .mayTransmit) := (call_keeps hs₁ .mayTransmit).sized
    unfold signalReady
    rw [if_pos hmay]
    exact (raise_fresh hs₂ .readyTransmit ht).inFlight

theorem straggle_idle (f : Flow) (pktseq back ackct newpackets : ℕ) :
    newpackets ≤ (f.straggle env pktseq back ackct newpackets).2 ∧
      ((f.straggle env pktseq back ackct newpackets).2 = newpackets →
        (f.straggle env pktseq back ackct newpackets).1 = f) := by
  have key : ∀ (l : List ℕ) (st : Flow × ℕ),
      st.2 ≤ (l.foldl (straggleOne env pktseq) st).2 ∧
        ((l.foldl (straggleOne env pktseq) st).2 = st.2 →
          l.foldl (straggleOne env pktseq) st = st) := by
    intro l
    induction l with
    | nil => exact fun st => ⟨le_rfl, fun _ => rfl⟩
    | cons bit l ih =>
      intro st
      obtain ⟨h1, h2⟩ := ih (straggleOne env pktseq st bit)
      have h3 : straggleOne env pktseq st bit = st ∨
          (straggleOne env pktseq st bit).2 = st.2 + 1 := by
        dsimp only [straggleOne]
        split_ifs
        · exact .inl rfl
        · exact .inl rfl
        · exact .inr rfl
        · exact .inr rfl
      rw [List.foldl_cons]
      rcases h3 with h3 | h3
      · rw [h3] at h1 h2 ⊢
        exact ⟨h1, h2⟩
      · exact ⟨by omega, fun h => by omega⟩
  dsimp only [straggle]
  split_ifs
  · exact ⟨(key _ (f, newpackets)).1, fun h => by rw [(key _ (f, newpackets)).2 h]⟩
  · exact ⟨le_rfl, fun _ => rfl⟩

end Turns

/-! ## Reception -/

/-- The acknowledgment word covers packet `n`. -/
def Covers (f : Flow) (packseq : BitVec 32) (n : ℕ) : Prop :=
  n ∈ covered (f.ackSeq packseq) (ackctOf packseq)

/-- Packet `n` is in the range of losses inferred from the acknowledgment word. -/
def Lost (f : Flow) (packseq : BitVec 32) (n : ℕ) : Prop :=
  0 < f.ackDiff packseq ∧ n ∈ f.lossSpan (f.ackSeq packseq) (f.ackDiff packseq).toNat
    (min (f.ackDiff packseq).toNat (ackctOf packseq + 1))

/-- An acknowledgment word that does not leave the timer running over an empty pipe: the straggler
block is skipped, or finds nothing in flight; or a packet stays in flight, or its report makes the
upper layer transmit; or the upper layer transmits from another report of this reception. -/
inductive ReceiveSafe (env : Env) (f : Flow) (packseq : BitVec 32) (pktseq : ℕ) : Prop
  | known (h : f.maskAfter packseq &&& countMask packseq = countMask packseq)
  | quiet (h : ∀ n, f.kept.inPipe n = true → f.Covers packseq n → n ≤ f.txackseq → f.Lost packseq n)
  | stays (n : ℕ) (hn : f.kept.inPipe n = true)
      (hc : f.Covers packseq n → ¬f.Lost packseq n → env.Transmits (.acked n pktseq))
      (hl : f.Lost packseq n → env.Transmits (.missed n))
  | received (h : env.Transmits (.received pktseq))
  | linkUp (hd : 0 < f.ackDiff packseq) (hl : f.linkstat ≠ .up)
      (h : env.Transmits (.linkStatus .up))
  | expired (hd : 0 < f.ackDiff packseq) (n : ℕ) (h1 : f.txevtseq ≤ n)
      (h2 : n + maskBits ≤ f.ackSeq packseq) (h3 : maskBits < f.ackSeq packseq)
      (h : env.Transmits (.expire n))
  | ready (h : env.Transmits .readyTransmit) (hr : Ready env f)

/-- The acknowledgment part of a reception. -/
structure Acked (N : ℕ) (env : Env) (packseq : BitVec 32) (pktseq : ℕ) (f : Flow) (st : Flow × ℕ) :
    Prop where
  sized : Sized N st.1
  known : f.maskAfter packseq &&& countMask packseq = countMask packseq →
    st.1.rtxtimer = true → st.1.InFlight
  quiet : (∀ n, f.kept.inPipe n = true → f.Covers packseq n → n ≤ f.txackseq →
    f.Lost packseq n) → st.1.rtxtimer = true → st.1.InFlight
  stays : ∀ n, f.kept.inPipe n = true →
    (f.Covers packseq n → ¬f.Lost packseq n → env.Transmits (.acked n pktseq)) →
    (f.Lost packseq n → env.Transmits (.missed n)) →
    st.1.kept.inPipe n = true ∨ Fresh N st.1
  linkUp : 0 < f.ackDiff packseq → f.linkstat ≠ .up → env.Transmits (.linkStatus .up) →
    Fresh N st.1
  expired : 0 < f.ackDiff packseq → ∀ n, f.txevtseq ≤ n → n + maskBits ≤ f.ackSeq packseq →
    maskBits < f.ackSeq packseq → env.Transmits (.expire n) → Fresh N st.1
  zero : st.2 = 0 → st.1 = f

section Receive

variable {env : Env} {packseq : BitVec 32} {pktseq : ℕ}

theorem acked_old (hB : f.Balanced) (hP : f.rtxtimer = true → f.InFlight)
    (hseq : (f.ackSeq packseq : ℤ) = f.txackseq + f.ackDiff packseq)
    (hd : ¬0 < f.ackDiff packseq) :
    Acked f.txseq env packseq pktseq f
      (f.straggle env pktseq (-f.ackDiff packseq).toNat (ackctOf packseq) 0) := by
  have hf : Sized f.txseq f := ⟨hB.1.len, le_rfl⟩
  have hack : f.txackseq < f.txseq := hB.1.ack
  obtain ⟨h1, h2⟩ := straggle_turns hf hack pktseq (-f.ackDiff packseq).toNat
    (ackctOf packseq) 0
  have hlost : ∀ n, ¬f.Lost packseq n := fun n h => hd h.1
  have hcov : ∀ n, (∃ bit, (-f.ackDiff packseq).toNat ≤ bit ∧
      bit ≤ (-f.ackDiff packseq).toNat + ackctOf packseq ∧ n + bit = f.txackseq) →
      f.Covers packseq n ∧ n ≤ f.txackseq := by
    rintro n ⟨bit, hb1, hb2, hb3⟩
    exact ⟨⟨by omega, by omega⟩, by omega⟩
  refine ⟨h1.sized, fun hk => ?_, fun hq ht => ?_, fun n hn hc _ => ?_, fun h => absurd h hd,
    fun h => absurd h hd, (straggle_idle f pktseq _ _ 0).2⟩
  · rw [maskAfter, if_neg hd] at hk
    rw [straggle_known hk]
    exact hP
  · rcases h1.timer ht with ht | hfresh
    · obtain ⟨n, hn⟩ := hP ht
      refine ⟨n, h1.stays n (fun hmem => ?_) hn⟩
      obtain ⟨hc1, hc2⟩ := hcov n hmem
      exact hlost n (hq n hn hc1 hc2)
    · exact hfresh.inFlight
  · by_cases hmem : ∃ bit, (-f.ackDiff packseq).toNat ≤ bit ∧
        bit ≤ (-f.ackDiff packseq).toNat + ackctOf packseq ∧ n + bit = f.txackseq
    · exact h2 n (hc (hcov n hmem).1 (hlost n)) hn
    · exact .inl (h1.stays n hmem hn)

theorem acked_new (hB : f.Balanced)
    (hseq : (f.ackSeq packseq : ℤ) = f.txackseq + f.ackDiff packseq)
    (hlt : f.ackSeq packseq < f.txseq) (hd : 0 < f.ackDiff packseq) :
    Acked f.txseq env packseq pktseq f
      ((f.ackNew env pktseq (f.ackSeq packseq) (f.ackDiff packseq).toNat
        (ackctOf packseq)).1.straggle env pktseq 0 (ackctOf packseq)
        (min (f.ackDiff packseq).toNat (ackctOf packseq + 1))) := by
  have hf : Sized f.txseq f := ⟨hB.1.len, le_rfl⟩
  have hnew : NewAcked f.txseq env pktseq (f.ackSeq packseq) (f.ackDiff packseq).toNat
      (min (f.ackDiff packseq).toNat (ackctOf packseq + 1)) f
      (f.ackNew env pktseq (f.ackSeq packseq) (f.ackDiff packseq).toNat (ackctOf packseq)).1 :=
    ackNew_turns hB hf pktseq _ _ _ (by omega) (by omega) hlt
  have hs := (ackNew_balanced env hB pktseq (f.ackSeq packseq) (f.ackDiff packseq).toNat
    (ackctOf packseq) (by omega) (by omega) hlt).2
  have hlost : ∀ n, f.Lost packseq n ↔ n ∈ f.lossSpan (f.ackSeq packseq)
      (f.ackDiff packseq).toNat (min (f.ackDiff packseq).toNat (ackctOf packseq + 1)) :=
    fun n => and_iff_right hd
  have hnp : 0 < min (f.ackDiff packseq).toNat (ackctOf packseq + 1) := by omega
  have hcnt : ∀ g : Flow, (g.straggle env pktseq 0 (ackctOf packseq)
      (min (f.ackDiff packseq).toNat (ackctOf packseq + 1))).2 ≠ 0 := fun g =>
    (hnp.trans_le (straggle_idle g pktseq 0 _ _).1).ne'
  generalize (f.ackNew env pktseq (f.ackSeq packseq) (f.ackDiff packseq).toNat
    (ackctOf packseq)).1 = g at hnew hs ⊢
  generalize hk : min (f.ackDiff packseq).toNat (ackctOf packseq + 1) = np at *
  obtain ⟨h1, h2⟩ := straggle_turns hnew.sized (hs ▸ hlt) pktseq 0
    (ackctOf packseq) np
  rw [hs] at h1
  have hcov : ∀ n, (∃ bit, 0 ≤ bit ∧ bit ≤ 0 + ackctOf packseq ∧ n + bit = f.ackSeq packseq) ↔
      f.Covers packseq n := by
    intro n
    constructor
    · rintro ⟨bit, hb1, hb2, hb3⟩
      exact ⟨by omega, by omega⟩
    · rintro ⟨hn1, hn2⟩
      exact ⟨f.ackSeq packseq - n, by omega, by omega, by omega⟩
  have hA : ∀ n ∈ ({n | ∃ bit, 0 ≤ bit ∧ bit ≤ 0 + ackctOf packseq ∧
      n + bit = f.ackSeq packseq} : Set ℕ), n < f.txseq := fun n hn =>
    ((hcov n).mp hn).1.trans_lt hlt
  refine ⟨h1.sized, fun hm => ?_, fun hq ht => ?_, fun n hn hc hl => ?_,
    fun _ hl ht => h1.fresh hA (hnew.linkUp hl ht),
    fun _ n hn1 hn2 hn3 ht => h1.fresh hA (hnew.expired n hn1 hn2 hn3 ht),
    fun h => absurd h (hcnt g)⟩
  · rw [maskAfter, if_pos hd, hk, ← hnew.mask] at hm
    rw [straggle_known hm]
    exact hnew.timer
  · rcases h1.timer ht with ht | hfresh
    · obtain ⟨n, hn⟩ := hnew.timer ht
      refine ⟨n, h1.stays n (fun hmem => ?_) hn⟩
      obtain ⟨hold, hn1, hn2⟩ := hnew.old n (hA n hmem) hn
      have hc := (hcov n).mp hmem
      refine hn2 ((hlost n).mp (hq n hold hc ?_))
      by_contra hgt
      exact hn1 ⟨by have := hc.2; omega, by have := hc.1; omega⟩
    · exact hfresh.inFlight
  · by_cases hn1 : n ∈ newSpan (f.ackSeq packseq) np
    · have hcn : f.Covers packseq n := ⟨by have := hn1.1; have := hn1.2; omega,
        by have := hn1.1; omega⟩
      have hln : ¬f.Lost packseq n := by
        rw [hlost]
        intro hl
        have := lossSpan_le hl
        have := hn1.1
        omega
      exact .inr (h1.fresh hA (hnew.acked n hn1 (hc hcn hln) hn))
    · by_cases hn2 : n ∈ f.lossSpan (f.ackSeq packseq) (f.ackDiff packseq).toNat np
      · exact .inr (h1.fresh hA (hnew.missed n hn2 hn1 (hl ((hlost n).mpr hn2)) hn))
      · have hstay := hnew.stays n hn1 hn2 hn
        by_cases hcn : f.Covers packseq n
        · exact h2 n (hc hcn fun h => hn2 ((hlost n).mp h)) hstay
        · exact .inl (h1.stays n (fun hmem => hcn ((hcov n).mp hmem)) hstay)

/-- **An authenticated packet.** -/
theorem process_timer (hB : f.Balanced) (hP : f.rtxtimer = true → f.InFlight)
    (hmax : f.txseq ≤ maxPacketSeq) (hc : f.CoversSent packseq) (hlt : f.ackSeq packseq < f.txseq)
    (hsafe : ReceiveSafe env f packseq pktseq) :
    (f.process env packseq pktseq).rtxtimer = true → (f.process env packseq pktseq).InFlight := by
  have hB₁ : (f.ackReceived env pktseq (f.ackSeq packseq) (f.ackDiff packseq)
      (ackctOf packseq)).1.Balanced := ackReceived_balanced hB packseq pktseq hmax hc
  have hacts : Acts .any f (f.ackReceived env pktseq (f.ackSeq packseq) (f.ackDiff packseq)
      (ackctOf packseq)).1 := ackReceived_acts (sound_any env) trivial trivial ActScope.open_any
    pktseq f _ _ _ trivial (.inl Set.mem_univ)
  have hcount : (f.ackReceived env pktseq (f.ackSeq packseq) (f.ackDiff packseq)
      (ackctOf packseq)).2 ≤ 32 := ackReceived_count f pktseq _ _ (ackctOf_le packseq)
  have hseq := hc.ackSeq hmax
  dsimp only [process]
  rw [if_neg hlt.not_ge]
  have hA : Acked f.txseq env packseq pktseq f
      (f.ackReceived env pktseq (f.ackSeq packseq) (f.ackDiff packseq) (ackctOf packseq)) := by
    unfold ackReceived
    split_ifs with hd
    · exact acked_new hB hseq hlt hd
    · exact acked_old hB hP hseq hd
  generalize f.ackReceived env pktseq (f.ackSeq packseq) (f.ackDiff packseq) (ackctOf packseq) = st
    at hA hB₁ hacts hcount ⊢
  obtain ⟨g, np⟩ := st
  have hno : ∀ n ∈ (∅ : Set ℕ), n < f.txseq := fun _ h => h.elim
  have hcc : Keeps f.txseq ∅ g (g.ccReceived env (f.ackSeq packseq) np) :=
    .tuned hA.sized (ccReceived_tuned g env _ _)
  obtain ⟨hk, hrecv⟩ := deliver_keeps hcc.sized pktseq np
  have hkeep := hcc.trans hk hno
  have hfresh : Fresh f.txseq g →
      ((g.ccReceived env (f.ackSeq packseq) np).deliver env pktseq np).InFlight := fun h =>
    (hkeep.fresh hno h).inFlight
  have hend : (g.rtxtimer = true → g.InFlight) →
      ((g.ccReceived env (f.ackSeq packseq) np).deliver env pktseq np).rtxtimer = true →
      ((g.ccReceived env (f.ackSeq packseq) np).deliver env pktseq np).InFlight := by
    intro h ht
    rcases hkeep.timer ht with ht | hf
    · exact (h ht).imp fun n hn => hkeep.stays n id hn
    · exact hf.inFlight
  cases hsafe with
  | known h => exact hend (hA.known h)
  | quiet hq => exact hend (hA.quiet hq)
  | stays n hn hc hl =>
    rcases hA.stays n hn hc hl with h | h
    · exact fun _ => ⟨n, hkeep.stays n id h⟩
    · exact fun _ => hfresh h
  | received ht => exact fun _ => (hrecv ht).inFlight
  | linkUp hd hl ht => exact fun _ => hfresh (hA.linkUp hd hl ht)
  | expired hd n h1 h2 h3 ht => exact fun _ => hfresh (hA.expired hd n h1 h2 h3 ht)
  | ready ht hr =>
    by_cases h0 : np = 0
    · exact hend fun ht => by
        have hg : g = f := hA.zero h0
        rw [hg] at ht ⊢
        exact hP ht
    · have hgrow : Ready env (g.ccReceived env (f.ackSeq packseq) np) :=
        (hacts.tail (.grow trivial trivial env (f.ackSeq packseq) np hcount)).ready hr
      exact fun _ => deliver_ready (ccReceived_balanced env hB₁ _ _) hcc.sized hgrow pktseq h0 ht

end Receive

/-! ## Runs -/

/-- The operations that leave the timer running only while data is in flight: at a start, data is
in flight already or the upper layer transmits; after a timeout it transmits; and the acknowledgment
word of a packet that is not dropped covers only transmitted packets and is safe. -/
def TimerSafe (env : Env) (f : Flow) : Op → Prop
  | .start => f.InFlight ∨ env.Transmits .readyTransmit ∨
      f.linkstat ≠ .up ∧ env.Transmits (.linkStatus .up)
  | .rtxTimeout fail => env.Transmits .readyTransmit ∨
      (∃ n, f.kept.inPipe n = true ∧ env.Transmits (.missed n)) ∨
      (fail = false ∨ f.linkstat ≠ .down) ∧
        env.Transmits (.linkStatus (if fail then .down else .stalled))
  | .receive pkt => f.active = true → hdrlen ≤ pkt.size →
      ∀ a, f.toRxState.accept pkt = some a → f.ackSeq pkt.packseq < f.txseq →
      (f.txseq ≤ maxPacketSeq ∧ f.CoversSent pkt.packseq) ∧ ReceiveSafe env f pkt.packseq a.1
  | _ => True

theorem Keeps.timed (h : Keeps N ∅ f g) (hP : f.rtxtimer = true → f.InFlight) :
    g.rtxtimer = true → g.InFlight := by
  intro ht
  rcases h.timer ht with ht | hf
  · exact (hP ht).imp fun n hn => h.stays n id hn
  · exact hf.inFlight

theorem start_timer {env : Env} (hf : Sized f.txseq f) (hs : TimerSafe env f .start) :
    (f.start env).InFlight := by
  have hno : ∀ n ∈ (∅ : Set ℕ), n < f.txseq := fun _ h => h.elim
  set f₁ : Flow := { f with active := true, nocc := f.nocc || env.sockCC, rtxtimer := true }
  have hf₁ : Sized f.txseq f₁ := ⟨hf.len, hf.le⟩
  have h1 : Keeps f.txseq ∅ f₁ (f₁.raise env .readyTransmit) := raise_keeps hf₁ _
  have hl : (f₁.raise env .readyTransmit).linkstat = f.linkstat :=
    ((raise_acts (sound_calling env) f₁ .readyTransmit).still ActScope.idle_calling).linkstat
  obtain ⟨h2, -, h3⟩ := setLinkStatus_keeps h1.sized .up
  have hk := h1.trans h2 hno
  change ((f₁.raise env .readyTransmit).setLinkStatus env .up).InFlight
  rcases hs with h | h | ⟨h, ht⟩
  · exact h.imp fun n hn => hk.stays n id hn
  · exact (h2.fresh hno (raise_fresh hf₁ _ h)).inFlight
  · exact (h3 (.inl (hl ▸ h)) ht).inFlight

theorem rtxTimeout_timer {env : Env} (hf : Sized f.txseq f) (fail : Bool)
    (hs : TimerSafe env f (.rtxTimeout fail)) : (f.rtxTimeout env fail).InFlight := by
  have hno : ∀ n ∈ (∅ : Set ℕ), n < f.txseq := fun _ h => h.elim
  have hspan : ∀ g : Flow, Sized f.txseq g → g.txevtseq = f.txevtseq → g.txseq = f.txseq →
      g.linkstat = f.linkstat → (∀ n, g.kept.inPipe n = f.kept.inPipe n) → ∀ ok,
      (((((List.range' g.txevtseq (g.txseq - g.txevtseq)).foldl (rtoOne env) g).check
        ok).raise env .readyTransmit).setLinkStatus env
          (if fail then .down else .stalled)).InFlight := by
    intro g hg h1 h2 hl hp ok
    have hlen := hg.len
    obtain ⟨h3, h4⟩ := range_turns (fun _ m hm hg => rtoOne_turn hm hg) g.txevtseq
      (g.txseq - g.txevtseq) (by omega) hg
    have h5 : Still g ((List.range' g.txevtseq (g.txseq - g.txevtseq)).foldl (rtoOne env) g) :=
      (range_acts not_false _ _ (fun _ m => rtoOne_acts (sound_exits env) m) (.inl trivial)
        fun m _ _ => Set.mem_univ m).still ActScope.idle_exits
    generalize (List.range' g.txevtseq (g.txseq - g.txevtseq)).foldl (rtoOne env) g =
      k at h3 h4 h5 ⊢
    have hk : Sized f.txseq (k.check ok) := ⟨h3.sized.len, h3.sized.le⟩
    have h6 : Keeps f.txseq ∅ (k.check ok) ((k.check ok).raise env .readyTransmit) :=
      raise_keeps hk _
    have h7 : ((k.check ok).raise env .readyTransmit).linkstat = f.linkstat :=
      (((raise_acts (sound_calling env) (k.check ok) .readyTransmit).still
        ActScope.idle_calling).linkstat.trans h5.linkstat).trans hl
    obtain ⟨h8, -, h9⟩ := setLinkStatus_keeps h6.sized (if fail then .down else .stalled)
    rcases hs with ht | ⟨n, hn, ht⟩ | ⟨hfail, ht⟩
    · exact (h8.fresh hno (raise_fresh hk _ ht)).inFlight
    · have hin : n ∈ span g.txevtseq (g.txseq - g.txevtseq) := by
        have hb := (inPipe_iff.mp hn).1
        change f.txevtseq ≤ n at hb
        have hlt : n < f.txseq := by
          by_contra hge
          cases hn.symm.trans (Acct.inPipe_txseq (k := f.kept) hf.len (not_lt.mp hge))
        exact ⟨by omega, by omega⟩
      have hfresh : Fresh f.txseq (k.check ok) := (h4 n hin).2 ht ((hp n).trans hn)
      exact (h8.fresh hno (h6.fresh hno hfresh)).inFlight
    · refine (h9 ?_ ht).inFlight
      rw [h7]
      rcases hfail with rfl | hfail
      · exact .inr rfl
      · cases fail with
        | true => exact .inl hfail
        | false => exact .inr rfl
  set g : Flow := if f.nocc || f.ccmode = .fixed then { f with rtxtimer := true }
    else { f with rtxtimer := true }.timeoutWindow with hg
  have h : Sized f.txseq g ∧ g.txevtseq = f.txevtseq ∧ g.txseq = f.txseq ∧
      g.linkstat = f.linkstat ∧ ∀ n, g.kept.inPipe n = f.kept.inPipe n := by
    rw [hg]
    split_ifs <;> exact ⟨⟨hf.len, hf.le⟩, rfl, rfl, rfl, fun _ => rfl⟩
  exact hspan g h.1 h.2.1 h.2.2.1 h.2.2.2.1 h.2.2.2.2 _

/-- **One operation.** -/
theorem step_timer {env : Env} {op : Op} (hB : f.Balanced) (hP : f.rtxtimer = true → f.InFlight)
    (hs : TimerSafe env f op) (h : f.step env op = some g) : g.rtxtimer = true → g.InFlight := by
  have hf : Sized f.txseq f := ⟨hB.1.len, le_rfl⟩
  have hno : ∀ n ∈ (∅ : Set ℕ), n < f.txseq := fun _ h => h.elim
  cases op with
  | start => cases h; exact fun _ => start_timer hf hs
  | stop =>
    cases h
    have hf₁ : Sized f.txseq { f with rtxtimer := false, acktimer := none, active := false } :=
      ⟨hf.len, hf.le⟩
    exact (setLinkStatus_keeps hf₁ .down).1.timed fun h => nomatch h
  | receive pkt =>
    cases h
    unfold receive
    split_ifs with hdrop
    · exact hP
    · rw [Bool.or_eq_true, not_or, Bool.not_eq_true', decide_eq_true_eq, not_lt,
        Bool.not_eq_false] at hdrop
      cases ha : f.toRxState.accept pkt with
      | none => exact hP
      | some a =>
        by_cases hlt : f.ackSeq pkt.packseq < f.txseq
        · obtain ⟨⟨hmax, hcov⟩, hsafe⟩ := hs hdrop.1 hdrop.2 a ha hlt
          have hsafe' : ReceiveSafe env (f.arrive a.1 a.2) pkt.packseq a.1 := by
            cases hsafe with
            | known h => exact .known h
            | quiet h => exact .quiet h
            | stays n hn hc hl => exact .stays n hn hc hl
            | received h => exact .received h
            | linkUp hd hl h => exact .linkUp hd hl h
            | expired hd n h1 h2 h3 h => exact .expired hd n h1 h2 h3 h
            | ready h hr => exact .ready h ⟨hr.sock, hr.cwnd⟩
          exact process_timer (arrive_balanced hB a.1 a.2) hP hmax hcov hlt hsafe'
        · have hstray : (f.arrive a.1 a.2).process env pkt.packseq a.1 = f.arrive a.1 a.2 :=
            if_pos (not_lt.mp hlt)
          dsimp only
          rw [hstray]
          exact hP
  | rtxTimeout fail =>
    change (if f.rtxtimer then some (f.rtxTimeout env fail) else none) = some g at h
    split_ifs at h
    cases h
    exact fun _ => rtxTimeout_timer hf fail hs
  | ackTimeout =>
    change (if f.acktimer.isSome then some (f.ackTimeout env) else none) = some g at h
    split_ifs at h
    cases h
    exact (Acts.callingKeeps (flushack_acts f env.now) hf).timed hP
  | call c => cases h; exact (call_keeps hf c).timed hP
  | setDelayedAcks | setCCMode | setCCWindow => cases h; exact hP

end Flow

/-- **The retransmission timer runs only while data is in flight**, in every run whose steps are
all safe: between its operations the timer is armed only if a data packet is in flight, that is
`txfltcnt` is positive as long as it does not wrap; and it never expires otherwise. -/
theorem timer_in_flight {chan : BitVec 8} {f : Flow}
    (h : (flowMachine chan).Reach (fun f i => Flow.TimerSafe i.1 f i.2) f) :
    (f.rtxtimer = true → (∃ n, f.kept.inPipe n = true) ∧
      (f.txevts.countP TxEvent.pipe < 2 ^ 32 → 0 < f.txfltcnt.toNat)) ∧
    ∀ env fail g, f.step env (.rtxTimeout fail) = some g → ∃ n, f.kept.inPipe n = true := by
  obtain ⟨hB, hP⟩ : f.Balanced ∧ (f.rtxtimer = true → f.InFlight) := by
    refine h.invariant (P := fun f => f.Balanced ∧ (f.rtxtimer = true → f.InFlight))
      ⟨Flow.balanced_new chan, fun h => nomatch h⟩ ?_
    rintro f g ⟨env, op⟩ - ⟨hf, hP⟩ hs hstep
    refine ⟨Flow.step_balanced hf (fun pkt hop hact hsize a ha hlt => ?_) hstep,
      Flow.step_timer hf hP hs hstep⟩
    dsimp only at hs hop
    rw [hop] at hs
    exact (hs hact hsize a ha hlt).1
  refine ⟨fun ht => ⟨hP ht, fun hlt => ?_⟩, fun env fail g hg => ?_⟩
  · have hcnt : f.txfltcnt = BitVec.ofNat 32 (f.txevts.countP TxEvent.pipe) := hB.1.cnt
    obtain ⟨n, hn⟩ := hP ht
    obtain ⟨-, e, he, hp⟩ := inPipe_iff.mp hn
    have hpos : 0 < f.txevts.countP TxEvent.pipe :=
      List.countP_pos_iff.mpr ⟨e, List.mem_of_getElem? he, hp⟩
    rw [hcnt, BitVec.toNat_ofNat, Nat.mod_eq_of_lt hlt]
    exact hpos
  · change (if f.rtxtimer then some (f.rtxTimeout env fail) else none) = some g at hg
    split_ifs at hg with ht
    exact hP ht

/-- An upper layer that transmits whenever it may. -/
def eager : Env := { silent with
  calls := fun e => if e = .readyTransmit then [.flowTransmit 20] else [] }

/-- Packet 1 is sent at the start and acknowledged, packet 2 is presumed lost by a timeout, and
packet 3 is in flight. -/
theorem timer_in_flight_eager : ∃ f, (flowMachine 1#8).Reach
    (fun f i => Flow.TimerSafe i.1 f i.2) f ∧ f.txseq = 4 ∧
    f.rtxtimer = true ∧ ∃ n, f.kept.inPipe n = true := by
  have ht : eager.Transmits .readyTransmit := ⟨20, List.mem_singleton_self _⟩
  have h0 : (flowMachine 1#8).Reach (fun f i => Flow.TimerSafe i.1 f i.2) (.new 1#8) := .init
  have hstart : Flow.TimerSafe eager (.new 1#8) .start := Or.inr (Or.inl ht)
  have h1 := h0.step (i := (eager, .start)) (t := (Flow.new 1#8).start eager) hstart rfl
  have hsafe : Flow.TimerSafe eager ((Flow.new 1#8).start eager)
      (.receive ⟨seqWord 1#8 1, ackWord 0 1, some 1, 20⟩) := fun _ _ _ _ _ =>
    ⟨⟨by decide +kernel, by decide +kernel, by decide +kernel⟩,
      .ready ht ⟨fun h => (nomatch h), fun _ => by decide +kernel⟩⟩
  have h2 := h1.step (i := (eager, .receive ⟨seqWord 1#8 1, ackWord 0 1, some 1, 20⟩))
    (t := ((Flow.new 1#8).start eager).receive eager ⟨seqWord 1#8 1, ackWord 0 1, some 1, 20⟩)
    hsafe rfl
  have htimeout : Flow.TimerSafe eager (((Flow.new 1#8).start eager).receive eager
      ⟨seqWord 1#8 1, ackWord 0 1, some 1, 20⟩) (.rtxTimeout false) := Or.inl ht
  have hstep : (flowMachine 1#8).step (((Flow.new 1#8).start eager).receive eager
      ⟨seqWord 1#8 1, ackWord 0 1, some 1, 20⟩) (eager, .rtxTimeout false) =
      some ((((Flow.new 1#8).start eager).receive eager
        ⟨seqWord 1#8 1, ackWord 0 1, some 1, 20⟩).rtxTimeout eager false) :=
    if_pos (by decide +kernel)
  have h3 := h2.step htimeout hstep
  have hr : ((((Flow.new 1#8).start eager).receive eager
      ⟨seqWord 1#8 1, ackWord 0 1, some 1, 20⟩).rtxTimeout eager false).rtxtimer = true := by
    decide +kernel
  exact ⟨_, h3, by decide +kernel, hr, ((timer_in_flight h3).1 hr).1⟩

/-- A flow that starts with nothing to send arms its timer. -/
theorem timer_armed_idle : ¬∀ f, (flowMachine 1#8).Reach Flow.WordsCoverSent f →
    f.rtxtimer = true → 0 < f.txfltcnt.toNat := by
  intro hall
  have h : (flowMachine 1#8).Reach Flow.WordsCoverSent ((Flow.new 1#8).start silent) :=
    Machine.Reach.init.step (i := (silent, .start)) nofun rfl
  have := hall _ h rfl
  revert this
  decide +kernel

end Sst
