import Sst.Seg.Segment
import Sst.Flow.Pending

/-!
# Forwarding

What a middlebox forwards, and what it acknowledges.

* `Account`: where the packets are that a segment received.
* `Numbers`: the numbers of a segment's packets, and the words that it sends.
* `Middlebox.Sound`: both, for both segments.
* **`middlebox_forwarding`**: the queue is bounded, data is forwarded in order and once, and what
  is dropped or still waits is not acknowledged.
-/

namespace Sst

theorem Flow.presumeLost_acts {S : ActScope} {env : Env} (hE : Sound S.toScope env)
    (hS : S.strays) (hU : S.updates) (hM : ∀ n, n ∈ S.misses) (f : Flow) :
    Acts S f (f.presumeLost env) := by
  have h1 : Acts S f (if f.nocc || f.ccmode = .fixed then { f with rtxtimer := true } else
      { f with rtxtimer := true }.timeoutWindow) := by
    have h : Act S f { f with rtxtimer := true } := .timer hU true
    split_ifs
    · exact h.acts
    · exact h.acts.tail (.timeout hU)
  have h2 : ∀ g : Flow, Acts S g
      ((List.range' g.txevtseq (g.txseq - g.txevtseq)).foldl (rtoOne env) g) := fun g =>
    (range_acts (S := S.loop) not_false _ _ (fun _ m => rtoOne_acts (S := S.loop) hE m) (.inl hS)
      fun m _ _ => hM m).ofLoop
  exact (h1.trans (h2 _)).tail (.check _)

end Sst

namespace Sst.Seg

open Transition

variable {m : Middlebox} {s : Bool} {env : Env} {a b : FlowSegment} {rp : RxPkt}

/-! ## Where the packets are -/

/-- **The packets received by `a`** were dropped, were taken by `b` or wait, in their order, and
what `b` transmitted are data packets that it took. -/
structure Account (a b : FlowSegment) : Prop where
  le : a.rxq.length ≤ a.qlim
  order : (a.taken ++ a.rxq).Sublist a.received
  perm : a.received.Perm (a.dropped ++ (a.taken ++ a.rxq))
  sent : b.transmitted.Sublist (a.taken.filter (·.isdata))

/-- Everything may happen to a flow but that a packet is acknowledged. -/
def mute : Scope := ⟨Set.univ, ∅, fun _ => True, True, True⟩

/-- **The packets received by `a`** were accepted, in their order, and what is acknowledged was
taken and, if it is data, transmitted by `b`. The words stand for acknowledged packets if the
numbers fit the parameter of `acknowledge`. -/
structure Numbers (a b : FlowSegment) : Prop where
  numbers : ((a.received.map (·.rxseq)).reverse).Sublist a.accepts
  acks : ∀ n, .acknowledged n ∈ a.log →
    ∃ rp ∈ a.taken, rp.rxseq = n ∧ (rp.isdata = true → rp ∈ b.transmitted)
  zero : Flow.ZeroMarked a.toRxState a.accepts
  words : (∀ rp ∈ a.received, rp.rxseq < 2 ^ 16) → a.toFlow.Words

theorem Account.new (chan chan' : BitVec 8) : Account (.new chan) (.new chan') :=
  ⟨Nat.zero_le _, .slnil, .nil, .slnil⟩

theorem Numbers.new (chan chan' : BitVec 8) : Numbers (.new chan) (.new chan') where
  numbers := .slnil
  acks := nofun
  zero := ⟨fun _ => (by decide : (1#32).getLsbD 0 = true),
    fun _ hn => absurd hn List.not_mem_nil, Nat.two_pow_pos 64⟩
  words _ := .new chan

theorem Account.flows (h : Account a b) (f g : Flow) :
    Account { a with toFlow := f } { b with toFlow := g } :=
  ⟨h.le, h.order, h.perm, h.sent⟩

theorem Numbers.path (h : Numbers a b) {f : Flow} (hp : Flow.Path mute a.toFlow f) :
    Numbers { a with toFlow := f } b where
  numbers := by
    change ((a.received.map (·.rxseq)).reverse).Sublist f.accepts
    rw [hp.accepts.2]
    exact h.numbers
  acks n hn := h.acks n ((hp.acknowledged_mem hn).resolve_left fun h => h.elim)
  zero := by
    change Flow.ZeroMarked f.toRxState f.accepts
    rw [hp.accepts.1, hp.accepts.2]
    exact h.zero
  words hlt := hp.words (fun _ hn => hn.elim) (h.words hlt)

theorem Numbers.mono (h : Numbers a b) {b' : FlowSegment} (hb : b.transmitted ⊆ b'.transmitted) :
    Numbers a b' where
  numbers := h.numbers
  acks n hn := by
    obtain ⟨rp, hm, he, ht⟩ := h.acks n hn
    exact ⟨rp, hm, he, fun hd => hb (ht hd)⟩
  zero := h.zero
  words := h.words

theorem Numbers.nodup (h : Numbers a b) (hn : a.accepts.Nodup) :
    (a.received.map (·.rxseq)).Nodup :=
  List.nodup_reverse.1 (hn.sublist h.numbers)

theorem Numbers.acknowledge (h : Numbers a b) (hrp : rp ∈ a.received) (now : ℕ) (sendack : Bool)
    (rest : List RxPkt) (g : Flow) : Numbers { a with
      toFlow := a.toFlow.acknowledge now rp.rxseq sendack
      rxq := rest
      taken := a.taken ++ [rp] } { b with
      toFlow := g
      transmitted := b.transmitted ++ if rp.isdata then [rp] else [] } := by
  have hp : Flow.Path { mute with calls := {rp.rxseq} } a.toFlow
      (a.toFlow.acknowledge now rp.rxseq sendack) :=
    (Flow.acknowledge_acts (S := Scope.full { mute with calls := {rp.rxseq} }) _ now rp.rxseq
      sendack rfl).path
  constructor
  · change ((a.received.map (·.rxseq)).reverse).Sublist
      (a.toFlow.acknowledge now rp.rxseq sendack).accepts
    rw [hp.accepts.2]
    exact h.numbers
  · intro n hn
    rcases hp.acknowledged_mem hn with hn | hn
    · refine ⟨rp, List.mem_append_right _ (List.mem_singleton_self rp),
        (Set.mem_singleton_iff.1 hn).symm, fun hd => List.mem_append_right _ ?_⟩
      rw [if_pos hd]
      exact List.mem_singleton_self rp
    · obtain ⟨rp', hm, he, ht⟩ := h.acks n hn
      exact ⟨rp', List.mem_append_left _ hm, he, fun hd => List.mem_append_left _ (ht hd)⟩
  · change Flow.ZeroMarked (a.toFlow.acknowledge now rp.rxseq sendack).toRxState
      (a.toFlow.acknowledge now rp.rxseq sendack).accepts
    rw [hp.accepts.1, hp.accepts.2]
    exact h.zero
  · intro hlt
    exact hp.words (fun n hn => Set.mem_singleton_iff.1 hn ▸ hlt rp hrp) (h.words hlt)

theorem Account.take (h : Account a b) {rest : List RxPkt} (hq : a.rxq = rp :: rest)
    (f g : Flow) : Account { a with toFlow := f, rxq := rest, taken := a.taken ++ [rp] }
      { b with
        toFlow := g
        transmitted := b.transmitted ++ if rp.isdata then [rp] else [] } := by
  have hl : (a.taken ++ [rp]) ++ rest = a.taken ++ a.rxq := by
    rw [hq, List.append_assoc, List.singleton_append]
  refine ⟨?_, ?_, ?_, ?_⟩
  · have hle := h.le
    rw [hq, List.length_cons] at hle
    exact Nat.le_of_succ_le hle
  · change ((a.taken ++ [rp]) ++ rest).Sublist a.received
    rw [hl]
    exact h.order
  · change a.received.Perm (a.dropped ++ ((a.taken ++ [rp]) ++ rest))
    rw [hl]
    exact h.perm
  · change (b.transmitted ++ _).Sublist ((a.taken ++ [rp]).filter (·.isdata))
    rw [List.filter_append]
    refine h.sent.append ?_
    cases hd : rp.isdata with
    | true => simp [hd]
    | false => simp

theorem Account.lose (h : Account a b) {rest : List RxPkt} (hq : a.rxq = rp :: rest) :
    Account { a with rxq := rest, taken := a.taken ++ [rp] } b := by
  have ht := h.take hq a.toFlow b.toFlow
  refine ⟨ht.le, ht.order, ht.perm, h.sent.trans ?_⟩
  change (a.taken.filter (·.isdata)).Sublist ((a.taken ++ [rp]).filter (·.isdata))
  rw [List.filter_append]
  exact List.sublist_append_left _ _

theorem Numbers.lose (h : Numbers a b) (rest : List RxPkt) :
    Numbers { a with rxq := rest, taken := a.taken ++ [rp] } b where
  numbers := h.numbers
  acks n hn := by
    obtain ⟨rp', hm, he⟩ := h.acks n hn
    exact ⟨rp', List.mem_append_left _ hm, he⟩
  zero := h.zero
  words := h.words

/-! ## The packet that arrives -/

/-- The number was accepted last, and its packet is not passed on yet. -/
def Fresh (a : FlowSegment) (n : ℕ) : Prop :=
  ∃ l, a.accepts = n :: l ∧ ((a.received.map (·.rxseq)).reverse).Sublist l

theorem Fresh.path {n : ℕ} (h : Fresh a n) {f : Flow} (hp : Flow.Path mute a.toFlow f) :
    Fresh { a with toFlow := f } n := by
  obtain ⟨l, hl, hs⟩ := h
  exact ⟨l, hp.accepts.2.trans hl, hs⟩

theorem Numbers.receive (h : Numbers a b) (hf : Fresh a rp.rxseq) (rxq dropped : List RxPkt) :
    Numbers { a with received := a.received ++ [rp], rxq := rxq, dropped := dropped } b where
  numbers := by
    obtain ⟨l, hl, hs⟩ := hf
    change (((a.received ++ [rp]).map (·.rxseq)).reverse).Sublist a.accepts
    rw [hl, List.map_append, List.reverse_append]
    exact hs.cons_cons rp.rxseq
  acks := h.acks
  zero := h.zero
  words hlt := h.words fun rp hrp => hlt rp (List.mem_append_left _ hrp)

theorem Account.drop (h : Account a b) : Account { a with
    received := a.received ++ [rp], dropped := a.dropped ++ [rp] } b where
  le := h.le
  order := h.order.trans (List.sublist_append_left _ _)
  perm := by
    change (a.received ++ [rp]).Perm ((a.dropped ++ [rp]) ++ (a.taken ++ a.rxq))
    refine (h.perm.append_right [rp]).trans ?_
    rw [List.append_assoc, List.append_assoc a.dropped]
    exact List.Perm.append_left _ List.perm_append_comm
  sent := h.sent

theorem Account.enqueue (h : Account a b) (hle : a.rxq.length < a.qlim) : Account { a with
    received := a.received ++ [rp], rxq := a.rxq ++ [rp] } b where
  le := by
    change (a.rxq ++ [rp]).length ≤ a.qlim
    rw [List.length_append]
    exact hle
  order := by
    change (a.taken ++ (a.rxq ++ [rp])).Sublist (a.received ++ [rp])
    rw [← List.append_assoc]
    exact h.order.append (List.Sublist.refl _)
  perm := by
    change (a.received ++ [rp]).Perm (a.dropped ++ (a.taken ++ (a.rxq ++ [rp])))
    rw [← List.append_assoc a.taken, ← List.append_assoc]
    exact h.perm.append_right [rp]
  sent := h.sent

theorem Numbers.arrive (h : Numbers a b) {p : Packet} {n : ℕ} {r : RxState}
    (ha : a.toRxState.accept p = some (n, r)) :
    Numbers { a with toFlow := a.toFlow.arrive n r } b ∧
      Fresh { a with toFlow := a.toFlow.arrive n r } n := by
  refine ⟨⟨h.numbers.cons n, fun k hk => ?_, h.zero.accept ha, fun hlt => ?_⟩,
    a.accepts, rfl, h.numbers⟩
  · exact h.acks k ((List.mem_cons.1 hk).resolve_left nofun)
  · exact ((h.words hlt).logged (.accepted n) nofun nofun).of_eq rfl rfl rfl

namespace Middlebox

/-! ## Both segments -/

/-- **The invariant** of both segments. -/
def Sound (m : Middlebox) : Prop :=
  ∀ s, Account (m.seg s) (m.seg !s) ∧ Numbers (m.seg s) (m.seg !s)

theorem eq_or_not (s t : Bool) : t = s ∨ t = !s := by
  cases s <;> cases t <;> simp

theorem Sound.mk (s : Bool) (h1 : Account (m.seg s) (m.seg !s))
    (h2 : Account (m.seg !s) (m.seg s)) (h3 : Numbers (m.seg s) (m.seg !s))
    (h4 : Numbers (m.seg !s) (m.seg s)) : Sound m := by
  intro t
  rcases eq_or_not s t with rfl | rfl
  · exact ⟨h1, h3⟩
  · rw [Bool.not_not]
    exact ⟨h2, h4⟩

theorem Sound.account (h : Sound m) (s : Bool) : Account (m.seg !s) (m.seg s) := by
  have hb := (h !s).1
  rwa [Bool.not_not] at hb

theorem Sound.numbers (h : Sound m) (s : Bool) : Numbers (m.seg !s) (m.seg s) := by
  have hb := (h !s).2
  rwa [Bool.not_not] at hb

theorem Sound.onFlow (h : Sound m) {f : Flow → Flow}
    (hp : Flow.Path mute (m.seg s).toFlow (f (m.seg s).toFlow)) : Sound (m.onFlow s f) := by
  refine .mk s ?_ ?_ ?_ ?_ <;> simp only [Middlebox.onFlow, modify_self, modify_other]
  · exact (h s).1.flows (f (m.seg s).toFlow) (m.seg !s).toFlow
  · exact (h.account s).flows (m.seg !s).toFlow (f (m.seg s).toFlow)
  · exact (h s).2.path hp
  · exact (h.numbers s).mono (List.Subset.refl _)

theorem mayTransmit_path (f : Flow) (env : Env) : Flow.Path mute f (f.mayTransmit env).1 :=
  .tune (Flow.kept_mayTransmit f env)

theorem Sound.take (h : Sound m) {rest : List RxPkt} (hq : (m.seg !s).rxq = rp :: rest)
    {m' : Middlebox} (now : ℕ)
    (hs : m'.seg s = { m.seg s with
      toFlow := (m'.seg s).toFlow
      transmitted := (m.seg s).transmitted ++ if rp.isdata then [rp] else [] })
    (hp : Flow.Path mute (m.seg s).toFlow (m'.seg s).toFlow)
    (ho : m'.seg (!s) = { m.seg (!s) with
      toFlow := (m.seg !s).toFlow.acknowledge now rp.rxseq rp.isdata
      rxq := rest
      taken := (m.seg !s).taken ++ [rp] }) : Sound m' := by
  have hmem : rp ∈ (m.seg !s).received := by
    refine (h.account s).order.subset (List.mem_append_right _ ?_)
    rw [hq]
    exact List.mem_cons_self
  refine .mk s ?_ ?_ ?_ ?_
  · rw [hs, ho]
    exact ⟨(h s).1.le, (h s).1.order, (h s).1.perm, (h s).1.sent⟩
  · rw [hs, ho]
    exact (h.account s).take hq _ _
  · rw [hs, ho]
    have hn := (h s).2.path hp
    exact ⟨hn.numbers, hn.acks, hn.zero, hn.words⟩
  · rw [hs, ho]
    exact (h.numbers s).acknowledge hmem now rp.isdata rest (m'.seg s).toFlow

theorem Sound.lose (h : Sound m) {rest : List RxPkt} (hq : (m.seg !s).rxq = rp :: rest) :
    Sound { m.dequeue (!s) rp rest with fault := true } := by
  refine .mk s ?_ ?_ ?_ ?_ <;> simp only [dequeue, modify_self, modify_not]
  · exact ⟨(h s).1.le, (h s).1.order, (h s).1.perm, (h s).1.sent⟩
  · exact (h.account s).lose hq
  · exact (h s).2.mono (List.Subset.refl _)
  · exact (h.numbers s).lose rest

/-- **The loop** keeps the invariant; the induction is on the queue. -/
theorem Sound.pump (env : Env) (s : Bool) (q : List RxPkt) :
    ∀ m : Middlebox, Sound m → (m.seg !s).rxq = q → Sound (Middlebox.pump env s q m) := by
  induction q with
  | nil =>
    intro m h _
    exact h.onFlow (mayTransmit_path _ env)
  | cons rp rest ih =>
    intro m h hq
    have h₁ : Sound (m.onFlow s fun f => (f.mayTransmit env).1) :=
      h.onFlow (mayTransmit_path _ env)
    have hq₁ : ((m.onFlow s fun f => (f.mayTransmit env).1).seg !s).rxq = rp :: rest := by
      simp only [Middlebox.onFlow, modify_other]
      exact hq
    simp only [Middlebox.pump]
    generalize (m.onFlow s fun f => (f.mayTransmit env).1) = m₁ at h₁ hq₁ ⊢
    split
    · split
      · rename_i hdata
        split
        · refine ih _ (h₁.take hq₁ env.now ?_ ?_ ?_) ?_
          · simp [Middlebox.acknowledge, Middlebox.onFlow, transmit, dequeue, hdata]
          · simp only [Middlebox.acknowledge, Middlebox.onFlow, transmit, dequeue, modify_self,
              modify_not]
            exact (Flow.flowTransmit_acts (S := mute.full) _ _ _).path
          · simp [Middlebox.acknowledge, Middlebox.onFlow, transmit, dequeue]
          · simp [Middlebox.acknowledge, Middlebox.onFlow, transmit, dequeue]
        · exact h₁.lose hq₁
      · rename_i hdata
        refine ih _ (h₁.take hq₁ env.now ?_ ?_ ?_) ?_
        · simp [Middlebox.acknowledge, Middlebox.onFlow, dequeue, hdata]
        · simp only [Middlebox.acknowledge, Middlebox.onFlow, dequeue, modify_not]
          exact .refl
        · simp [Middlebox.acknowledge, Middlebox.onFlow, dequeue]
        · simp [Middlebox.acknowledge, Middlebox.onFlow, dequeue]
    · exact h₁

/-! ## One operation -/

theorem sound_quiet (env : Env) : Flow.Sound mute env.quiet := nofun

theorem Sound.gotReadyTransmit (h : Sound m) (env : Env) (s : Bool) :
    Sound (m.gotReadyTransmit env s) :=
  h.pump env s _ m rfl

theorem Sound.readyTransmit (h : Sound m) (env : Env) (s : Bool) :
    Sound (m.readyTransmit env.quiet s) := by
  have hp : ∀ f : Flow, Flow.Path mute f (f.raise env.quiet .readyTransmit) := fun f =>
    (Flow.raise_note_acts (S := mute.full) (sound_quiet env) f .readyTransmit trivial).path
  exact (h.onFlow (hp _)).gotReadyTransmit env.quiet s

theorem Sound.flowReceive (h : Sound m) (env : Env) {pktseq : ℕ} (hf : Fresh (m.seg s) pktseq)
    (pkt : List UInt8) : Sound (m.flowReceive env.quiet s pktseq pkt) := by
  simp only [Middlebox.flowReceive, modify_self]
  split_ifs with hq
  · refine .mk s ?_ ?_ ?_ ?_ <;> simp only [modify_self, modify_other]
    · exact (h s).1.drop
    · exact ⟨(h.account s).le, (h.account s).order, (h.account s).perm, (h.account s).sent⟩
    · exact (h s).2.receive hf _ _
    · exact (h.numbers s).mono (List.Subset.refl _)
  · refine Sound.readyTransmit (.mk s ?_ ?_ ?_ ?_) env (!s) <;>
      simp only [modify_self, modify_other]
    · exact (h s).1.enqueue (not_le.1 hq)
    · exact ⟨(h.account s).le, (h.account s).order, (h.account s).perm, (h.account s).sent⟩
    · exact (h s).2.receive hf _ _
    · exact (h.numbers s).mono (List.Subset.refl _)

theorem Sound.signalReady (h : Sound m) (env : Env) (s : Bool) :
    Sound (m.signalReady env.quiet s) := by
  unfold Middlebox.signalReady
  dsimp only
  split_ifs
  · exact (h.onFlow (mayTransmit_path _ _)).readyTransmit env s
  · exact h.onFlow (mayTransmit_path _ _)

theorem Sound.process (h : Sound m) (env : Env) (packseq : BitVec 32) {pktseq : ℕ}
    (hf : Fresh (m.seg s) pktseq) (pkt : List UInt8) :
    Sound (m.process env.quiet s packseq pktseq pkt) := by
  unfold Middlebox.process
  dsimp only
  split_ifs with h1 h2
  · exact h
  all_goals
    have hp : Flow.Path mute (m.seg s).toFlow
        (((((m.seg s).toFlow.ackReceived env.quiet pktseq ((m.seg s).toFlow.ackSeq packseq)
          ((m.seg s).toFlow.ackDiff packseq) (ackctOf packseq)).1).ccReceived env.quiet
          ((m.seg s).toFlow.ackSeq packseq) ((m.seg s).toFlow.ackReceived env.quiet pktseq
          ((m.seg s).toFlow.ackSeq packseq) ((m.seg s).toFlow.ackDiff packseq)
          (ackctOf packseq)).2).raise env.quiet (.received pktseq)) :=
      (((Flow.ackReceived_acts (S := mute.full) (sound_quiet env) trivial trivial
        (ActScope.open_full _) pktseq _ _ _ _ trivial (.inl fun _ => trivial)).tail
        (.grow trivial trivial env.quiet _ _ (Flow.ackReceived_count _ pktseq _ _
          (ackctOf_le packseq)))).trans
        (Flow.raise_note_acts (sound_quiet env) _ (.received pktseq) trivial)).path
    have hm := (h.onFlow (f := fun _ => _) hp).flowReceive env (s := s)
      (by simpa only [Middlebox.onFlow, modify_self] using hf.path hp) pkt
  · exact hm
  · exact hm.signalReady env s

theorem Sound.receive (h : Sound m) (env : Env) (s : Bool) (p : Packet) (pkt : List UInt8) :
    Sound (m.receive env.quiet s p pkt) := by
  unfold Middlebox.receive
  split_ifs
  · exact h
  · cases ha : (m.seg s).toRxState.accept p with
    | none => exact h
    | some a =>
      obtain ⟨hn, hf⟩ := (h s).2.arrive ha
      refine Sound.process (.mk s ?_ ?_ ?_ ?_) env p.packseq ?_ pkt <;>
        simp only [Middlebox.onFlow, modify_self, modify_other]
      · exact (h s).1.flows _ (m.seg !s).toFlow
      · exact (h.account s).flows (m.seg !s).toFlow _
      · exact hn
      · exact (h.numbers s).mono (List.Subset.refl _)
      · exact hf

/-- **One operation** keeps the invariant. -/
theorem Sound.step (h : Sound m) {m' : Middlebox} {op : Op}
    (hs : m.step env.quiet s op = some m') : Sound m' := by
  have hlink : ∀ (m : Middlebox) (status : LinkStatus), Sound m →
      Sound (m.onFlow s (·.setLinkStatus env.quiet status)) := fun _ _ h =>
    h.onFlow (Flow.setLinkStatus_acts (S := mute.full) (sound_quiet env) trivial _ _).path
  cases op with
  | start =>
    simp only [Middlebox.step] at hs
    split_ifs at hs
    cases hs
    exact hlink _ _ ((h.onFlow (.tune rfl)).readyTransmit env s)
  | receive p pkt =>
    simp only [Middlebox.step] at hs
    split_ifs at hs
    cases hs
    exact h.receive env s p pkt
  | rtxTimeout fail =>
    simp only [Middlebox.step] at hs
    split_ifs at hs
    cases hs
    exact hlink _ _ ((h.onFlow (Flow.presumeLost_acts (S := mute.full) (sound_quiet env) trivial
      trivial Set.mem_univ _).path).readyTransmit env s)
  | ackTimeout =>
    simp only [Middlebox.step] at hs
    split_ifs at hs
    cases hs
    exact h.onFlow (Flow.flushack_acts (S := mute.full) _ _).path

/-- **Every run** keeps the invariant. -/
theorem sound_of_reach {chan : Bool → BitVec 8} (h : (middlebox chan).Reach Machine.always m) :
    Sound m :=
  h.invariant (fun s => ⟨.new (chan s) (chan !s), .new (chan s) (chan !s)⟩)
    fun _ _ _ _ ih _ hs => ih.step hs

end Middlebox

/-! ## Forwarding -/

theorem Numbers.eq (h : Numbers a b) (hn : a.accepts.Nodup) {rp rp' : RxPkt}
    (h1 : rp ∈ a.received) (h2 : rp' ∈ a.received) (he : rp.rxseq = rp'.rxseq) : rp = rp' :=
  List.inj_on_of_nodup_map (h.nodup hn) h1 h2 he

/-- **What a word covers** was taken and, if it is data, transmitted. -/
theorem Numbers.covered (h : Numbers a b) (ha : Account a b) (hn : a.accepts.Nodup)
    (hlt : ∀ rp ∈ a.received, rp.rxseq < 2 ^ 16)
    (hrp : rp ∈ a.received) (hc : CoveredIn a.log rp.rxseq) :
    rp ∈ a.taken ∧ (rp.isdata = true → rp ∈ b.transmitted) := by
  have hacc : rp.rxseq ∈ a.accepts := by
    refine h.numbers.subset ?_
    rw [List.mem_reverse]
    exact List.mem_map_of_mem hrp
  rcases (h.words hlt).covered hc with h0 | hlog
  · exact absurd h0 (h.zero.pos _ hacc).ne'
  · obtain ⟨rp', hm, he, ht⟩ := h.acks _ hlog
    have hm' : rp' ∈ a.received := ha.order.subset (List.mem_append_left _ hm)
    rw [h.eq hn hrp hm' he.symm]
    exact ⟨hm, ht⟩

theorem Account.dropped_not_taken (h : Account a b) (hd : (a.received.map (·.rxseq)).Nodup)
    (hrp : rp ∈ a.dropped) : rp ∉ a.taken := by
  have hp : (a.dropped ++ (a.taken ++ a.rxq)).Nodup :=
    h.perm.nodup_iff.1 (hd.of_map _)
  intro ht
  exact (List.nodup_append.1 hp).2.2 rp hrp rp (List.mem_append_left _ ht) rfl

/-- **Forwarding.** In every run of two joined segments, the queue of a segment is bounded, and
the other segment transmits data packets in the order in which they were received. If the numbers
are accepted once each, none is transmitted twice; and if the numbers also fit the parameter of
`acknowledge`, the words that the segment sends cover no packet that was dropped, and cover a
received one only after it was taken and, if it is data, transmitted. -/
theorem middlebox_forwarding {chan : Bool → BitVec 8} {m : Middlebox}
    (h : (middlebox chan).Reach Machine.always m) (s : Bool) :
    (m.seg s).rxq.length ≤ (m.seg s).qlim ∧
    (m.seg !s).transmitted.Sublist ((m.seg s).received.filter (·.isdata)) ∧
    ((m.seg s).accepts.Nodup →
      ((m.seg !s).transmitted.map (·.rxseq)).Nodup ∧
      ((∀ rp ∈ (m.seg s).received, rp.rxseq < 2 ^ 16) →
        (∀ rp ∈ (m.seg s).dropped, ¬CoveredIn (m.seg s).log rp.rxseq) ∧
        ∀ rp ∈ (m.seg s).received, CoveredIn (m.seg s).log rp.rxseq →
          rp ∈ (m.seg s).taken ∧ (rp.isdata = true → rp ∈ (m.seg !s).transmitted))) := by
  obtain ⟨ha, hb⟩ := Middlebox.sound_of_reach h s
  have htaken : (m.seg s).taken.Sublist (m.seg s).received :=
    (List.sublist_append_left _ _).trans ha.order
  have hsub : (m.seg !s).transmitted.Sublist ((m.seg s).received.filter (·.isdata)) :=
    ha.sent.trans (htaken.filter _)
  refine ⟨ha.le, hsub, fun hn => ⟨?_, fun hlt => ⟨fun rp hrp hc => ?_, fun rp hrp hc => ?_⟩⟩⟩
  · exact (hb.nodup hn).sublist ((hsub.trans List.filter_sublist).map _)
  · have hrp' : rp ∈ (m.seg s).received := ha.perm.mem_iff.2 (List.mem_append_left _ hrp)
    exact ha.dropped_not_taken (hb.nodup hn) hrp (hb.covered ha hn hlt hrp' hc).1
  · exact hb.covered ha hn hlt hrp hc

/-- A datagram sealed as packet `n`, with `size` bytes and nothing acknowledged. -/
def arrival (n size : ℕ) : Op :=
  .receive ⟨seqWord 1#8 n, ackWord 0 0, some n, size⟩ (List.replicate size 0)

/-- The middlebox after a list of operations on its two segments. -/
def after (l : List (Bool × Op)) : Option Middlebox :=
  (middlebox fun _ => 1#8).run (middlebox fun _ => 1#8).init (l.map fun i => (silent, i.1, i.2))

theorem of_after {l : List (Bool × Op)} {P : Middlebox → Prop} [DecidablePred P]
    (h : (after l).any (fun m => decide (P m)) = true) :
    ∃ m, (middlebox fun _ => 1#8).Reach Machine.always m ∧ P m := by
  obtain ⟨m, hm, hP⟩ := (Option.any_eq_true ..).1 h
  exact ⟨m, Machine.reach_of_run hm, of_decide_eq_true hP⟩

/-- One packet is forwarded. -/
theorem middlebox_forwarding_one : ∃ m, (middlebox fun _ => 1#8).Reach Machine.always m ∧
    CoveredIn (m.seg false).log 1 ∧ ⟨1, List.replicate 9 0⟩ ∈ (m.seg true).transmitted := by
  obtain ⟨m, hm, hn, hlt, hrp, hlog⟩ := of_after
    (l := [(false, .start), (true, .start), (false, arrival 1 9), (false, .ackTimeout)])
    (P := fun m => (m.seg false).accepts.Nodup ∧
      (∀ rp ∈ (m.seg false).received, rp.rxseq < 2 ^ 16) ∧
      ⟨1, List.replicate 9 0⟩ ∈ (m.seg false).received ∧
      .sent ⟨seqWord 1#8 1, ackWord 1 1, some 1, 8⟩ false ∈ (m.seg false).log) (by decide +kernel)
  have hc : CoveredIn (m.seg false).log 1 :=
    ⟨_, _, hlog, covers_ackWord (by decide) (by decide) (by decide) (by decide) ..⟩
  exact ⟨m, hm, hc, (((middlebox_forwarding hm false).2.2 hn).2 hlt).2 _ hrp hc |>.2 (by decide)⟩

/-- A packet that only carries acknowledgments is acknowledged and not transmitted; and when the
queue is full and packet 53 is dropped, the acknowledgment of packet `2 ^ 16 + 53` covers it. -/
theorem middlebox_forwarding_words :
    (¬∀ m, (middlebox fun _ => 1#8).Reach Machine.always m → (m.seg false).accepts.Nodup →
      ∀ rp ∈ (m.seg false).received, CoveredIn (m.seg false).log rp.rxseq →
        rp ∈ (m.seg true).transmitted) ∧
    ¬∀ m, (middlebox fun _ => 1#8).Reach Machine.always m → (m.seg false).accepts.Nodup →
      ∀ rp ∈ (m.seg false).dropped, ¬CoveredIn (m.seg false).log rp.rxseq := by
  constructor
  · intro hall
    obtain ⟨m, hm, hn, hrp, hlog, ht⟩ := of_after
      (l := [(false, .start), (true, .start), (false, arrival 1 8), (false, arrival 2 9),
        (false, .ackTimeout)])
      (P := fun m => (m.seg false).accepts.Nodup ∧
        ⟨1, List.replicate 8 0⟩ ∈ (m.seg false).received ∧
        .sent ⟨seqWord 1#8 1, ackWord 2 2, some 1, 8⟩ false ∈ (m.seg false).log ∧
        ⟨1, List.replicate 8 0⟩ ∉ (m.seg true).transmitted) (by decide +kernel)
    exact ht (hall m hm hn _ hrp ⟨_, _, hlog,
      covers_ackWord (by decide) (by decide) (by decide) (by decide) ..⟩)
  · intro hall
    obtain ⟨m, hm, hn, hrp, hlog⟩ := of_after
      (l := [(false, .start), (true, .start), (false, arrival 1 9), (false, arrival 2 9)] ++
        ((List.range' 3 50).map fun n => (false, arrival n 8)) ++
        [(false, arrival 53 9), (true, .rtxTimeout false), (false, arrival 65589 9),
          (false, .ackTimeout)])
      (P := fun m => (m.seg false).accepts.Nodup ∧
        ⟨53, List.replicate 9 0⟩ ∈ (m.seg false).dropped ∧
        .sent ⟨seqWord 1#8 14, ackWord 15 53, some 14, 8⟩ false ∈ (m.seg false).log)
      (by decide +kernel)
    exact hall m hm hn _ hrp ⟨_, _, hlog,
      covers_ackWord (by decide) (by decide) (by decide) (by decide) ..⟩

end Sst.Seg
