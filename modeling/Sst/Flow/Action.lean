import Sst.Flow.Trace

/-!
# Actions of a flow

Every operation of a flow, with all the calls its callbacks make, is a sequence of actions. An
action determines the whole state; on the part that `Flow.Micro` is about, it is a few elementary
steps.

* `ActScope`: which actions may occur, besides what a `Scope` says.
* **`Flow.Act`**: the actions; `Flow.Acts`: their sequences.
* **`Flow.Acts.path`**: actions are elementary steps.
* `Flow.ackRange_acts`, …, **`Flow.process_acts`**, `Flow.rtxTimeout_acts`: operations as actions.
* **`Flow.step_cases`**: an operation is a path, or the processing of an authenticated packet.
-/

namespace Sst

/-- Besides: which packets may be reported missed, and whether timers, windows and the link status
may be updated, losses be told to congestion control, stragglers be marked as acknowledged, or
congestion control take acknowledgments into account. -/
structure ActScope extends Scope where
  misses : Set ℕ
  updates : Prop
  cuts : Prop
  masks : Prop
  grows : Prop

/-- All actions whose steps are in the scope. -/
def Scope.full (S : Scope) : ActScope where
  toScope := S
  misses := Set.univ
  updates := True
  cuts := True
  masks := True
  grows := True

/-- All of these but that losses are told to congestion control. -/
def Scope.uncut (S : Scope) : ActScope := { S.full with cuts := False }

namespace ActScope

/-- Everything may happen. -/
def any : ActScope := Scope.full .wild

/-- Congestion control leaves acknowledgments alone. -/
def acking : ActScope := { any with grows := False }

/-- Acknowledgments are taken into account: windows are updated, and losses inferred. -/
structure Open (S : ActScope) : Prop where
  misses : ∀ n, n ∈ S.misses
  updates : S.updates
  cuts : S.cuts
  masks : S.masks

theorem open_full (S : Scope) : S.full.Open := ⟨Set.mem_univ, trivial, trivial, trivial⟩

theorem open_any : any.Open := open_full _

theorem open_acking : acking.Open := ⟨Set.mem_univ, trivial, trivial, trivial⟩

/-- Nothing is updated. -/
structure Idle (S : ActScope) : Prop where
  fixed : S.Fixed
  expires : ¬S.expires
  updates : ¬S.updates

/-- Within a loop over transmit records nothing is updated. -/
def loop (S : ActScope) : ActScope := { S with toScope := S.toScope.loop, updates := False }

/-- Garbage collection, and the updates that go with it. -/
def collecting (S : ActScope) : ActScope := { S with toScope := S.toScope.collecting }

theorem idle_loop (S : ActScope) : S.loop.Idle := ⟨fun _ => id, id, id⟩

/-- The upper layer makes calls. -/
def calling : ActScope where
  toScope := ⟨∅, Set.univ, fun _ => False, False, True⟩
  misses := ∅
  updates := False
  cuts := False
  masks := False
  grows := False

/-- Packets leave the pipe. -/
def exits : ActScope := { any.loop with masks := False, grows := False }

/-- Stragglers among `A` are acknowledged. -/
def straggling (A : Set ℕ) : ActScope := { calling with acks := A, masks := True }

theorem idle_calling : calling.Idle := ⟨fun _ => id, id, id⟩

theorem idle_exits : exits.Idle := ⟨fun _ => id, id, id⟩

theorem idle_straggling (A : Set ℕ) : (straggling A).Idle := ⟨fun _ => id, id, id⟩

/-- A larger scope allows more. -/
structure Le (S T : ActScope) : Prop extends Scope.Le S.toScope T.toScope where
  misses : S.misses ⊆ T.misses
  updates : S.updates → T.updates
  cuts : S.cuts → T.cuts
  masks : S.masks → T.masks
  grows : S.grows → T.grows

end ActScope

namespace Flow

/-- Roll the acknowledgment window. -/
def rollWindow (f : Flow) (ackseq : ℕ) (mask : BitVec 32) : Flow :=
  { f with txackseq := ackseq, txackmask := mask }

/-- Drop the oldest transmit record. -/
def dropRecord (f : Flow) (evts : List TxEvent) : Flow :=
  { f with txevts := evts, txevtseq := f.txevtseq + 1 }

/-- The windows of a retransmission timeout. -/
def timeoutWindow (f : Flow) : Flow :=
  { f with ssthresh := qMax (f.txfltcnt / 2#32) cwndMin, cwnd := cwndMin }

/-- **The actions of a flow.** -/
inductive Act (S : ActScope) (f : Flow) : Flow → Prop
  | pend (rxunacked : ℕ) (acktimer : Option ℕ) :
      Act S f { f with rxunacked := rxunacked, acktimer := acktimer }
  | extend (n : ℕ) (h : .acknowledged n ∈ f.log)
      (hd : Word.wrap 32 ((n % 2 ^ 16 : ℕ) - f.rxackseq) = 1) :
      Act S f { f with rxackseq := n % 2 ^ 16, rxackct := min (f.rxackct + 1) ackctMax }
  | restart (n : ℕ) (h : .acknowledged n ∈ f.log) :
      Act S f { f with rxackseq := n % 2 ^ 16, rxackct := 0 }
  | txack (now ackct ackseq : ℕ)
      (h : (ackct = f.rxackct ∧ ackseq = f.rxackseq) ∨
        ∃ n, .acknowledged n ∈ f.log ∧ ackct = 0 ∧ ackseq = n % 2 ^ 16) :
      Act S f (f.txack now ackseq ackct)
  | data (now size : ℕ) :
      Act S f { f.tx now (ackWord f.rxackct f.rxackseq) size true with rtxtimer := true }
  | limit : Act S f { f with cwndlim := true }
  | check (ok : Bool) : Act S f (f.check ok)
  | note (e : Event) (h : e.Quiet) : Act S f (f.logged e)
  | acknowledged (n : ℕ) (h : n ∈ S.calls) : Act S f (f.logged (.acknowledged n))
  | acked (seq rxseq : ℕ) (e : TxEvent) (hs : f.txevtseq ≤ seq)
      (he : f.txevts[seq - f.txevtseq]? = some e) (hp : e.pipe = true) (ha : seq ∈ S.acks) :
      Act S f ((f.leavePipe seq e).logged (.acked seq rxseq))
  | missed (seq : ℕ) (e : TxEvent) (hs : f.txevtseq ≤ seq)
      (he : f.txevts[seq - f.txevtseq]? = some e) (hp : e.pipe = true) (hm : seq ∈ S.misses) :
      Act S f ((f.leavePipe seq e).logged (.missed seq))
  | cut (hS : S.cuts) (seq : ℕ) (e : TxEvent) (hs : f.txevtseq ≤ seq)
      (he : f.txevts[seq - f.txevtseq]? = some e) (hp : e.pipe = true) (hm : seq ∈ S.misses) :
      Act S f (((f.leavePipe seq e).ccMissed seq).logged (.missed seq))
  | stray (h : S.strays) : Act S f f.stray
  | mask (hS : S.masks) (m : BitVec 32) : Act S f { f with txackmask := m }
  | roll (ackseq : ℕ) (m : BitVec 32) (h : S.rolls ackseq) : Act S f (f.rollWindow ackseq m)
  | expire (e : TxEvent) (evts : List TxEvent) (h : S.expires) (he : f.txevts = e :: evts)
      (hp : e.pipe = true → S.strays) (hlow : f.txevtseq + maskBits ≤ f.txackseq) :
      Act S f ((f.dropRecord evts).logged (.expire f.txevtseq))
  | link (hS : S.updates) (status : LinkStatus) : Act S f { f with linkstat := status }
  | timer (hS : S.updates) (b : Bool) : Act S f { f with rtxtimer := b }
  | grow (hS : S.updates) (hG : S.grows) (env : Env) (ackseq newpackets : ℕ)
      (hn : newpackets ≤ 32) : Act S f (f.ccReceived env ackseq newpackets)
  | timeout (hS : S.updates) : Act S f f.timeoutWindow

/-- A sequence of actions. -/
def Acts (S : ActScope) : Flow → Flow → Prop := Relation.ReflTransGen (Act S)

section Acts

variable {S T : ActScope} {f g k : Flow}

theorem Acts.refl : Acts S f f := Relation.ReflTransGen.refl

theorem Acts.trans (h₁ : Acts S f g) (h₂ : Acts S g k) : Acts S f k :=
  Relation.ReflTransGen.trans h₁ h₂

theorem Acts.tail (h₁ : Acts S f g) (h₂ : Act S g k) : Acts S f k :=
  Relation.ReflTransGen.tail h₁ h₂

theorem Act.acts (h : Act S f g) : Acts S f g := Relation.ReflTransGen.single h

theorem Acts.invariant {P : Flow → Prop} (hP : ∀ f g, Act S f g → P f → P g)
    (h : Acts S f g) (hf : P f) : P g := by
  induction h with
  | refl => exact hf
  | tail _ ha ih => exact hP _ _ ha ih

theorem Act.mono (hST : S.Le T) (h : Act S f g) : Act T f g := by
  cases h with
  | pend rxunacked acktimer => exact .pend rxunacked acktimer
  | extend n h hd => exact .extend n h hd
  | restart n h => exact .restart n h
  | txack now ackct ackseq h => exact .txack now ackct ackseq h
  | data now size => exact .data now size
  | limit => exact .limit
  | check ok => exact .check ok
  | note e h => exact .note e h
  | acknowledged n h => exact .acknowledged n (hST.calls h)
  | acked seq rxseq e hs he hp ha => exact .acked seq rxseq e hs he hp (hST.acks ha)
  | missed seq e hs he hp hm => exact .missed seq e hs he hp (hST.misses hm)
  | cut hS seq e hs he hp hm => exact .cut (hST.cuts hS) seq e hs he hp (hST.misses hm)
  | stray h => exact .stray (hST.strays h)
  | mask hS m => exact .mask (hST.masks hS) m
  | roll ackseq m h => exact .roll ackseq m (hST.rolls ackseq h)
  | expire e evts h he hp hlow => exact .expire e evts (hST.expires h) he (hST.strays ∘ hp) hlow
  | link hS status => exact .link (hST.updates hS) status
  | timer hS b => exact .timer (hST.updates hS) b
  | grow hS hG env ackseq n hn => exact .grow (hST.updates hS) (hST.grows hG) env ackseq n hn
  | timeout hS => exact .timeout (hST.updates hS)

theorem Acts.mono (hST : S.Le T) (h : Acts S f g) : Acts T f g :=
  Relation.ReflTransGen.mono (fun _ _ => Act.mono hST) f g h

theorem Acts.ofLoop (h : Acts S.loop f g) : Acts S f g := by
  have hle : S.loop.Le S :=
    ⟨⟨subset_rfl, subset_rfl, fun _ => False.elim, False.elim, id⟩, subset_rfl, False.elim, id, id,
      id⟩
  exact h.mono hle

theorem Acts.ofCollecting (hX : S.expires) (h : Acts S.collecting f g) : Acts S f g := by
  have hle : S.collecting.Le S :=
    ⟨⟨subset_rfl, subset_rfl, fun _ => False.elim, fun _ => hX, id⟩, subset_rfl, id, id, id, id⟩
  exact h.mono hle

/-! ## Actions as elementary steps -/

theorem Act.path (h : Act S f g) : Path S.toScope f g := by
  cases h with
  | extend n h hd => exact (Micro.extend n h hd).path
  | restart n h => exact (Micro.restart n h).path
  | txack now ackct ackseq h => exact (Micro.tx now ackct ackseq hdrlen false h).path
  | data now size =>
    exact (Micro.tx now _ _ size true (.inl ⟨rfl, rfl⟩)).path.trans (.tune rfl)
  | note e h => exact (Micro.note e h).path
  | acknowledged n h => exact (Micro.acknowledged n h).path
  | acked seq rxseq e hs he hp ha =>
    exact (Micro.exit seq e _ hs he hp (.inl ⟨ha, rxseq, rfl⟩)).path
  | missed seq e hs he hp hm => exact (Micro.exit seq e _ hs he hp (.inr rfl)).path
  | cut hS seq e hs he hp hm =>
    exact (Micro.exit seq e _ hs he hp (.inr rfl)).path.trans
      (.tune (kept_logged (kept_ccMissed _ seq) _))
  | stray h => exact (Micro.stray h).path
  | roll ackseq m h => exact (Micro.roll ackseq h).path.trans (.tune rfl)
  | expire e evts h he hp hlow => exact (Micro.expire e evts h he hp hlow).path
  | grow hS hG env ackseq n hn => exact .tune (kept_ccReceived f env ackseq n)
  | _ => exact .tune rfl

/-- **Actions are elementary steps.** -/
theorem Acts.path (h : Acts S f g) : Path S.toScope f g := by
  induction h with
  | refl => exact .refl
  | tail _ ha ih => exact ih.trans ha.path

theorem Acts.foldl {α β : Type*} (flow : β → Flow) (B : Flow → α → Prop) {turn : β → α → β}
    (hturn : ∀ b a, B (flow b) a → Acts S (flow b) (flow (turn b a)))
    (hB : ∀ f g a, Acts S f g → B f a → B g a) (l : List α) {b : β} (hb : ∀ a ∈ l, B (flow b) a) :
    Acts S (flow b) (flow (l.foldl turn b)) := by
  induction l generalizing b with
  | nil => exact .refl
  | cons a l ih =>
    have ha := hturn b a (hb a List.mem_cons_self)
    exact ha.trans (ih fun c hc => hB _ _ c ha (hb c (List.mem_cons_of_mem a hc)))

end Acts

/-! ## Calls of the upper layer -/

section Calls

variable {S : ActScope}

theorem flushack_acts (f : Flow) (now : ℕ) : Acts S f (f.flushack now) := by
  unfold flushack
  split_ifs
  · exact (Act.pend f.rxunacked none).acts
  · exact ((Act.pend 0 f.acktimer).acts.tail (.txack now _ _ (.inl ⟨rfl, rfl⟩))).tail (.pend 0 none)

theorem flowTransmit_acts (f : Flow) (now size : ℕ) : Acts S f (f.flowTransmit now size) := by
  have h1 : Acts S f (f.check (decide (hdrlen < size))) := (Act.check _).acts
  refine h1.trans ?_
  dsimp only [flowTransmit]
  split_ifs
  · exact (Act.data now size).acts
  · exact (Act.pend 0 none).acts.tail (.data now size)

theorem mayTransmit_acts (f : Flow) (env : Env) : Acts S f (f.mayTransmit env).1 := by
  unfold mayTransmit
  split_ifs
  · exact .refl
  · exact .refl
  · exact Act.limit.acts

theorem flushack_log {f : Flow} (now : ℕ) {e : Event} (h : e ∈ f.log) :
    e ∈ (f.flushack now).log := by
  unfold flushack
  split_ifs
  · exact h
  · exact List.mem_cons_of_mem _ h

theorem ackContiguous_acts (f : Flow) (now n : ℕ) (sendack : Bool)
    (hn : .acknowledged n ∈ f.log) (hd : Word.wrap 32 ((n % 2 ^ 16 : ℕ) - f.rxackseq) = 1) :
    Acts S f (f.ackContiguous now (BitVec.ofNat 16 n) sendack) := by
  have h1 : Acts S f { f with
      rxackseq := (BitVec.ofNat 16 n).toNat
      rxackct := min (f.rxackct + 1) ackctMax
      rxunacked := f.rxunacked + 1 } := by
    rw [BitVec.toNat_ofNat]
    exact (Act.extend n hn hd).acts.tail (.pend (f.rxunacked + 1) f.acktimer)
  refine h1.trans ?_
  dsimp only [ackContiguous]
  split_ifs
  · exact .refl
  · exact (Act.pend _ _).acts
  · exact .refl
  · exact (Act.pend _ _).acts
  · exact flushack_acts _ now

theorem ackGap_acts (f : Flow) (now n : ℕ) (sendack : Bool) (hn : .acknowledged n ∈ f.log) :
    Acts S f (f.ackGap now (BitVec.ofNat 16 n) sendack) := by
  have h1 : Acts S f
      { f.flushack now with rxackseq := (BitVec.ofNat 16 n).toNat, rxackct := 0 } := by
    rw [BitVec.toNat_ofNat]
    exact (flushack_acts f now).tail (.restart n (flushack_log now hn))
  unfold ackGap
  refine h1.trans ?_
  split_ifs
  · exact (Act.txack now _ _ (.inl ⟨rfl, rfl⟩)).acts
  · exact .refl

theorem ackOld_acts (f : Flow) (now n : ℕ) (sendack : Bool) (hn : .acknowledged n ∈ f.log) :
    Acts S f (f.ackOld now (BitVec.ofNat 16 n) sendack) := by
  unfold ackOld
  refine (flushack_acts f now).trans ?_
  split_ifs
  · exact (Act.txack now _ _ (.inr ⟨n, flushack_log now hn, rfl, BitVec.toNat_ofNat ..⟩)).acts
  · exact .refl

theorem acknowledge_acts (f : Flow) (now n : ℕ) (sendack : Bool) (hn : n ∈ S.calls) :
    Acts S f (f.acknowledge now n sendack) := by
  have hlog : .acknowledged n ∈ (f.logged (.acknowledged n)).log := List.mem_cons_self
  refine (Act.acknowledged n hn).acts.trans ?_
  dsimp only [acknowledge]
  split_ifs with h1 h2 h3
  · rw [BitVec.toNat_ofNat] at h1
    exact ackContiguous_acts _ now n sendack hlog h1
  · exact ackGap_acts _ now n sendack hlog
  · exact ackOld_acts _ now n sendack hlog
  · exact .refl

/-- The numbers that a call acknowledges are in the scope. -/
def Admits (S : Scope) (c : Call) : Prop := ∀ n sendack, c = .acknowledge n sendack → n ∈ S.calls

theorem call_acts (env : Env) (f : Flow) {c : Call} (hc : Admits S.toScope c) :
    Acts S f (f.call env c) := by
  cases c with
  | flowTransmit size => exact flowTransmit_acts f env.now size
  | acknowledge n sendack => exact acknowledge_acts f env.now n sendack (hc n sendack rfl)
  | mayTransmit => exact mayTransmit_acts f env

theorem calls_acts (env : Env) (f : Flow) {l : List Call} (h : ∀ c ∈ l, Admits S.toScope c) :
    Acts S f (l.foldl (call env) f) :=
  Acts.foldl id (fun _ c => Admits S.toScope c) (fun f _ hc => call_acts env f hc)
    (fun _ _ _ _ hc => hc) l h

/-- The calls of the upper layer from its callbacks stay in the scope. -/
def Sound (S : Scope) (env : Env) : Prop := ∀ e, ∀ c ∈ env.calls e, Admits S c

theorem Sound.of_univ {S : Scope} (h : ∀ n, n ∈ S.calls) (env : Env) : Sound S env :=
  fun _ _ _ n _ _ => h n

theorem sound_any (env : Env) : Sound ActScope.any.toScope env := .of_univ Set.mem_univ env

theorem sound_acking (env : Env) : Sound ActScope.acking.toScope env := sound_any env

theorem sound_calling (env : Env) : Sound ActScope.calling.toScope env := .of_univ Set.mem_univ env

theorem sound_exits (env : Env) : Sound ActScope.exits.toScope env := .of_univ Set.mem_univ env

theorem raise_acts {env : Env} (hE : Sound S.toScope env) (f : Flow) (e : Event) :
    Acts S (f.logged e) (f.raise env e) :=
  calls_acts env _ (hE e)

theorem raise_note_acts {env : Env} (hE : Sound S.toScope env) (f : Flow) (e : Event)
    (hq : e.Quiet) : Acts S f (f.raise env e) :=
  (Act.note e hq).acts.trans (raise_acts hE f e)

end Calls

/-! ## Loops over transmit records -/

section Loops

variable {S : ActScope} {env : Env}

theorem exitPipe_acts {f : Flow} {seq : ℕ} {report : Flow → Flow} (hB : S.strays ∨ f.InBounds seq)
    (hr : ∀ e, f.txevtseq ≤ seq → f.txevts[seq - f.txevtseq]? = some e → e.pipe = true →
      Acts S f (report (f.leavePipe seq e))) :
    Acts S f (f.exitPipe seq report) := by
  unfold exitPipe
  split_ifs with hs
  · rcases hB with hB | ⟨_, h1, _⟩
    · exact (Act.stray hB).acts
    · omega
  · cases he : f.txevts[seq - f.txevtseq]? with
    | none =>
      rcases hB with hB | ⟨hl, h1, h2⟩
      · exact (Act.stray hB).acts
      · rw [List.getElem?_eq_none_iff] at he
        omega
    | some e =>
      change Acts S f (if e.pipe = true then report (f.leavePipe seq e) else f)
      by_cases hp : e.pipe = true
      · rw [if_pos hp]
        exact hr e (by omega) he hp
      · rw [if_neg hp]
        exact .refl

theorem ackOne_acts (hE : Sound S.toScope env) {f : Flow} (rxseq seq : ℕ)
    (hB : S.strays ∨ f.InBounds seq) (ha : seq ∈ S.acks) : Acts S f (f.ackOne env rxseq seq) :=
  exitPipe_acts hB fun e hs he hp =>
    (Act.acked seq rxseq e hs he hp ha).acts.trans (raise_acts hE _ _)

theorem missOne_acts (hE : Sound S.toScope env) (hC : S.cuts) {f : Flow} (seq : ℕ)
    (hB : S.strays ∨ f.InBounds seq) (hm : seq ∈ S.misses) : Acts S f (f.missOne env seq) :=
  exitPipe_acts hB fun e hs he hp =>
    (Act.cut hC seq e hs he hp hm).acts.trans (raise_acts hE _ _)

theorem rtoOne_acts (hE : Sound S.toScope env) {f : Flow} (seq : ℕ)
    (hB : S.strays ∨ f.InBounds seq) (hm : seq ∈ S.misses) : Acts S f (f.rtoOne env seq) :=
  exitPipe_acts hB fun e hs he hp =>
    (Act.missed seq e hs he hp hm).acts.trans (raise_acts hE _ _)

theorem range_acts {turn : Flow → ℕ → Flow} {A : Set ℕ} (hS : ¬S.expires) (seq n : ℕ)
    (hturn : ∀ f m, S.strays ∨ f.InBounds m → m ∈ A → Acts S f (turn f m)) {f : Flow}
    (hB : S.strays ∨ ∀ m, seq ≤ m → m < seq + n → f.InBounds m)
    (hA : ∀ m, seq ≤ m → m < seq + n → m ∈ A) :
    Acts S f ((List.range' seq n).foldl turn f) := by
  refine Acts.foldl id (fun f m => (S.strays ∨ f.InBounds m) ∧ m ∈ A)
    (fun f m h => hturn f m h.1 h.2)
    (fun f g m h hf => ⟨hf.1.imp_right (h.path.inBounds hS), hf.2⟩) _ fun m hm => ?_
  obtain ⟨h1, h2⟩ := List.mem_range'_1.mp hm
  exact ⟨hB.imp_right fun hB => hB m h1 h2, hA m h1 h2⟩

theorem ackRange_acts (hE : Sound S.toScope env) (hS : ¬S.expires) (f : Flow)
    (rxseq seq n : ℕ) (hB : S.strays ∨ ∀ m, seq ≤ m → m < seq + n → f.InBounds m)
    (hA : ∀ m, seq ≤ m → m < seq + n → m ∈ S.acks) : Acts S f (f.ackRange env rxseq seq n) :=
  range_acts hS seq n (fun _ m => ackOne_acts hE rxseq m) hB hA

theorem missRange_acts (hE : Sound S.toScope env) (hS : ¬S.expires) (hC : S.cuts) (f : Flow)
    (seq n : ℕ) (hB : S.strays ∨ ∀ m, seq ≤ m → m < seq + n → f.InBounds m)
    (hM : ∀ m, seq ≤ m → m < seq + n → m ∈ S.misses) :
    Acts S f (f.missRange env seq n) :=
  range_acts hS seq n (fun _ m => missOne_acts hE hC m) hB hM

theorem straggleOne_acts (hE : Sound S.toScope env) (hM : S.masks) (pktseq bit : ℕ)
    (st : Flow × ℕ)
    (hB : S.strays ∨ (bit < maskBits → bit ≤ st.1.txackseq ∧ st.1.InBounds (st.1.txackseq - bit)))
    (hA : bit ≤ st.1.txackseq → st.1.txackseq - bit ∈ S.acks) :
    Acts S st.1 (straggleOne env pktseq st bit).1 := by
  obtain ⟨f, newpackets⟩ := st
  dsimp only [straggleOne]
  split_ifs with h1 h2 h3
  · exact .refl
  · exact .refl
  · have h : Acts S f { f with txackmask := f.txackmask ||| 1#32 <<< bit } := (Act.mask hM _).acts
    refine h.tail (.stray (hB.resolve_right fun hB => ?_))
    exact absurd (hB (not_le.mp h1)).1 (not_le.mpr h3)
  · have h : Acts S f { f with txackmask := f.txackmask ||| 1#32 <<< bit } := (Act.mask hM _).acts
    refine h.trans (ackOne_acts hE pktseq _ (hB.imp_right fun hB => ?_) (hA (not_lt.mp h3)))
    exact (hB (not_le.mp h1)).2

theorem straggle_acts (hE : Sound S.toScope env) (hR : S.Fixed) (hS : ¬S.expires) (hM : S.masks)
    (pktseq : ℕ) (f : Flow) (back ackct newpackets : ℕ)
    (hB : S.strays ∨ ∀ bit, back ≤ bit → bit ≤ back + ackct → bit < maskBits →
      bit ≤ f.txackseq ∧ f.InBounds (f.txackseq - bit))
    (hA : ∀ bit, back ≤ bit → bit ≤ back + ackct → bit ≤ f.txackseq → f.txackseq - bit ∈ S.acks) :
    Acts S f (straggle env pktseq f back ackct newpackets).1 := by
  dsimp only [straggle]
  split_ifs
  · change Acts S (f, newpackets).1 _
    refine Acts.foldl Prod.fst (fun g bit =>
      (S.strays ∨ (bit < maskBits → bit ≤ g.txackseq ∧ g.InBounds (g.txackseq - bit))) ∧
        (bit ≤ g.txackseq → g.txackseq - bit ∈ S.acks))
      (fun st bit h => straggleOne_acts hE hM pktseq bit st h.1 h.2) (fun g k bit h hg => ?_)
      _ fun bit hbit => ?_
    · rw [h.path.txackseq hR]
      exact ⟨hg.1.imp_right fun hB hb => ⟨(hB hb).1, h.path.inBounds hS (hB hb).2⟩, hg.2⟩
    · obtain ⟨h1, h2⟩ := List.mem_range'_1.mp hbit
      exact ⟨hB.imp_right fun hB => hB bit h1 (by omega), hA bit h1 (by omega)⟩
  · exact .refl

/-- The straggler loop counts at most one packet a turn. -/
theorem straggle_count (env : Env) (f : Flow) (pktseq back ackct newpackets : ℕ) :
    (f.straggle env pktseq back ackct newpackets).2 ≤ newpackets + (ackct + 1) := by
  have key : ∀ (l : List ℕ) (st : Flow × ℕ),
      (l.foldl (straggleOne env pktseq) st).2 ≤ st.2 + l.length := by
    intro l
    induction l with
    | nil => exact fun st => le_rfl
    | cons bit l ih =>
      intro st
      have h1 : (straggleOne env pktseq st bit).2 ≤ st.2 + 1 := by
        dsimp only [straggleOne]
        split_ifs <;> omega
      have h2 := ih (straggleOne env pktseq st bit)
      rw [List.length_cons]
      rw [List.foldl_cons]
      omega
  dsimp only [straggle]
  split_ifs
  · have := key (List.range' back (ackct + 1)) (f, newpackets)
    rwa [List.length_range'] at this
  · exact Nat.le_add_right _ _

end Loops

/-! ## What stays while nothing is updated -/

section Idle

variable {S : ActScope} {f g k : Flow}

/-- The acknowledgment window, the first record and the link status stay. -/
structure Still (f g : Flow) : Prop where
  txackseq : g.txackseq = f.txackseq
  txevtseq : g.txevtseq = f.txevtseq
  missthresh : g.missthresh = f.missthresh
  linkstat : g.linkstat = f.linkstat

theorem Still.refl : Still f f := ⟨rfl, rfl, rfl, rfl⟩

theorem Still.trans (h₁ : Still f g) (h₂ : Still g k) : Still f k :=
  ⟨h₂.txackseq.trans h₁.txackseq, h₂.txevtseq.trans h₁.txevtseq,
    h₂.missthresh.trans h₁.missthresh, h₂.linkstat.trans h₁.linkstat⟩

theorem Tuned.still {n : ℕ} (h : Tuned n f g) : Still f g :=
  ⟨congrArg (·.txackseq) h.rest, congrArg (·.txevtseq) h.rest, congrArg (·.missthresh) h.rest,
    congrArg (·.linkstat) h.rest⟩

theorem Acts.still (hS : S.Idle) (h : Acts S f g) : Still f g := by
  refine h.invariant (P := Still f) (fun a b hab ha => ha.trans ?_) .refl
  cases hab with
  | cut _ seq e =>
    obtain ⟨h1, h2, h3, h4⟩ := (ccMissed_tuned (a.leavePipe seq e) seq).still
    exact ⟨h1, h2, h3, h4⟩
  | roll ackseq m h => exact absurd h (hS.fixed ackseq)
  | expire e evts h => exact absurd h hS.expires
  | link h => exact absurd h hS.updates
  | grow h => exact absurd h hS.updates
  | _ => exact ⟨rfl, rfl, rfl, rfl⟩

theorem Acts.txackmask (hS : S.Idle) (hM : ¬S.masks) (h : Acts S f g) :
    g.txackmask = f.txackmask := by
  refine h.invariant (P := fun g => g.txackmask = f.txackmask) (fun a b hab ha => ?_) rfl
  rw [← ha]
  cases hab with
  | cut _ seq e => exact congrArg (·.txackmask) (ccMissed_tuned (a.leavePipe seq e) seq).rest
  | mask h => exact absurd h hM
  | roll ackseq m h => exact absurd h (hS.fixed ackseq)
  | grow h => exact absurd h hS.updates
  | _ => rfl

end Idle

/-! ## Garbage collection -/

section Operations

variable {S : ActScope} {env : Env}

theorem expireOne_acts (hE : Sound S.toScope env) (f : Flow) (hX : S.expires)
    (hlow : f.txevtseq + maskBits ≤ f.txackseq)
    (hB : S.strays ∨ ∃ e evts, f.txevts = e :: evts ∧ e.pipe = false) :
    Acts S f (f.expireOne env) := by
  unfold expireOne
  cases he : f.txevts with
  | nil =>
    refine (Act.stray (hB.resolve_right ?_)).acts
    rintro ⟨e, evts, h, -⟩
    rw [he] at h
    cases h
  | cons e evts =>
    have hp : e.pipe = true → S.strays := by
      intro hp
      refine hB.resolve_right ?_
      rintro ⟨e', evts', h, hp'⟩
      rw [he] at h
      cases h
      rw [hp] at hp'
      cases hp'
    refine Acts.trans ?_ (raise_acts hE _ _)
    split_ifs with h
    · exact (Act.stray (hp h)).acts.tail (.expire (f := f.stray) e evts hX he hp hlow)
    · exact (Act.expire e evts hX he hp hlow).acts

/-- One turn of garbage collection moves `txevtseq` by at most one and keeps the window. -/
theorem expireOne_txevtseq (env : Env) (f : Flow) :
    (f.expireOne env).txevtseq ≤ f.txevtseq + 1 ∧ (f.expireOne env).txackseq = f.txackseq := by
  have key : ∀ (g : Flow) (e : Event), Still (g.logged e) (g.raise env e) := fun g e =>
    (raise_acts (sound_calling env) g e).still ActScope.idle_calling
  unfold expireOne
  cases f.txevts with
  | nil => exact ⟨Nat.le_succ _, rfl⟩
  | cons e evts =>
    rw [(key _ _).txevtseq, (key _ _).txackseq]
    cases e.pipe <;> exact ⟨le_rfl, rfl⟩

theorem collect_acts (hE : Sound S.toScope env) (f : Flow) (hX : S.expires)
    (hB : S.strays ∨ ∀ g, Acts S f g → g.txevtseq + maskBits ≤ g.txackseq →
      ∃ e evts, g.txevts = e :: evts ∧ e.pipe = false) :
    Acts S f (f.collect env) := by
  unfold collect
  split_ifs with h
  · have key : ∀ k g, Acts S f g → (0 < k → g.txevtseq + k + maskBits ≤ g.txackseq + 1) →
        Acts S g ((expireOne env)^[k] g) := by
      intro k
      induction k with
      | zero => exact fun g _ _ => .refl
      | succ k ih =>
        intro g hg hk
        have hlow : g.txevtseq + maskBits ≤ g.txackseq := by have := hk (Nat.succ_pos k); omega
        have h1 := expireOne_acts hE g hX hlow (hB.imp_right fun hB => hB g hg hlow)
        obtain ⟨h2, h3⟩ := expireOne_txevtseq env g
        rw [Function.iterate_succ_apply]
        refine h1.trans (ih _ (hg.trans h1) fun _ => ?_)
        have := hk (Nat.succ_pos k)
        omega
    exact key _ f .refl fun hk => by omega
  · exact .refl

/-! ## Operations -/

theorem setLinkStatus_acts (hE : Sound S.toScope env) (hU : S.updates) (f : Flow)
    (status : LinkStatus) : Acts S f (f.setLinkStatus env status) := by
  unfold setLinkStatus
  split_ifs
  · exact (Act.link hU status).acts.trans (raise_note_acts hE _ (.linkStatus status) trivial)
  · exact .refl

theorem start_acts (hE : Sound S.toScope env) (hU : S.updates) (f : Flow) :
    Acts S { f with active := true, nocc := f.nocc || env.sockCC, rtxtimer := true }
      (f.start env) :=
  (raise_note_acts hE _ .readyTransmit trivial).trans (setLinkStatus_acts hE hU _ .up)

theorem stop_acts (hE : Sound S.toScope env) (hU : S.updates) (f : Flow) :
    Acts S { f with rtxtimer := false, acktimer := none, active := false } (f.stop env) :=
  setLinkStatus_acts hE hU _ .down

/-- **A retransmission timeout** is a sequence of actions. -/
theorem rtxTimeout_acts (hE : Sound S.toScope env) (hS : ¬S.expires) (hU : S.updates)
    (hM : ∀ n, n ∈ S.misses) (f : Flow) (fail : Bool)
    (hB : S.strays ∨ f.txevtseq + f.txevts.length = f.txseq) :
    Acts S f (f.rtxTimeout env fail) := by
  have h1 : ∀ g : Flow, Acts S f g → g.kept = f.kept →
      Acts S f ((List.range' g.txevtseq (g.txseq - g.txevtseq)).foldl (rtoOne env) g) := by
    intro g hf hg
    have e1 : g.txseq = f.txseq := congrArg Kept.txseq hg
    have e2 : g.txevtseq = f.txevtseq := congrArg Kept.txevtseq hg
    have e3 : g.txevts = f.txevts := congrArg Kept.txevts hg
    refine hf.trans (range_acts hS _ _ (fun _ m hm h => rtoOne_acts hE m hm h)
      (hB.imp_right fun hB m hm1 hm2 => ?_) fun m _ _ => hM m)
    refine ⟨?_, hm1, by omega⟩
    rw [e1, e2, e3]
    exact hB
  have h2 : ∀ (g : Flow) (ok : Bool), Acts S f g →
      Acts S f (((g.check ok).raise env .readyTransmit).setLinkStatus env
        (if fail then .down else .stalled)) := by
    intro g ok hg
    exact ((hg.tail (.check ok)).trans (raise_note_acts hE _ .readyTransmit trivial)).trans
      (setLinkStatus_acts hE hU _ _)
  have h3 : Act S f { f with rtxtimer := true } := .timer hU true
  dsimp only [rtxTimeout]
  refine h2 _ _ (h1 _ ?_ ?_)
  · split_ifs
    · exact h3.acts
    · exact h3.acts.tail (.timeout hU)
  · split_ifs <;> rfl

/-! ## Reception -/

theorem passUp_acts (hE : Sound S.toScope env) (f : Flow) (pktseq : ℕ)
    (hn : env.accept pktseq = true → pktseq ∈ S.calls) : Acts S f (f.passUp env pktseq) := by
  have h := raise_note_acts hE f (.received pktseq) trivial
  dsimp only [passUp]
  split_ifs with ha
  · exact h.trans (acknowledge_acts _ env.now pktseq true (hn ha))
  · exact h

theorem signalReady_acts (hE : Sound S.toScope env) (f : Flow) : Acts S f (f.signalReady env) := by
  unfold signalReady
  split_ifs
  · exact (mayTransmit_acts f env).trans (raise_note_acts hE _ .readyTransmit trivial)
  · exact mayTransmit_acts f env

theorem deliver_acts (hE : Sound S.toScope env) (f : Flow) (pktseq newpackets : ℕ)
    (hn : env.accept pktseq = true → pktseq ∈ S.calls) :
    Acts S f (f.deliver env pktseq newpackets) := by
  dsimp only [deliver]
  split_ifs
  · exact passUp_acts hE f pktseq hn
  · exact (passUp_acts hE f pktseq hn).trans (signalReady_acts hE _)

theorem rollAcks_acts (hE : Sound S.toScope env) (hS : S.strays) (pktseq : ℕ) (f : Flow)
    (ackseq ackdiff newpackets : ℕ) (hR : S.rolls ackseq)
    (hA : ∀ k, ackseq - newpackets + 1 ≤ k → k < ackseq - newpackets + 1 + newpackets →
      k ∈ S.acks) :
    Acts S f (f.rollAcks env pktseq ackseq ackdiff newpackets) ∧
      (f.rollAcks env pktseq ackseq ackdiff newpackets).txackseq = ackseq := by
  dsimp only [rollAcks]
  generalize ((if ackdiff < maskBits then f.txackmask <<< ackdiff else 0#32) |||
    (1#32 <<< newpackets - 1#32)) = m
  have h2 := ackRange_acts (S := S.loop) hE not_false
    (f.rollWindow ackseq m) pktseq (ackseq - newpackets + 1) newpackets (.inl hS) hA
  exact ⟨(Act.roll ackseq m hR).acts.trans h2.ofLoop, (h2.still S.idle_loop).txackseq⟩

theorem inferLosses_acts (hE : Sound S.toScope env) (hS : S.strays) (hO : S.Open) (f : Flow)
    (ackseq ackdiff newpackets : ℕ) : Acts S.loop f (f.inferLosses env ackseq ackdiff newpackets) :=
  missRange_acts (S := S.loop) hE not_false hO.cuts f _ _ (.inl hS) fun m _ _ => hO.misses m

theorem progress_acts (hE : Sound S.toScope env) (hS : S.strays) (hU : S.updates) (f : Flow) :
    Acts S.collecting f (f.progress env) := by
  exact ((collect_acts (S := S.collecting) hE f trivial (.inl hS)).trans
    (setLinkStatus_acts (S := S.collecting) hE hU _ .up)).tail (.timer (S := S.collecting) hU _)

theorem ackNew_acts (hE : Sound S.toScope env) (hX : S.expires) (hS : S.strays) (hO : S.Open)
    (pktseq : ℕ) (f : Flow) (ackseq ackdiff ackct : ℕ) (hR : S.rolls ackseq)
    (hA : (∀ n, n ∈ S.acks) ∨ ackdiff ≤ ackseq ∧ covered ackseq ackct ⊆ S.acks) :
    Acts S f (f.ackNew env pktseq ackseq ackdiff ackct).1 ∧
      (f.ackNew env pktseq ackseq ackdiff ackct).1.txackseq = ackseq := by
  dsimp only [ackNew]
  obtain ⟨h1, h2⟩ := rollAcks_acts hE hS pktseq f ackseq ackdiff (min ackdiff (ackct + 1)) hR
    fun k hk1 hk2 => hA.elim (fun hA => hA k) fun hA => hA.2 ⟨by omega, by omega⟩
  generalize f.rollAcks env pktseq ackseq ackdiff (min ackdiff (ackct + 1)) = f₂ at h1 h2 ⊢
  have h3 := inferLosses_acts hE hS hO f₂ ackseq ackdiff (min ackdiff (ackct + 1))
  have h4 := progress_acts hE hS hO.updates
    (f₂.inferLosses env ackseq ackdiff (min ackdiff (ackct + 1)))
  exact ⟨(h1.trans h3.ofLoop).trans (h4.ofCollecting hX),
    (h4.path.txackseq fun _ => id).trans ((h3.still S.idle_loop).txackseq.trans h2)⟩

theorem ackReceived_acts (hE : Sound S.toScope env) (hX : S.expires) (hS : S.strays) (hO : S.Open)
    (pktseq : ℕ) (f : Flow) (ackseq : ℕ) (ackdiff : ℤ) (ackct : ℕ) (hR : S.rolls ackseq)
    (hA : (∀ n, n ∈ S.acks) ∨ (ackseq : ℤ) = f.txackseq + ackdiff ∧ covered ackseq ackct ⊆ S.acks) :
    Acts S f (f.ackReceived env pktseq ackseq ackdiff ackct).1 := by
  unfold ackReceived
  split_ifs with h
  · obtain ⟨h1, h2⟩ := ackNew_acts hE hX hS hO pktseq f ackseq ackdiff.toNat ackct hR
      (hA.imp_right fun hA => ⟨by omega, hA.2⟩)
    refine h1.trans (Acts.ofLoop ?_)
    refine straggle_acts (S := S.loop) hE (fun _ => id) not_false hO.masks pktseq _ 0 ackct _
      (.inl hS) ?_
    intro bit _ hb hle
    rw [h2] at hle ⊢
    exact hA.elim (fun hA => hA _) fun hA => hA.2 ⟨Nat.sub_le _ _, by omega⟩
  · refine Acts.ofLoop ?_
    refine straggle_acts (S := S.loop) hE (fun _ => id) not_false hO.masks pktseq f _ ackct 0
      (.inl hS) ?_
    intro bit hb1 hb2 hle
    exact hA.elim (fun hA => hA _) fun hA => hA.2 ⟨by omega, by omega⟩

theorem ackReceived_count (f : Flow) (pktseq ackseq : ℕ) (ackdiff : ℤ) {ackct : ℕ}
    (h : ackct ≤ ackctMax) : (f.ackReceived env pktseq ackseq ackdiff ackct).2 ≤ 32 := by
  unfold ackctMax at h
  unfold ackReceived
  split_ifs
  · refine (straggle_count ..).trans ?_
    have : (f.ackNew env pktseq ackseq ackdiff.toNat ackct).2 ≤ ackct + 1 := min_le_right _ _
    omega
  · refine (straggle_count ..).trans ?_
    omega

/-- **An authenticated packet** is processed by actions. -/
theorem process_acts (hE : Sound S.toScope env) (hX : S.expires) (hS : S.strays) (hO : S.Open)
    (hG : S.grows) (f : Flow) (packseq : BitVec 32) (pktseq : ℕ)
    (hn : env.accept pktseq = true → pktseq ∈ S.calls)
    (hR : f.ackSeq packseq < f.txseq → S.rolls (f.ackSeq packseq))
    (hA : f.ackSeq packseq < f.txseq → (∀ n, n ∈ S.acks) ∨
      (f.ackSeq packseq : ℤ) = f.txackseq + f.ackDiff packseq ∧
        covered (f.ackSeq packseq) (ackctOf packseq) ⊆ S.acks) :
    Acts S f (f.process env packseq pktseq) := by
  dsimp only [process]
  split_ifs with h
  · exact .refl
  · have h' := not_le.mp h
    refine ((ackReceived_acts hE hX hS hO pktseq f _ _ _ (hR h') (hA h')).tail ?_).trans
      (deliver_acts hE _ pktseq _ hn)
    exact .grow hO.updates hG env _ _ (ackReceived_count f pktseq _ _ (ackctOf_le packseq))

/-- An authenticated packet, where anything may happen. -/
theorem process_any (env : Env) (f : Flow) (packseq : BitVec 32) (pktseq : ℕ) :
    Acts .any f (f.process env packseq pktseq) :=
  process_acts (sound_any env) trivial trivial ActScope.open_any trivial f packseq pktseq
    (fun _ => Set.mem_univ _) (fun _ => trivial) fun _ => .inl Set.mem_univ

/-- **One operation** is a path, or the processing of an authenticated packet. -/
theorem step_cases {S : Scope} {f g : Flow} {op : Op}
    (hE : (∀ pkt, op ≠ .receive pkt) → Sound S env)
    (hX : ¬S.expires) (hc : ∀ c, op = .call c → Admits S c)
    (hB : S.strays ∨ f.txevtseq + f.txevts.length = f.txseq) (h : f.step env op = some g) :
    Path S f g ∨ ∃ pkt pktseq r, op = .receive pkt ∧
      f.toRxState.accept pkt = some (pktseq, r) ∧
      g = (f.arrive pktseq r).process env pkt.packseq pktseq := by
  cases op with
  | start =>
    cases h
    have h1 : Path S f { f with active := true, nocc := f.nocc || env.sockCC, rtxtimer := true } :=
      .tune rfl
    exact .inl (h1.trans (start_acts (S := S.full) (hE nofun) trivial f).path)
  | stop =>
    cases h
    have h1 : Path S f { f with rtxtimer := false, acktimer := none, active := false } := .tune rfl
    exact .inl (h1.trans (stop_acts (S := S.full) (hE nofun) trivial f).path)
  | receive pkt =>
    cases h
    unfold receive
    split_ifs
    · exact .inl .refl
    · cases ha : f.toRxState.accept pkt with
      | none => exact .inl .refl
      | some a => exact .inr ⟨pkt, a.1, a.2, rfl, ha, rfl⟩
  | rtxTimeout fail =>
    change (if f.rtxtimer then some (f.rtxTimeout env fail) else none) = some g at h
    split_ifs at h
    cases h
    exact .inl (rtxTimeout_acts (S := S.full) (hE nofun) hX trivial Set.mem_univ f fail hB).path
  | ackTimeout =>
    change (if f.acktimer.isSome then some (f.ackTimeout env) else none) = some g at h
    split_ifs at h
    cases h
    exact .inl (flushack_acts (S := S.full) f env.now).path
  | call c => cases h; exact .inl (call_acts (S := S.full) env f (hc c rfl)).path
  | setDelayedAcks enabled => cases h; exact .inl (.tune rfl)
  | setCCMode mode => cases h; exact .inl (.tune rfl)
  | setCCWindow cwnd => cases h; exact .inl (.tune rfl)

/-- No operation forgets what was reported. -/
theorem step_log_subset {f g : Flow} {op : Op} (h : f.step env op = some g) : f.log ⊆ g.log := by
  rcases step_cases (S := Scope.wild.loop) (fun _ => sound_any env) not_false
    (fun _ _ n _ _ => Set.mem_univ n) (.inl trivial) h with hp | ⟨pkt, n, r, rfl, -, rfl⟩
  · exact hp.log_subset
  · have hp := (process_any env (f.arrive n r) pkt.packseq n).path
    exact List.Subset.trans (List.subset_cons_self _ _) hp.log_subset

end Operations

end Flow

end Sst
