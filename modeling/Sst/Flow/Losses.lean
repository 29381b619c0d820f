import Sst.Flow.Action
import Sst.Flow.Accounting
import Sst.Lib.Window

/-!
# What congestion control is told

The losses that an authentic packet makes the flow infer, and the acknowledgments that it adds to
the counters of the mark.

* `Flow.Authentic`, `Flow.onPacket`: the packets that are processed.
* `Flow.misses`: the calls of `ccMissed`, with their states; **`Flow.missRange_succ`**: one turn of
  their loop.
* `Flow.newAcks`, **`Flow.ackReceived_snd`**: how many packets a word newly acknowledges.
* `Flow.SameMark`, `Flow.Acts.markKept`: the mark until congestion control takes them into account.
* `Tally`, `Flow.tally`: the counters of the mark after a packet.
-/

namespace Sst

open Window

namespace Flow

variable {f g k : Flow}

/-! ## Packets that are processed -/

/-- The armor and the replay window of an active flow pass a packet. -/
structure Authentic (f : Flow) (pkt : Packet) (pktseq : ℕ) (r : RxState) : Prop where
  active : f.active = true
  size : hdrlen ≤ pkt.size
  accepted : f.toRxState.accept pkt = some (pktseq, r)

theorem Authentic.receive {pkt : Packet} {pktseq : ℕ} {r : RxState} (h : f.Authentic pkt pktseq r)
    (env : Env) : f.receive env pkt = (f.arrive pktseq r).process env pkt.packseq pktseq := by
  unfold Flow.receive
  rw [h.active, h.accepted, decide_eq_false (not_lt.mpr h.size)]
  rfl

/-- What `view` says of the packet that is processed by an operation. -/
def onPacket {α : Type*} (f : Flow) (view : Flow → BitVec 32 → ℕ → α) : Op → Option α
  | .receive pkt =>
    if !f.active || pkt.size < hdrlen then none
    else (f.toRxState.accept pkt).map fun a => view (f.arrive a.1 a.2) pkt.packseq a.1
  | _ => none

theorem onPacket_eq_some {α : Type*} {view : Flow → BitVec 32 → ℕ → α} {op : Op} {a : α}
    (h : f.onPacket view op = some a) : ∃ pkt pktseq r, op = .receive pkt ∧
      f.Authentic pkt pktseq r ∧ a = view (f.arrive pktseq r) pkt.packseq pktseq := by
  cases op with
  | receive pkt =>
    obtain ⟨hdrop, h⟩ := Option.ite_none_left_eq_some.mp h
    obtain ⟨a, ha, rfl⟩ := Option.map_eq_some_iff.mp h
    rw [Bool.or_eq_true, Bool.not_eq_true', decide_eq_true_eq, not_or] at hdrop
    exact ⟨pkt, a.1, a.2, rfl,
      ⟨Bool.eq_true_of_not_eq_false hdrop.1, not_lt.mp hdrop.2, ha⟩, rfl⟩
  | _ => cases h

theorem Authentic.onPacket {α : Type*} {view : Flow → BitVec 32 → ℕ → α} {pkt : Packet}
    {pktseq : ℕ} {r : RxState} (h : f.Authentic pkt pktseq r) :
    f.onPacket view (.receive pkt) = some (view (f.arrive pktseq r) pkt.packseq pktseq) := by
  change (if !f.active || pkt.size < hdrlen then none else Option.map _ _) = _
  rw [h.active, h.accepted, decide_eq_false (not_lt.mpr h.size)]
  rfl

/-! ## Losses -/

/-- The state in which `missOne` calls `ccMissed`, if it does. -/
def missState (f : Flow) (seq : ℕ) : Option Flow :=
  if seq < f.txevtseq then none
  else (f.txevts[seq - f.txevtseq]?).bind fun e => if e.pipe then some (f.leavePipe seq e) else none

/-- The calls of `ccMissed` in `missRange`, newest first: the state of the call, and the lost
packet. -/
def rangeMisses (env : Env) (f : Flow) (seq : ℕ) : ℕ → List (Flow × ℕ)
  | 0 => []
  | n + 1 => (((f.missRange env seq n).missState (seq + n)).map fun g => (g, seq + n)).toList ++
      f.rangeMisses env seq n

/-- The calls of `ccMissed` in `inferLosses`. -/
def inferMisses (env : Env) (f : Flow) (ackseq ackdiff newpackets : ℕ) : List (Flow × ℕ) :=
  f.rangeMisses env (f.missseq ackseq ackdiff)
    (f.misslim ackseq newpackets + 1 - f.missseq ackseq ackdiff)

/-- The calls of `ccMissed` in `process`. -/
def processMisses (env : Env) (f : Flow) (packseq : BitVec 32) (pktseq : ℕ) : List (Flow × ℕ) :=
  let ackseq := f.ackSeq packseq
  let ackdiff := f.ackDiff packseq
  let newpackets := min ackdiff.toNat (ackctOf packseq + 1)
  if f.txseq ≤ ackseq ∨ ackdiff ≤ 0 then []
  else (f.rollAcks env pktseq ackseq ackdiff.toNat newpackets).inferMisses env ackseq ackdiff.toNat
    newpackets

/-- The calls of `ccMissed` in one operation: only `receive` makes any. -/
def misses (env : Env) (f : Flow) (op : Op) : List (Flow × ℕ) :=
  (f.onPacket (processMisses env) op).getD []

theorem missState_eq_some {seq : ℕ} (h : f.missState seq = some g) :
    f.kept.inPipe seq = true ∧ ∃ e, g = f.leavePipe seq e := by
  unfold missState at h
  obtain ⟨hlt, h⟩ := Option.ite_none_left_eq_some.mp h
  obtain ⟨e, he, h⟩ := Option.bind_eq_some_iff.mp h
  obtain ⟨hp, h⟩ := Option.ite_none_right_eq_some.mp h
  cases h
  exact ⟨inPipe_iff.mpr ⟨not_lt.mp hlt, e, he, hp⟩, e, rfl⟩

/-- **A turn of the loop** calls `ccMissed` in the recorded state, or leaves congestion control
alone. -/
theorem missRange_succ (env : Env) (f : Flow) (seq n : ℕ) :
    f.missRange env seq (n + 1) =
      match (f.missRange env seq n).missState (seq + n) with
      | some g => (g.ccMissed (seq + n)).raise env (.missed (seq + n))
      | none => (f.missRange env seq n).exitPipe (seq + n) id := by
  have hfold : f.missRange env seq (n + 1) = (f.missRange env seq n).missOne env (seq + n) := by
    unfold missRange
    rw [List.range'_concat, Nat.one_mul, List.foldl_concat]
  rw [hfold]
  generalize f.missRange env seq n = g
  unfold missOne exitPipe missState
  split_ifs with hlt
  · rfl
  · cases g.txevts[seq + n - g.txevtseq]? with
    | none => rfl
    | some e => cases h : e.pipe <;> simp [h]

theorem mem_rangeMisses {env : Env} {seq n : ℕ} {c : Flow × ℕ} (hc : c ∈ f.rangeMisses env seq n) :
    ∃ i < n, c.2 = seq + i ∧ (f.missRange env seq i).missState (seq + i) = some c.1 := by
  induction n with
  | zero => cases hc
  | succ n ih =>
    rcases List.mem_append.mp hc with hc | hc
    · obtain ⟨g, hg, rfl⟩ := Option.map_eq_some_iff.mp (Option.mem_toList.mp hc)
      exact ⟨n, Nat.lt_succ_self n, rfl, hg⟩
    · obtain ⟨i, hi, hci⟩ := ih hc
      exact ⟨i, Nat.lt_succ_of_lt hi, hci⟩

/-! ## Acknowledgments -/

/-- The acknowledgment mask rolled forward. -/
def rolledMask (f : Flow) (ackdiff newpackets : ℕ) : BitVec 32 :=
  (if ackdiff < maskBits then f.txackmask <<< ackdiff else 0#32) ||| (1#32 <<< newpackets - 1#32)

/-- The acknowledgment mask that the straggler block finds. -/
def maskAfter (f : Flow) (packseq : BitVec 32) : BitVec 32 :=
  if 0 < f.ackDiff packseq then
    f.rolledMask (f.ackDiff packseq).toNat (min (f.ackDiff packseq).toNat (ackctOf packseq + 1))
  else f.txackmask

/-- The mask of as many packets as the word counts. -/
def countMask (packseq : BitVec 32) : BitVec 32 := 1#32 <<< ackctOf packseq - 1#32

/-- Packet `txackseq - bit` is inside the acknowledgment window and not marked. -/
def unmarked (mask : BitVec 32) (bit : ℕ) : Bool := decide (bit < maskBits) && !mask.getLsbD bit

/-- How many packets a word newly acknowledges: the new ones that it counts, and the older ones
that it covers and that are not marked; none of these if as many as it counts are marked. -/
def newAcks (f : Flow) (packseq : BitVec 32) : ℕ :=
  min (f.ackDiff packseq).toNat (ackctOf packseq + 1) +
    if f.maskAfter packseq &&& countMask packseq = countMask packseq then 0
    else (List.range' (-f.ackDiff packseq).toNat (ackctOf packseq + 1)).countP
      (unmarked (f.maskAfter packseq))

theorem straggle_known {env : Env} {packseq : BitVec 32} {pktseq back newpackets : ℕ}
    (h : f.txackmask &&& countMask packseq = countMask packseq) :
    f.straggle env pktseq back (ackctOf packseq) newpackets = (f, newpackets) :=
  if_neg (not_not.mpr h)

/-- One turn of the straggler loop counts an unmarked packet and marks it. -/
theorem straggleOne_counts (env : Env) (pktseq newpackets bit : ℕ) (f : Flow) :
    (straggleOne env pktseq (f, newpackets) bit).2 =
        newpackets + (unmarked f.txackmask bit).toNat ∧
      ∀ b ≠ bit, (straggleOne env pktseq (f, newpackets) bit).1.txackmask.getLsbD b =
        f.txackmask.getLsbD b := by
  have hmask : ∀ b ≠ bit, bit < maskBits →
      (f.txackmask ||| 1#32 <<< bit).getLsbD b = f.txackmask.getLsbD b := by
    intro b hb hlt
    rw [BitVec.getLsbD_or, getLsbD_one_shiftLeft (w := 32) hlt, decide_eq_false hb, Bool.or_false]
  dsimp only [straggleOne, unmarked]
  split_ifs with h1 h2 h3
  · rw [decide_eq_false (not_lt.mpr h1)]
    exact ⟨rfl, fun _ _ => rfl⟩
  · have hset : f.txackmask.getLsbD bit = true :=
      (and_one_shiftLeft_ne_zero (w := 32) (not_le.mp h1)).mp h2
    rw [hset, Bool.not_true, Bool.and_false]
    exact ⟨rfl, fun _ _ => rfl⟩
  all_goals
    have hclear : f.txackmask.getLsbD bit = false := Bool.eq_false_iff.mpr fun hset =>
      h2 ((and_one_shiftLeft_ne_zero (w := 32) (not_le.mp h1)).mpr hset)
    rw [hclear, decide_eq_true (not_le.mp h1)]
    refine ⟨rfl, fun b hb => ?_⟩
  · exact hmask b hb (not_le.mp h1)
  · rw [(ackOne_acts (sound_exits env) pktseq (f.txackseq - bit) (.inl trivial)
      (Set.mem_univ _)).txackmask ActScope.idle_exits id]
    exact hmask b hb (not_le.mp h1)

/-- **The straggler block** counts the covered packets that are not marked. -/
theorem straggle_snd (env : Env) (f : Flow) (packseq : BitVec 32) (pktseq back newpackets : ℕ) :
    (f.straggle env pktseq back (ackctOf packseq) newpackets).2 = newpackets +
      if f.txackmask &&& countMask packseq = countMask packseq then 0
      else (List.range' back (ackctOf packseq + 1)).countP (unmarked f.txackmask) := by
  have key : ∀ (l : List ℕ) (g : Flow) (n : ℕ), l.Nodup →
      (∀ b ∈ l, g.txackmask.getLsbD b = f.txackmask.getLsbD b) →
      (l.foldl (straggleOne env pktseq) (g, n)).2 = n + l.countP (unmarked f.txackmask) := by
    intro l
    induction l with
    | nil => exact fun _ _ _ _ => rfl
    | cons bit l ih =>
      intro g n hl hg
      obtain ⟨hbit, hl⟩ := List.nodup_cons.mp hl
      obtain ⟨h1, h2⟩ := straggleOne_counts env pktseq n bit g
      have hcount : unmarked g.txackmask bit = unmarked f.txackmask bit := by
        unfold unmarked
        rw [hg bit List.mem_cons_self]
      rw [List.foldl_cons, List.countP_cons, ← hcount]
      generalize straggleOne env pktseq (g, n) bit = st at h1 h2 ⊢
      obtain ⟨k, m⟩ := st
      replace h1 : m = n + (unmarked g.txackmask bit).toNat := h1
      rw [ih k m hl fun b hb => ?_, h1]
      · cases unmarked g.txackmask bit with
        | false => simp
        | true => simp; omega
      · rw [h2 b (fun h => hbit (h ▸ hb))]
        exact hg b (List.mem_cons_of_mem _ hb)
  split_ifs with hk
  · rw [straggle_known hk]
    rfl
  · refine (congrArg Prod.snd (if_pos hk)).trans ?_
    exact key _ f newpackets List.nodup_range' fun _ _ => rfl

theorem raise_txackmask (env : Env) (f : Flow) (e : Event) :
    (f.raise env e).txackmask = f.txackmask := by
  have h := (raise_acts (sound_calling env) f e).txackmask ActScope.idle_calling id
  exact h

theorem expireOne_txackmask (env : Env) (f : Flow) :
    (f.expireOne env).txackmask = f.txackmask := by
  unfold expireOne
  cases f.txevts with
  | nil => rfl
  | cons e evts =>
    refine (raise_txackmask env _ _).trans ?_
    dsimp only
    split_ifs <;> rfl

theorem setLinkStatus_txackmask (env : Env) (f : Flow) (status : LinkStatus) :
    (f.setLinkStatus env status).txackmask = f.txackmask := by
  unfold setLinkStatus
  split_ifs
  · exact raise_txackmask env _ _
  · rfl

theorem progress_txackmask (env : Env) (f : Flow) : (f.progress env).txackmask = f.txackmask := by
  have key : ∀ (n : ℕ) (g : Flow), ((expireOne env)^[n] g).txackmask = g.txackmask := by
    intro n
    induction n with
    | zero => exact fun _ => rfl
    | succ n ih =>
      intro g
      rw [Function.iterate_succ_apply, ih, expireOne_txackmask]
  refine (setLinkStatus_txackmask env (f.collect env) .up).trans ?_
  unfold collect
  split_ifs
  · exact key _ f
  · rfl

/-- The mask rolls with new acknowledgments, whatever the callbacks do. -/
theorem ackNew_txackmask (env : Env) (f : Flow) (pktseq ackseq ackdiff ackct : ℕ) :
    (f.ackNew env pktseq ackseq ackdiff ackct).1.txackmask =
      f.rolledMask ackdiff (min ackdiff (ackct + 1)) := by
  have hloss : ∀ (g : Flow) (d n : ℕ), (g.inferLosses env ackseq d n).txackmask = g.txackmask :=
    fun g d n => (missRange_acts (sound_exits env) not_false trivial g _ _ (.inl trivial)
      fun m _ _ => Set.mem_univ m).txackmask ActScope.idle_exits id
  refine (progress_txackmask env _).trans ((hloss _ _ _).trans ?_)
  exact (ackRange_acts (sound_exits env) not_false _ pktseq _ _ (.inl trivial)
    fun m _ _ => Set.mem_univ m).txackmask ActScope.idle_exits id

/-- **The acknowledgment part of `receive`** counts the newly acknowledged packets. -/
theorem ackReceived_snd (env : Env) (f : Flow) (packseq : BitVec 32) (pktseq : ℕ) :
    (f.ackReceived env pktseq (f.ackSeq packseq) (f.ackDiff packseq) (ackctOf packseq)).2 =
      f.newAcks packseq := by
  unfold ackReceived newAcks maskAfter
  by_cases hd : 0 < f.ackDiff packseq
  · have hmask := ackNew_txackmask env f pktseq (f.ackSeq packseq) (f.ackDiff packseq).toNat
      (ackctOf packseq)
    have hcount : (f.ackNew env pktseq (f.ackSeq packseq) (f.ackDiff packseq).toNat
        (ackctOf packseq)).2 = min (f.ackDiff packseq).toNat (ackctOf packseq + 1) := rfl
    rw [if_pos hd, if_pos hd, Int.toNat_of_nonpos (show -f.ackDiff packseq ≤ 0 by omega), ← hmask,
      ← hcount]
    generalize f.ackNew env pktseq _ _ (ackctOf packseq) = st
    obtain ⟨g, n⟩ := st
    exact straggle_snd env g packseq pktseq 0 n
  · rw [if_neg hd, if_neg hd, Int.toNat_of_nonpos (not_lt.mp hd), Nat.zero_min]
    exact straggle_snd ..

/-! ## The mark -/

/-- The mark of `g` is that of `f`. -/
structure SameMark (f g : Flow) : Prop where
  markseq : g.markseq = f.markseq
  markbase : g.markbase = f.markbase
  markacks : g.markacks = f.markacks
  marksent : g.marksent = f.marksent

theorem SameMark.refl : SameMark f f := ⟨rfl, rfl, rfl, rfl⟩

theorem SameMark.trans (h₁ : SameMark f g) (h₂ : SameMark g k) : SameMark f k :=
  ⟨h₂.markseq.trans h₁.markseq, h₂.markbase.trans h₁.markbase, h₂.markacks.trans h₁.markacks,
    h₂.marksent.trans h₁.marksent⟩

theorem tx_sameMark (now : ℕ) (packseq : BitVec 32) (size : ℕ) (isdata : Bool)
    (h : f.txseq ≠ f.markseq) : SameMark f (f.tx now packseq size isdata) :=
  ⟨rfl, if_neg h, if_neg h, if_neg h⟩

theorem ccMissed_sameMark (f : Flow) (pktseq : ℕ) : SameMark f (f.ccMissed pktseq) := by
  unfold ccMissed
  split_ifs
  · exact .refl
  · cases f.ccmode with
    | aggressive =>
      dsimp only [clampWindow]
      split_ifs <;> exact ⟨rfl, rfl, rfl, rfl⟩
    | ctcp => exact ⟨rfl, rfl, rfl, rfl⟩
    | fixed => exact .refl
    | _ =>
      dsimp only [cutWindow]
      split_ifs <;> exact ⟨rfl, rfl, rfl, rfl⟩

/-- From `f` to `g` the mark stays, or is set by the transmission of the packet to be marked. -/
structure MarkKept (f g : Flow) : Prop where
  markseq : g.markseq = f.markseq
  txseq : f.txseq ≤ g.txseq
  mark : SameMark f g ∨ f.txseq ≤ f.markseq ∧ g.markacks = 0#32

theorem MarkKept.tx (h : MarkKept f g) (now : ℕ) (packseq : BitVec 32) (size : ℕ) (isdata : Bool) :
    MarkKept f (g.tx now packseq size isdata) := by
  refine ⟨h.markseq, h.txseq.trans (Nat.le_succ _), ?_⟩
  by_cases heq : g.txseq = g.markseq
  · exact .inr ⟨h.txseq.trans (heq.trans h.markseq).le, if_pos heq⟩
  · exact h.mark.imp (fun hm => hm.trans (tx_sameMark now packseq size isdata heq))
      fun hm => ⟨hm.1, (if_neg heq).trans hm.2⟩

/-- **The mark** until congestion control takes acknowledgments into account. -/
theorem Acts.markKept {S : ActScope} (hS : ¬S.grows) (h : Acts S f g) : MarkKept f g := by
  refine h.invariant (P := MarkKept f) (fun a b hab ha => ?_) ⟨rfl, le_rfl, .inl .refl⟩
  have hsame : ∀ b, SameMark a b → b.txseq = a.txseq → MarkKept f b := fun b hm ht =>
    ⟨hm.markseq.trans ha.markseq, ht ▸ ha.txseq,
      ha.mark.imp (fun h => h.trans hm) fun h => ⟨h.1, hm.markacks.trans h.2⟩⟩
  cases hab with
  | txack now ackct ackseq => exact ha.tx _ _ _ _
  | data now size =>
    obtain ⟨h1, h2, h3⟩ := ha.tx now (ackWord a.rxackct a.rxackseq) size true
    exact ⟨h1, h2, h3.imp_left fun h => ⟨h.1, h.2, h.3, h.4⟩⟩
  | cut _ seq e =>
    obtain ⟨h1, h2, h3, h4⟩ := ccMissed_sameMark (a.leavePipe seq e) seq
    exact hsame _ ⟨h1, h2, h3, h4⟩ (congrArg (·.txseq)
      (ccMissed_tuned (a.leavePipe seq e) seq).rest)
  | grow _ hG => exact absurd hG hS
  | _ => exact hsame _ ⟨rfl, rfl, rfl, rfl⟩ rfl

theorem MarkKept.sameMark (h : MarkKept f g) (hlt : f.markseq < f.txseq) : SameMark f g :=
  h.mark.resolve_right fun hm => absurd hm.1 (not_le.mpr hlt)

theorem MarkKept.markacks_le (h : MarkKept f g) : g.markacks.toNat ≤ f.markacks.toNat := by
  rcases h.mark with hm | ⟨-, hm⟩
  · rw [hm.markacks]
  · rw [hm]
    exact Nat.zero_le _

end Flow

/-! ## The counters of the mark -/

/-- The counters of the mark when `newpackets` acknowledgments are added to `markacks`, and whether
the acknowledged number ends a round trip. -/
structure Tally where
  marksent : BitVec 32
  markacks : BitVec 32
  newpackets : ℕ
  tripEnds : Bool
  deriving DecidableEq

namespace Tally

/-- `markacks` after the addition. -/
def acked (t : Tally) : BitVec 32 := t.markacks + BitVec.ofNat 32 t.newpackets

/-- `marksent - markacks`, in the loss rate of the round trip. -/
def lost (t : Tally) : BitVec 32 := t.marksent - t.acked

/-- The sum and the difference do not wrap. -/
structure Exact (t : Tally) : Prop where
  acked : t.acked.toNat = t.markacks.toNat + t.newpackets
  lost : t.tripEnds = true → (t.lost.toNat : ℤ) =
    t.marksent.toNat - (t.markacks.toNat + t.newpackets)

/-- The bound of `markacks`: a round trip ends with no more acknowledgments than `marksent`. -/
def limit (t : Tally) : ℕ := if t.tripEnds then t.marksent.toNat else 2 ^ 32 - 1

theorem exact_iff (t : Tally) : t.Exact ↔ t.markacks.toNat + t.newpackets ≤ t.limit := by
  have hacked : t.acked.toNat = (t.markacks.toNat + t.newpackets) % 2 ^ 32 := by
    rw [acked, BitVec.toNat_add, BitVec.toNat_ofNat, Nat.add_mod_mod]
  constructor
  · rintro ⟨ha, hl⟩
    unfold limit
    split_ifs with ht
    · have := hl ht
      omega
    · have := t.acked.isLt
      omega
  · intro h
    have hle : t.limit < 2 ^ 32 := by
      unfold limit
      split_ifs
      · exact t.marksent.isLt
      · decide
    have ha : t.acked.toNat = t.markacks.toNat + t.newpackets := by
      rw [hacked, Nat.mod_eq_of_lt (h.trans_lt hle)]
    refine ⟨ha, fun ht => ?_⟩
    rw [limit, if_pos ht, ← ha] at h
    rw [lost, BitVec.toNat_sub_of_le (BitVec.le_def.mpr h)]
    omega

end Tally

namespace Flow

/-- The counters after an authentic packet. -/
def processTally (env : Env) (f : Flow) (packseq : BitVec 32) (pktseq : ℕ) : Option Tally :=
  let ackseq := f.ackSeq packseq
  if f.txseq ≤ ackseq then none
  else
    let (f, newpackets) := f.ackReceived env pktseq ackseq (f.ackDiff packseq) (ackctOf packseq)
    some ⟨f.marksent, f.markacks, newpackets, decide (f.markseq ≤ ackseq)⟩

/-- The counters after an operation: only `receive` adds to them. -/
def tally (env : Env) (f : Flow) (op : Op) : Option Tally :=
  (f.onPacket (processTally env) op).join

/-- The word keeps `markacks` within its limit: it ends no round trip with more acknowledgments than
`marksent`. -/
def TallyFits (f : Flow) (packseq : BitVec 32) : Prop :=
  f.markacks.toNat + f.newAcks packseq ≤
    if f.markseq ≤ f.ackSeq packseq then f.marksent.toNat else 2 ^ 32 - 1

/-- **The counters are exact** if the word keeps them within their limits, and at the end of a round
trip only then. -/
theorem processTally_exact {f : Flow} {env : Env} {packseq : BitVec 32} {pktseq : ℕ} {t : Tally}
    (ht : f.processTally env packseq pktseq = some t) : f.ackSeq packseq < f.txseq ∧
      (f.TallyFits packseq → t.Exact) ∧ (t.tripEnds = true → t.Exact → f.TallyFits packseq) := by
  have hcount := ackReceived_snd env f packseq pktseq
  have hacts : Acts .acking f _ := ackReceived_acts (sound_acking env) trivial trivial
    ActScope.open_acking pktseq f (f.ackSeq packseq) (f.ackDiff packseq) (ackctOf packseq) trivial
    (.inl Set.mem_univ)
  dsimp only [processTally] at ht
  obtain ⟨hlt, ht⟩ := Option.ite_none_left_eq_some.mp ht
  generalize f.ackReceived env pktseq (f.ackSeq packseq) (f.ackDiff packseq) (ackctOf packseq) = st
    at hcount hacts ht
  obtain ⟨g, n⟩ := st
  replace hcount : n = f.newAcks packseq := hcount
  replace hacts : Acts .acking f g := hacts
  have hmark := hacts.markKept id
  cases ht
  rw [Tally.exact_iff, TallyFits, Tally.limit, ← hcount]
  refine ⟨not_le.mp hlt, ?_⟩
  dsimp only
  by_cases hend : f.markseq ≤ f.ackSeq packseq
  · have hm := hmark.sameMark (hend.trans_lt (not_le.mp hlt))
    rw [hm.markacks, hm.marksent, hm.markseq, decide_eq_true hend, if_pos rfl, if_pos hend]
    exact ⟨id, fun _ => id⟩
  · rw [hmark.markseq, decide_eq_false hend, if_neg Bool.false_ne_true, if_neg hend]
    exact ⟨fun h => (Nat.add_le_add_right hmark.markacks_le n).trans h, nofun⟩

end Flow

end Sst
