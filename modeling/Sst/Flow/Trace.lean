import Sst.Flow.Receive
import Mathlib.Logic.Relation
import Mathlib.Data.Set.Basic

/-!
# Elementary steps of a flow

What happens to the part of a flow that congestion control, timers and link status leave alone: a
few elementary steps. The invariants of this part are proved on these.

* `Flow.kept`: the part.
* `Scope`: which acknowledgments may be reported or made, and which steps may occur.
* **`Flow.Micro`**: the elementary steps; `Flow.Path`: their sequences.
* `Flow.Tuned.kept`, `Flow.kept_ccReceived`: congestion control leaves the part alone.
-/

namespace Sst

/-- Reports to the upper layer that the accounting does not depend on. -/
def Event.Quiet : Event → Prop
  | .received _ | .readyTransmit | .linkStatus _ => True
  | _ => False

/-- The part of a flow that congestion control, timers and link status leave alone. -/
structure Kept where
  txseq : ℕ
  txevts : List TxEvent
  txevtseq : ℕ
  txackseq : ℕ
  txfltcnt : BitVec 32
  txfltsize : BitVec 32
  missthresh : ℕ
  rx : RxState
  rxackseq : ℕ
  rxackct : ℕ
  remoteChannel : BitVec 8
  overrun : Bool
  log : List Event

/-- What may happen along a path: the numbers reported acknowledged, the numbers the upper layer
acknowledges, where the acknowledgment window may roll to, and whether records expire or accesses
stray. -/
structure Scope where
  acks : Set ℕ
  calls : Set ℕ
  rolls : ℕ → Prop
  expires : Prop
  strays : Prop

namespace Scope

/-- Anything may happen. -/
def wild : Scope := ⟨Set.univ, Set.univ, fun _ => True, True, True⟩

/-- The scope of a loop over transmit records: the window stays and no record expires. -/
def loop (S : Scope) : Scope := { S with rolls := fun _ => False, expires := False }

/-- The scope of garbage collection: the window stays. -/
def collecting (S : Scope) : Scope := { S with rolls := fun _ => False, expires := True }

/-- The window stays where it is. -/
def Fixed (S : Scope) : Prop := ∀ n, ¬S.rolls n

/-- A larger scope allows more. -/
structure Le (S T : Scope) : Prop where
  acks : S.acks ⊆ T.acks
  calls : S.calls ⊆ T.calls
  rolls : ∀ n, S.rolls n → T.rolls n
  expires : S.expires → T.expires
  strays : S.strays → T.strays

end Scope

namespace Flow

/-- The kept part of `f`. -/
def kept (f : Flow) : Kept :=
  ⟨f.txseq, f.txevts, f.txevtseq, f.txackseq, f.txfltcnt, f.txfltsize, f.missthresh, f.toRxState,
    f.rxackseq, f.rxackct, f.remoteChannel, f.overrun, f.log⟩

/-- Add an event to the log. -/
def logged (f : Flow) (e : Event) : Flow := { f with log := e :: f.log }

/-- **The elementary steps of a flow.** -/
inductive Micro (S : Scope) (f : Flow) : Flow → Prop
  | tune {g : Flow} (h : g.kept = f.kept) : Micro S f g
  | note (e : Event) (h : e.Quiet) : Micro S f (f.logged e)
  | tx (now ackct ackseq size : ℕ) (isdata : Bool)
      (h : (ackct = f.rxackct ∧ ackseq = f.rxackseq) ∨
        ∃ n, .acknowledged n ∈ f.log ∧ ackct = 0 ∧ ackseq = n % 2 ^ 16) :
      Micro S f (f.tx now (ackWord ackct ackseq) size isdata)
  | acknowledged (n : ℕ) (h : n ∈ S.calls) : Micro S f (f.logged (.acknowledged n))
  | extend (n : ℕ) (h : .acknowledged n ∈ f.log)
      (hd : Word.wrap 32 ((n % 2 ^ 16 : ℕ) - f.rxackseq) = 1) :
      Micro S f { f with rxackseq := n % 2 ^ 16, rxackct := min (f.rxackct + 1) ackctMax }
  | restart (n : ℕ) (h : .acknowledged n ∈ f.log) :
      Micro S f { f with rxackseq := n % 2 ^ 16, rxackct := 0 }
  | exit (seq : ℕ) (e : TxEvent) (r : Event) (hs : f.txevtseq ≤ seq)
      (he : f.txevts[seq - f.txevtseq]? = some e) (hp : e.pipe = true)
      (hr : (seq ∈ S.acks ∧ ∃ rxseq, r = .acked seq rxseq) ∨ r = .missed seq) :
      Micro S f ((f.leavePipe seq e).logged r)
  | expire (e : TxEvent) (evts : List TxEvent) (h : S.expires) (he : f.txevts = e :: evts)
      (hp : e.pipe = true → S.strays) (hlow : f.txevtseq + maskBits ≤ f.txackseq) :
      Micro S f ({ f with txevts := evts, txevtseq := f.txevtseq + 1 }.logged (.expire f.txevtseq))
  | roll (ackseq : ℕ) (h : S.rolls ackseq) : Micro S f { f with txackseq := ackseq }
  | stray (h : S.strays) : Micro S f f.stray

/-- A sequence of elementary steps. -/
def Path (S : Scope) : Flow → Flow → Prop := Relation.ReflTransGen (Micro S)

theorem Path.refl {S : Scope} {f : Flow} : Path S f f := Relation.ReflTransGen.refl

theorem Path.trans {S : Scope} {f g k : Flow} (h₁ : Path S f g) (h₂ : Path S g k) : Path S f k :=
  Relation.ReflTransGen.trans h₁ h₂

theorem Micro.path {S : Scope} {f g : Flow} (h : Micro S f g) : Path S f g :=
  Relation.ReflTransGen.single h

theorem Path.tune {S : Scope} {f g : Flow} (h : g.kept = f.kept) : Path S f g :=
  (Micro.tune h).path

theorem Path.invariant {S : Scope} {P : Flow → Prop} (hP : ∀ f g, Micro S f g → P f → P g)
    {f g : Flow} (h : Path S f g) (hf : P f) : P g := by
  induction h with
  | refl => exact hf
  | tail _ hm ih => exact hP _ _ hm ih

theorem Micro.mono {S T : Scope} (hST : S.Le T) {f g : Flow} (h : Micro S f g) : Micro T f g := by
  cases h with
  | tune h => exact .tune h
  | note e h => exact .note e h
  | tx now ackct ackseq size isdata h => exact .tx now ackct ackseq size isdata h
  | acknowledged n h => exact .acknowledged n (hST.calls h)
  | extend n h hd => exact .extend n h hd
  | restart n h => exact .restart n h
  | exit seq e r hs he hp hr =>
    exact .exit seq e r hs he hp (hr.imp_left (And.imp_left (@hST.acks _)))
  | expire e evts h he hp hlow => exact .expire e evts (hST.expires h) he (hST.strays ∘ hp) hlow
  | roll ackseq h => exact .roll ackseq (hST.rolls ackseq h)
  | stray h => exact .stray (hST.strays h)

theorem Path.mono {S T : Scope} (hST : S.Le T) {f g : Flow} (h : Path S f g) : Path T f g :=
  Relation.ReflTransGen.mono (fun _ _ => Micro.mono hST) f g h

theorem Micro.txackseq {S : Scope} {f g : Flow} (h : Micro S f g) (hS : S.Fixed) :
    g.txackseq = f.txackseq := by
  cases h with
  | tune h => exact congrArg Kept.txackseq h
  | roll ackseq h => exact absurd h (hS ackseq)
  | _ => rfl

theorem Micro.txevtseq {S : Scope} {f g : Flow} (h : Micro S f g) (hS : ¬S.expires) :
    g.txevtseq = f.txevtseq := by
  cases h with
  | tune h => exact congrArg Kept.txevtseq h
  | expire _ _ h => exact absurd h hS
  | _ => rfl

theorem Path.txackseq {S : Scope} {f g : Flow} (h : Path S f g) (hS : S.Fixed) :
    g.txackseq = f.txackseq :=
  h.invariant (fun _ _ hm hf => (hm.txackseq hS).trans hf) rfl

theorem Path.txevtseq {S : Scope} {f g : Flow} (h : Path S f g) (hS : ¬S.expires) :
    g.txevtseq = f.txevtseq :=
  h.invariant (fun _ _ hm hf => (hm.txevtseq hS).trans hf) rfl

/-- Packet `n` has a transmit record. -/
def InBounds (f : Flow) (n : ℕ) : Prop :=
  f.txevtseq + f.txevts.length = f.txseq ∧ f.txevtseq ≤ n ∧ n < f.txseq

theorem Micro.inBounds {S : Scope} {f g : Flow} (h : Micro S f g) (hS : ¬S.expires) {n : ℕ}
    (hn : f.InBounds n) : g.InBounds n := by
  obtain ⟨hl, h1, h2⟩ := hn
  cases h with
  | tune h =>
    refine ⟨?_, ?_, ?_⟩
    · rw [show g.txevtseq = f.txevtseq from congrArg Kept.txevtseq h,
        show g.txevts = f.txevts from congrArg Kept.txevts h,
        show g.txseq = f.txseq from congrArg Kept.txseq h]
      exact hl
    · rw [show g.txevtseq = f.txevtseq from congrArg Kept.txevtseq h]; exact h1
    · rw [show g.txseq = f.txseq from congrArg Kept.txseq h]; exact h2
  | tx now ackct ackseq size isdata h =>
    refine ⟨?_, h1, Nat.lt_succ_of_lt h2⟩
    change f.txevtseq + (f.txevts ++ [_]).length = f.txseq + 1
    rw [List.length_append, List.length_singleton]
    omega
  | exit seq e r hs he hp hr =>
    refine ⟨?_, h1, h2⟩
    change f.txevtseq + (f.txevts.set _ _).length = f.txseq
    rw [List.length_set]
    exact hl
  | expire _ _ h => exact absurd h hS
  | _ => exact ⟨hl, h1, h2⟩

theorem Path.inBounds {S : Scope} {f g : Flow} (h : Path S f g) (hS : ¬S.expires) {n : ℕ}
    (hn : f.InBounds n) : g.InBounds n :=
  h.invariant (fun _ _ hm => hm.inBounds hS) hn

theorem Micro.log_subset {S : Scope} {f g : Flow} (hm : Micro S f g) : f.log ⊆ g.log := by
  cases hm with
  | tune hk =>
    have e : g.log = f.log := congrArg Kept.log hk
    rw [e]
    exact List.Subset.refl _
  | _ => first | exact List.Subset.refl _ | exact List.subset_cons_self _ _

theorem Path.log_subset {S : Scope} {f g : Flow} (hp : Path S f g) : f.log ⊆ g.log :=
  hp.invariant (P := fun g => f.log ⊆ g.log) (fun _ _ hm h => List.Subset.trans h hm.log_subset)
    (List.Subset.refl _)

/-! ## What is kept -/

theorem Tuned.kept {n : ℕ} {f g : Flow} (h : Tuned n f g) : g.kept = f.kept := by
  change (f.like g).kept = f.kept
  rw [h.rest]

theorem kept_ccMissed (f : Flow) (n : ℕ) : (f.ccMissed n).kept = f.kept :=
  (ccMissed_tuned f n).kept

theorem kept_logged {f g : Flow} (h : g.kept = f.kept) (e : Event) :
    (g.logged e).kept = (f.logged e).kept :=
  congrArg (fun k : Kept => { k with log := e :: k.log }) h

/-- **Congestion control after the acknowledgments** leaves the rest of the flow alone. -/
theorem ccReceived_tuned (f : Flow) (env : Env) (ackseq n : ℕ) :
    Tuned (n + 1) f (f.ccReceived env ackseq n) := by
  set f₁ : Flow := { f with markacks := f.markacks + BitVec.ofNat 32 n } with hf₁
  have h1 : Tuned n f₁ (f₁.ccAcked env n) := ccAcked_tuned f₁ env n
  have hr : ∀ g : Flow, Tuned 1 g (g.ccRoundTrip env) := by
    intro g
    obtain ⟨h1, h2, h3⟩ := (ccTrip_tuned { g with markseq := g.txseq } env).of_like (f := g)
      rfl rfl rfl
    exact ⟨h1, h2, h3⟩
  set g := f₁.ccAcked env n with hg
  have h2 : Tuned 1 g (if g.markseq ≤ ackseq then g.ccRoundTrip env else g) := by
    split_ifs
    · exact hr g
    · exact .refl 1 g
  have hrest : ∀ k : Flow, Tuned 1 g k →
      Tuned (n + 1) f { k with cwnd := qMin k.cwnd cwndMax } := by
    intro k hk
    have e1 : f.like (g.like k) = f.like g := congrArg f.like hk.rest
    have e2 : f.like (f₁.like g) = f.like f₁ := congrArg f.like h1.rest
    refine ⟨e1.trans e2, hk.nocc.trans h1.nocc, fun h0 hlt => ?_⟩
    have hg1 := h1.wide h0 (lt_of_le_of_lt (Nat.le_succ _) hlt)
    have hg2 := hk.wide hg1.1 (by change f₁.cwnd.toNat + (n + 1) < 2 ^ 32 at hlt; omega)
    dsimp only
    rw [toNat_qMin, show cwndMax.toNat = 2 ^ 20 from rfl]
    omega
  exact hrest _ h2

theorem kept_ccReceived (f : Flow) (env : Env) (ackseq newpackets : ℕ) :
    (f.ccReceived env ackseq newpackets).kept = f.kept :=
  (ccReceived_tuned f env ackseq newpackets).kept

theorem kept_mayTransmit (f : Flow) (env : Env) : (f.mayTransmit env).1.kept = f.kept := by
  unfold mayTransmit
  split_ifs <;> rfl

/-- The numbers covered by an acknowledgment word. -/
def covered (ackseq ackct : ℕ) : Set ℕ := {n | n ≤ ackseq ∧ ackseq ≤ n + ackct}

end Flow

end Sst
