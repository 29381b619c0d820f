import Sst.Seg.Forward
import Sst.Flow.Action

/-!
# Starting up

The two segments of a middlebox are started when their key exchanges complete, in either order.
Before that, the congestion window of a segment already admits two packets.

* `Flow.Acts.active`: no action starts or stops a flow.
* `Middlebox.Grows`: an operation, other than the start, on the segments.
* `Middlebox.Idle`: a segment that is not active is as it was created, and the other segment has
  received nothing.
* **`middlebox_startup`**: packets wait for the other segment exactly as long as none arrives.
-/

namespace Sst

open Transition

/-! ## The activity of a flow -/

theorem Flow.Act.active {S : ActScope} {f g : Flow} (h : Act S f g) : g.active = f.active := by
  cases h with
  | cut _ seq e => exact congrArg (·.active) (ccMissed_tuned (f.leavePipe seq e) seq).rest
  | grow _ _ env ackseq n hn => exact congrArg (·.active) (ccReceived_tuned f env ackseq n).rest
  | _ => rfl

/-- **No action** starts or stops a flow. -/
theorem Flow.Acts.active {S : ActScope} {f g : Flow} (h : Acts S f g) : g.active = f.active :=
  h.invariant (P := fun k => k.active = f.active) (fun _ _ ha hk => ha.active.trans hk) rfl

end Sst

namespace Sst.Seg

open Transition

theorem Account.empty {a b : FlowSegment} (h : Account a b) (hr : a.received = []) :
    a.taken = [] ∧ a.rxq = [] := by
  have ho := h.order
  rw [hr] at ho
  exact List.append_eq_nil_iff.1 (List.sublist_nil.1 ho)

namespace Middlebox

variable {env : Env} {m m' m'' : Middlebox} {s : Bool}

/-! ## What the operations leave alone -/

/-- The same segments are active, the bounds of the queues are the same, and what was taken from a
queue stays taken. -/
structure Grows (m m' : Middlebox) : Prop where
  active : ∀ t, (m'.seg t).active = (m.seg t).active
  qlim : ∀ t, (m'.seg t).qlim = (m.seg t).qlim
  taken : ∀ t, (m.seg t).taken <+: (m'.seg t).taken

theorem Grows.trans (h₁ : Grows m m') (h₂ : Grows m' m'') : Grows m m'' where
  active t := (h₂.active t).trans (h₁.active t)
  qlim t := (h₂.qlim t).trans (h₁.qlim t)
  taken t := (h₁.taken t).trans (h₂.taken t)

theorem Grows.modify {f : FlowSegment → FlowSegment}
    (h1 : (f (m.seg s)).active = (m.seg s).active) (h2 : (f (m.seg s)).qlim = (m.seg s).qlim)
    (h3 : (m.seg s).taken <+: (f (m.seg s)).taken) : Grows m (m.modify s f) := by
  constructor <;> intro t <;> rcases eq_or_not s t with rfl | rfl
  · rw [modify_self]
    exact h1
  · rw [modify_other]
  · rw [modify_self]
    exact h2
  · rw [modify_other]
  · rw [modify_self]
    exact h3
  · rw [modify_other]

theorem Grows.onFlow {f : Flow → Flow}
    (h : Flow.Acts .any (m.seg s).toFlow (f (m.seg s).toFlow)) : Grows m (m.onFlow s f) :=
  .modify h.active rfl (List.prefix_refl _)

theorem Grows.mayTransmit (m : Middlebox) (env : Env) (s : Bool) :
    Grows m (m.onFlow s fun f => (f.mayTransmit env).1) :=
  .onFlow (Flow.mayTransmit_acts _ env)

theorem raise_acts (f : Flow) : Flow.Acts .any f (f.raise env .readyTransmit) :=
  Flow.raise_note_acts (Flow.sound_any env) f .readyTransmit trivial

theorem Grows.dequeue (s : Bool) (rp : RxPkt) (rest : List RxPkt) :
    Grows m (m.dequeue s rp rest) :=
  .modify rfl rfl (List.prefix_append _ _)

theorem Grows.forward (m : Middlebox) (env : Env) (s : Bool) (rp : RxPkt) :
    Grows m ((m.transmit env s rp).acknowledge env (!s) rp) ∧
      Grows m (m.acknowledge env (!s) rp) := by
  have h1 : Grows m (m.transmit env s rp) :=
    .modify (Flow.flowTransmit_acts (S := .any) _ _ _).active rfl (List.prefix_refl _)
  have h2 : ∀ k : Middlebox, Grows k (k.acknowledge env (!s) rp) := fun k =>
    .onFlow (Flow.acknowledge_acts _ _ _ _ (Set.mem_univ _))
  exact ⟨h1.trans (h2 _), h2 m⟩

theorem pump_grows (env : Env) (s : Bool) (q : List RxPkt) :
    ∀ m : Middlebox, Grows m (m.pump env s q) := by
  induction q with
  | nil => exact fun m => .mayTransmit m env s
  | cons rp rest ih =>
    intro m
    have h₁ := Grows.mayTransmit m env s
    have h₂ := h₁.trans (.dequeue (!s) rp rest)
    simp only [Middlebox.pump]
    split_ifs
    · exact (h₂.trans (Grows.forward _ env s rp).1).trans (ih _)
    · exact ⟨h₂.active, h₂.qlim, h₂.taken⟩
    · exact (h₂.trans (Grows.forward _ env s rp).2).trans (ih _)
    · exact h₁

theorem readyTransmit_grows (m : Middlebox) (env : Env) (s : Bool) :
    Grows m (m.readyTransmit env s) :=
  (Grows.onFlow (raise_acts _)).trans (pump_grows env s _ _)

theorem signalReady_grows (m : Middlebox) (env : Env) (s : Bool) :
    Grows m (m.signalReady env s) := by
  have h := Grows.mayTransmit m env s
  unfold signalReady
  dsimp only
  split_ifs
  · exact h.trans (readyTransmit_grows _ env s)
  · exact h

theorem flowReceive_grows (m : Middlebox) (env : Env) (s : Bool) (n : ℕ) (pkt : List UInt8) :
    Grows m (m.flowReceive env s n pkt) := by
  have h : Grows m (m.modify s fun seg => { seg with received := seg.received ++ [⟨n, pkt⟩] }) :=
    .modify rfl rfl (List.prefix_refl _)
  unfold flowReceive
  dsimp only
  split_ifs
  · exact h.trans (.modify rfl rfl (List.prefix_refl _))
  · exact (h.trans (.modify rfl rfl (List.prefix_refl _))).trans (readyTransmit_grows _ env (!s))

/-! ## Assertions -/

/-- **The loop of an active segment** transmits only while the segment is active. -/
theorem pump_fault (env : Env) (s : Bool) (q : List RxPkt) :
    ∀ m : Middlebox, (m.seg s).active = true → (m.pump env s q).fault = m.fault := by
  induction q with
  | nil => exact fun _ _ => rfl
  | cons rp rest ih =>
    intro m ha
    have h₁ := Grows.mayTransmit m env s
    have h₂ := h₁.trans (.dequeue (!s) rp rest)
    have ha₂ := (h₂.active s).trans ha
    simp only [Middlebox.pump]
    split_ifs
    · exact ih _ (((Grows.forward _ env s rp).1.active s).trans ha₂)
    · exact ih _ (((Grows.forward _ env s rp).2.active s).trans ha₂)
    · rfl

theorem readyTransmit_fault (env : Env) (ha : (m.seg s).active = true) :
    (m.readyTransmit env s).fault = m.fault :=
  pump_fault env s _ _ (((Grows.onFlow (raise_acts _)).active s).trans ha)

theorem signalReady_fault (env : Env) (ha : (m.seg s).active = true) :
    (m.signalReady env s).fault = m.fault := by
  have h := Grows.mayTransmit m env s
  unfold signalReady
  dsimp only
  split_ifs
  · exact readyTransmit_fault env ((h.active s).trans ha)
  · rfl

theorem flowReceive_fault (env : Env) (n : ℕ) (pkt : List UInt8)
    (ha : (m.seg !s).active = true) : (m.flowReceive env s n pkt).fault = m.fault := by
  unfold flowReceive
  dsimp only
  split_ifs
  · rfl
  · refine readyTransmit_fault env ?_
    simp only [modify_other]
    exact ha

/-! ## Before the other segment is active -/

/-- A segment that is not active is as it was created, the other segment has received nothing, and
no assertion failed. -/
structure Idle (chan : Bool → BitVec 8) (m : Middlebox) : Prop where
  fault : m.fault = false
  qlim : ∀ s, (m.seg s).qlim = qlimDefault
  new : ∀ s, (m.seg s).active = false → m.seg s = .new (chan s)
  received : ∀ s, (m.seg s).active = false → (m.seg !s).received = []

variable {chan : Bool → BitVec 8}

theorem Idle.onFlow (h : Idle chan m) {f : Flow → Flow} (ha : (f (m.seg s).toFlow).active = true) :
    Idle chan (m.onFlow s f) := by
  have hs : ∀ t, ((m.onFlow s f).seg t).active = false → t = !s := by
    intro t ht
    refine (eq_or_not s t).resolve_left ?_
    rintro rfl
    rw [Middlebox.onFlow, modify_self] at ht
    cases ha.symm.trans ht
  refine ⟨h.fault, fun t => ?_, fun t ht => ?_, fun t ht => ?_⟩
  · rcases eq_or_not s t with rfl | rfl
    · rw [Middlebox.onFlow, modify_self]
      exact h.qlim _
    · rw [Middlebox.onFlow, modify_other]
      exact h.qlim _
  · obtain rfl := hs t ht
    rw [Middlebox.onFlow, modify_other] at ht ⊢
    exact h.new _ ht
  · obtain rfl := hs t ht
    rw [Middlebox.onFlow, modify_other] at ht
    rw [Middlebox.onFlow, Bool.not_not, modify_self]
    have hr := h.received _ ht
    rwa [Bool.not_not] at hr

theorem Idle.grows (h : Idle chan m) (hg : Grows m m') (hf : m'.fault = m.fault)
    (h1 : (m.seg s).active = true) (h2 : (m.seg !s).active = true) : Idle chan m' := by
  have hall : ∀ t, (m'.seg t).active = true := by
    intro t
    rw [hg.active]
    rcases eq_or_not s t with rfl | rfl
    · exact h1
    · exact h2
  refine ⟨hf.trans h.fault, fun t => (hg.qlim t).trans (h.qlim t), fun t ht => ?_,
    fun t ht => ?_⟩ <;>
    exact absurd ((hall t).symm.trans ht) nofun

theorem readyTransmit_empty (env : Env) (hq : (m.seg !s).rxq = []) : m.readyTransmit env s =
    m.onFlow s fun f => ((f.raise env .readyTransmit).mayTransmit env).1 := by
  unfold readyTransmit gotReadyTransmit
  have hq' : ((m.onFlow s fun f => f.raise env .readyTransmit).seg !s).rxq = [] := by
    simp only [Middlebox.onFlow, modify_other]
    exact hq
  rw [hq']
  simp only [pump, Middlebox.onFlow, Middlebox.modify, Function.update_self, Function.update_idem]

end Middlebox

/-! ## A packet arrives -/

/-- The packet is passed to `flowReceive`. -/
def FlowSegment.Passes (seg : FlowSegment) (p : Packet) : Prop :=
  seg.active = true ∧ hdrlen ≤ p.size ∧ seg.ackSeq p.packseq < seg.txseq ∧
    ∃ n r, seg.toRxState.accept p = some (n, r)

namespace Middlebox

variable {env : Env} {m m' : Middlebox} {s : Bool} {chan : Bool → BitVec 8}

theorem onFlow_onFlow (m : Middlebox) (s : Bool) (f g : Flow → Flow) :
    (m.onFlow s f).onFlow s g = m.onFlow s fun k => g (f k) := by
  simp only [Middlebox.onFlow, Middlebox.modify, Function.update_self, Function.update_idem]

theorem receive_of_not_passes (env : Env) {p : Packet} (pkt : List UInt8)
    (h : ¬(m.seg s).Passes p) : m.receive env s p pkt = m ∨ (m.seg s).active = true ∧
      ∃ f, (f (m.seg s).toFlow).active = (m.seg s).active ∧
        m.receive env s p pkt = m.onFlow s f := by
  unfold Middlebox.receive
  split_ifs with h1
  · exact .inl rfl
  · rw [Bool.not_eq_true, Bool.or_eq_false_iff, Bool.not_eq_false', decide_eq_false_iff_not,
      not_lt] at h1
    cases ha : (m.seg s).toRxState.accept p with
    | none => exact .inl rfl
    | some a =>
      refine .inr ⟨h1.1, fun f => f.arrive a.1 a.2, rfl, ?_⟩
      have hle : (m.seg s).txseq ≤ (m.seg s).ackSeq p.packseq :=
        not_lt.1 fun hlt => h ⟨h1.1, h1.2, hlt, a.1, a.2, ha⟩
      unfold Middlebox.process
      dsimp only
      rw [if_pos]
      rw [Middlebox.onFlow, modify_self]
      exact hle

theorem receive_of_passes (env : Env) {p : Packet} (pkt : List UInt8)
    (h : (m.seg s).Passes p) : ∃ (f : Flow → Flow) (n newpackets : ℕ),
      (f (m.seg s).toFlow).active = (m.seg s).active ∧
      m.receive env s p pkt = if newpackets = 0 then (m.onFlow s f).flowReceive env s n pkt
        else ((m.onFlow s f).flowReceive env s n pkt).signalReady env s := by
  obtain ⟨hact, hsize, hlt, n, r, ha⟩ := h
  have hg : (!(m.seg s).active || p.size < hdrlen) = false := by
    rw [hact]
    exact decide_eq_false (not_lt.2 hsize)
  set g := (m.seg s).toFlow.arrive n r with hgdef
  set a := g.ackReceived env n (g.ackSeq p.packseq) (g.ackDiff p.packseq) (ackctOf p.packseq)
    with hadef
  refine ⟨fun _ => (a.1.ccReceived env (g.ackSeq p.packseq) a.2).raise env (.received n), n, a.2,
    ?_, ?_⟩
  · have h1 : Flow.Acts .any g a.1 := Flow.ackReceived_acts (Flow.sound_any env) trivial trivial
      ActScope.open_any n g _ _ _ trivial (.inl Set.mem_univ)
    have h2 : Flow.Act .any a.1 (a.1.ccReceived env (g.ackSeq p.packseq) a.2) :=
      .grow trivial trivial env _ _ (Flow.ackReceived_count g n _ _ (ackctOf_le p.packseq))
    exact ((h1.tail h2).trans
      (Flow.raise_note_acts (Flow.sound_any env) _ (.received n) trivial)).active
  · unfold Middlebox.receive
    rw [hg, if_neg Bool.false_ne_true, ha]
    dsimp only
    have hs : ((m.onFlow s fun f => f.arrive n r).seg s).toFlow = g := by
      rw [Middlebox.onFlow, modify_self]
    have hlt' : g.ackSeq p.packseq < g.txseq := hlt
    unfold Middlebox.process
    dsimp only
    rw [hs, if_neg (not_le.2 hlt'), onFlow_onFlow]

theorem Idle.passes (h : Idle chan m) (env : Env) {p : Packet} (pkt : List UInt8)
    (hp : (m.seg s).Passes p) (ho : (m.seg !s).active = true) :
    Idle chan (m.receive env s p pkt) := by
  obtain ⟨f, n, newpackets, hf, he⟩ := receive_of_passes env pkt hp
  have h1 : Grows m (m.onFlow s f) := .modify hf rfl (List.prefix_refl _)
  have h2 := h1.trans (flowReceive_grows (m.onFlow s f) env s n pkt)
  have hf2 : ((m.onFlow s f).flowReceive env s n pkt).fault = m.fault :=
    flowReceive_fault env n pkt ((h1.active _).trans ho)
  rw [he]
  split_ifs
  · exact h.grows h2 hf2 hp.1 ho
  · exact h.grows (h2.trans (signalReady_grows _ env s))
      ((signalReady_fault env ((h2.active s).trans hp.1)).trans hf2) hp.1 ho

theorem pump_new (env : Env) (s : Bool) (rp : RxPkt) (rest : List RxPkt)
    (hm : ((m.seg s).mayTransmit env).2 = true) :
    rp ∈ ((m.pump env s (rp :: rest)).seg !s).taken := by
  simp only [pump]
  rw [if_pos hm]
  have htake : ∀ k : Middlebox, rp ∈ ((k.dequeue (!s) rp rest).seg !s).taken := by
    intro k
    rw [dequeue, modify_self]
    exact List.mem_append_right _ (List.mem_singleton_self rp)
  generalize m.onFlow s (fun f => (f.mayTransmit env).1) = k
  have hg : ∀ k' : Middlebox, Grows (k.dequeue (!s) rp rest) k' →
      rp ∈ (k'.seg !s).taken := fun k' h => (h.taken _).subset (htake k)
  split_ifs
  · exact hg _ ((Grows.forward _ env s rp).1.trans (pump_grows env s rest _))
  · exact htake k
  · exact hg _ ((Grows.forward _ env s rp).2.trans (pump_grows env s rest _))

theorem flowReceive_idle (env : Env) (n : ℕ) (pkt : List UInt8) (hq : (m.seg s).rxq = [])
    (hlim : (m.seg s).qlim = qlimDefault) {c : BitVec 8} (hn : m.seg (!s) = .new c) :
    ⟨n, pkt⟩ ∈ ((m.flowReceive env.quiet s n pkt).seg s).taken := by
  unfold flowReceive
  simp only [modify_self]
  rw [if_neg (by rw [hq, hlim]; decide)]
  unfold readyTransmit gotReadyTransmit
  simp only [Middlebox.onFlow, Bool.not_not, modify_self, modify_not]
  rw [hq, List.nil_append]
  have hp := pump_new (m := ((m.modify s fun seg => { seg with
    received := seg.received ++ [⟨n, pkt⟩] }).modify s fun seg => { seg with
    rxq := seg.rxq ++ [⟨n, pkt⟩] }).onFlow (!s) fun f => f.raise env.quiet .readyTransmit)
    env.quiet (!s) ⟨n, pkt⟩ [] ?_
  · rw [Bool.not_not] at hp
    exact hp
  · simp only [Middlebox.onFlow, modify_self, modify_other, hn]
    rfl

theorem Idle.taken (h : Idle chan m) (hs : Sound m) (env : Env) {p : Packet} (pkt : List UInt8)
    (hp : (m.seg s).Passes p) (ho : (m.seg !s).active = false) :
    ((m.receive env.quiet s p pkt).seg !s).active = false ∧
      ((m.receive env.quiet s p pkt).seg s).taken ≠ [] := by
  obtain ⟨f, n, newpackets, hf, he⟩ := receive_of_passes env.quiet pkt hp
  have hq : (m.seg s).rxq = [] := by
    have hr := h.received _ ho
    rw [Bool.not_not] at hr
    exact ((hs s).1.empty hr).2
  have h1 : Grows m (m.onFlow s f) := .modify hf rfl (List.prefix_refl _)
  have h2 := h1.trans (flowReceive_grows (m.onFlow s f) env.quiet s n pkt)
  have hmem : ⟨n, pkt⟩ ∈ (((m.onFlow s f).flowReceive env.quiet s n pkt).seg s).taken := by
    refine flowReceive_idle (c := chan !s) env n pkt ?_ ?_ ?_
    · simp only [Middlebox.onFlow, modify_self]
      exact hq
    · simp only [Middlebox.onFlow, modify_self]
      exact h.qlim s
    · simp only [Middlebox.onFlow, modify_other]
      exact h.new _ ho
  rw [he]
  split_ifs
  · exact ⟨(h2.active _).trans ho, List.ne_nil_of_mem hmem⟩
  · have h3 := signalReady_grows ((m.onFlow s f).flowReceive env.quiet s n pkt) env.quiet s
    exact ⟨((h2.trans h3).active _).trans ho, List.ne_nil_of_mem ((h3.taken s).subset hmem)⟩

end Middlebox

/-! ## Runs -/

/-- A packet is passed on only while the other segment is active. -/
def OtherActive (m : Middlebox) (i : Env × Bool × Op) : Prop :=
  ∀ p pkt, i.2.2 = .receive p pkt → (m.seg i.2.1).Passes p → (m.seg !i.2.1).active = true

/-- No assertion failed, and a segment that is not active has sent no packet and taken none from
the queue of the other segment. -/
def Middlebox.Startup (m : Middlebox) : Prop :=
  m.fault = false ∧ ∀ s, (m.seg s).active = false →
    (∀ pkt d, .sent pkt d ∉ (m.seg s).log) ∧ (m.seg !s).taken = []

namespace Middlebox

variable {env : Env} {m m' : Middlebox} {s : Bool} {chan : Bool → BitVec 8}

theorem Idle.startup (h : Idle chan m) (hs : Sound m) : m.Startup := by
  refine ⟨h.fault, fun s ha => ⟨fun pkt d hm => ?_, ?_⟩⟩
  · rw [h.new s ha] at hm
    exact absurd hm nofun
  · exact ((hs !s).1.empty (h.received s ha)).1

theorem Idle.readyTransmit (h : Idle chan m) (env : Env) (ha : (m.seg s).active = true) :
    Idle chan (m.readyTransmit env s) := by
  cases ho : (m.seg !s).active with
  | true => exact h.grows (readyTransmit_grows m env s) (readyTransmit_fault env ha) ha ho
  | false =>
    rw [readyTransmit_empty env (by rw [h.new _ ho]; rfl)]
    exact h.onFlow (((raise_acts _).trans (Flow.mayTransmit_acts _ env)).active.trans ha)

theorem Idle.ready (h : Idle chan m) (env : Env) {f : Flow → Flow}
    (ha : (f (m.seg s).toFlow).active = true) (status : LinkStatus) : Idle chan
      (((m.onFlow s f).readyTransmit env s).onFlow s (·.setLinkStatus env status)) := by
  have ha' : ((m.onFlow s f).seg s).active = true := by
    rw [Middlebox.onFlow, modify_self]
    exact ha
  refine ((h.onFlow ha).readyTransmit env ha').onFlow ?_
  exact (Flow.setLinkStatus_acts (Flow.sound_any env) trivial _ status).active.trans
    (((readyTransmit_grows _ env s).active s).trans ha')

/-- **One operation**, if a packet is passed on only while the other segment is active. -/
theorem Idle.step (h : Idle chan m) {op : Op} (hst : m.step env s op = some m')
    (hc : OtherActive m (env, s, op)) : Idle chan m' := by
  -- the timers of a segment run only after it was started
  have hact : (m.seg s).rtxtimer = true ∨ (m.seg s).acktimer.isSome → (m.seg s).active = true := by
    intro ht
    cases ha : (m.seg s).active with
    | true => rfl
    | false =>
      rw [h.new s ha] at ht
      exact ht.elim nofun nofun
  cases op with
  | start =>
    simp only [Middlebox.step] at hst
    split_ifs at hst
    cases hst
    exact h.ready env rfl .up
  | receive p pkt =>
    simp only [Middlebox.step] at hst
    split_ifs at hst
    cases hst
    by_cases hp : (m.seg s).Passes p
    · exact h.passes env pkt hp (hc p pkt rfl hp)
    · rcases receive_of_not_passes env pkt hp with he | ⟨ha, f, hf, he⟩
      · rw [he]
        exact h
      · rw [he]
        exact h.onFlow (hf.trans ha)
  | rtxTimeout fail =>
    simp only [Middlebox.step] at hst
    split_ifs at hst with ht
    cases hst
    rw [Bool.not_eq_true, Bool.or_eq_false_iff, Bool.not_eq_false'] at ht
    exact h.ready env ((Flow.presumeLost_acts (Flow.sound_any env) trivial trivial
      Set.mem_univ _).active.trans (hact (.inl ht.2))) _
  | ackTimeout =>
    simp only [Middlebox.step] at hst
    split_ifs at hst with ht
    cases hst
    rw [Bool.not_eq_true, Bool.or_eq_false_iff, Option.isNone_eq_false_iff] at ht
    exact h.onFlow ((Flow.flushack_acts (S := .any) _ _).active.trans
      (hact (.inr ht.2)))

/-- **Every run** in which packets are passed on only while the other segment is active. -/
theorem idle_of_reach (h : (middlebox chan).Reach OtherActive m) : Idle chan m :=
  h.invariant ⟨rfl, fun _ => rfl, fun _ _ => rfl, fun _ _ => rfl⟩
    fun _ _ _ _ ih hc hs => ih.step hs hc

end Middlebox

/-- **Starting up.** In every run in which packets are passed on only while the other segment is
active, no assertion fails, and a segment that is not active has sent no packet and taken none from
the queue of the other segment. The first step that passes a packet on before that breaks it. -/
theorem middlebox_startup {chan : Bool → BitVec 8} {m : Middlebox}
    (h : (middlebox chan).Reach OtherActive m) :
    m.Startup ∧ ∀ i m', (middlebox chan).step m i = some m' → (m'.Startup ↔ OtherActive m i) := by
  have hi := Middlebox.idle_of_reach h
  have hs := Middlebox.sound_of_reach (h.mono fun _ _ _ => trivial)
  refine ⟨hi.startup hs, fun i m' hst => ⟨fun hm p pkt hop hp => ?_, fun hc => ?_⟩⟩
  · by_contra ha
    rw [Bool.not_eq_true] at ha
    obtain ⟨h1, h2⟩ := hi.taken hs i.1 pkt hp ha
    have he : m' = m.receive i.1.quiet i.2.1 p pkt := by
      change m.step i.1.quiet i.2.1 i.2.2 = some m' at hst
      rw [hop] at hst
      simp only [Middlebox.step] at hst
      split_ifs at hst
      exact (Option.some.inj hst).symm
    rw [← he] at h1 h2
    have ht := (hm.2 _ h1).2
    rw [Bool.not_not] at ht
    exact h2 ht
  · exact (hi.step hst hc).startup (hs.step hst)

/-- Both segments are started, and a packet is forwarded. -/
theorem middlebox_startup_both : ∃ m : Middlebox, m.Startup ∧
    (m.seg true).transmitted.length = 1 := by
  have hrun : ∃ m₁ m₂ m₃, (middlebox fun _ => 1#8).step (middlebox fun _ => 1#8).init
      (silent, false, .start) = some m₁ ∧
      (middlebox fun _ => 1#8).step m₁ (silent, true, .start) = some m₂ ∧
      (middlebox fun _ => 1#8).step m₂ (silent, false, arrival 1 9) = some m₃ ∧
      (m₂.seg true).active = true ∧ (m₃.seg true).transmitted.length = 1 :=
    ⟨_, _, _, rfl, rfl, rfl, rfl, by decide +kernel⟩
  obtain ⟨m₁, m₂, m₃, h1, h2, h3, ha, hl⟩ := hrun
  have hstart : ∀ (m : Middlebox) (s : Bool), OtherActive m (silent, s, .start) :=
    fun _ _ _ _ h => (nomatch h)
  have hm₂ : (middlebox fun _ => 1#8).Reach OtherActive m₂ :=
    (Machine.Reach.init.step (hstart _ _) h1).step (hstart _ _) h2
  have hc : OtherActive m₂ (silent, false, arrival 1 9) := fun _ _ _ _ => ha
  have hm : (middlebox fun _ => 1#8).Reach OtherActive m₃ := hm₂.step hc h3
  exact ⟨m₃, (middlebox_startup hm).1, hl⟩

/-- A packet that arrives before the other segment is started is transmitted at once. -/
theorem middlebox_startup_early :
    ¬∀ m, (middlebox fun _ => 1#8).Reach Machine.always m → m.Startup := by
  intro hall
  obtain ⟨m, hm, hf⟩ := of_after (l := [(false, .start), (false, arrival 1 9)])
    (P := fun m => m.fault = true) (by decide +kernel)
  exact absurd (hf.symm.trans (hall m hm).1) nofun

end Sst.Seg
