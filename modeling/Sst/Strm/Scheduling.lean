import Sst.Strm.Moves

/-!
# Transmit scheduling

The streams in line on a flow are sorted by priority, and by the time at which they got in line
among those of the same priority. A stream that stays in line is not overtaken by one that gets in
line again, unless its own priority is set meanwhile, which sends it to the back.

* `Layout.Grows`: the lines grow at the back, but for a stream that leaves its place.
* `Layout.Passes`: what a step does to the lines.
* **`Exec.step_passes`**: only the stream chosen, or one whose priority is set, leaves its place.
* **`scheduling`**: order, choice and fairness, in every run.
* **`scheduling_overtaken`**: a stream whose priority is set to what it is loses its place.
-/

namespace Sst.Strm

open Transition

namespace Layout

variable {l l' l'' : Layout} {f : ℕ} {s : StrmId} {e : Option StrmId}

/-- From `l` to `l'` every stream in line but `e` keeps its place, and whoever else is in line then
got there meanwhile. -/
structure Grows (e : Option StrmId) (l l' : Layout) : Prop where
  stays : ∀ f s, e ≠ some s → s ∈ l.tstreams f → s ∈ l'.tstreams f ∧ l'.stamp s = l.stamp s
  enters : ∀ f s, s ∈ l'.tstreams f → (e ≠ some s ∧ s ∈ l.tstreams f ∧ l'.stamp s = l.stamp s) ∨
    l.clock ≤ l'.stamp s
  clock : l.clock ≤ l'.clock

namespace Grows

theorem of_eq (h1 : ∀ f s, s ∈ l'.tstreams f ↔ s ∈ l.tstreams f)
    (h2 : ∀ f s, s ∈ l.tstreams f → l'.stamp s = l.stamp s) (h3 : l'.clock = l.clock) :
    Grows none l l' where
  stays f s _ hs := ⟨(h1 f s).mpr hs, h2 f s hs⟩
  enters f s hs := .inl ⟨(Option.some_ne_none s).symm, (h1 f s).mp hs, h2 f s ((h1 f s).mp hs)⟩
  clock := h3.ge

theorem refl : Grows none l l := of_eq (fun _ _ => Iff.rfl) (fun _ _ _ => rfl) rfl

theorem trans (h : Grows e l l') (h' : Grows none l' l'') : Grows e l l'' where
  stays f s he hs := by
    obtain ⟨h1, h2⟩ := h.stays f s he hs
    obtain ⟨h3, h4⟩ := h'.stays f s (Option.some_ne_none s).symm h1
    exact ⟨h3, h4.trans h2⟩
  enters f s hs := by
    rcases h'.enters f s hs with ⟨-, h1, h2⟩ | h1
    · exact (h.enters f s h1).imp (fun h3 => ⟨h3.1, h3.2.1, h2.trans h3.2.2⟩) fun h3 => h2 ▸ h3
    · exact .inr (h.clock.trans h1)
  clock := h.clock.trans h'.clock

end Grows

theorem Sound.grows_enqueue {d : Option ℕ} (h : Sound d l) (hq : l.tqflow s = false) (pri : ℤ) :
    Grows none l (l.enqueue f s pri) := by
  have hne : ∀ k t, t ∈ l.tstreams k → t ≠ s := by
    rintro k t ht rfl
    exact h.not_queued hq k ht
  have hmem : ∀ k t, t ∈ (l.enqueue f s pri).tstreams k ↔ k = f ∧ t = s ∨ t ∈ l.tstreams k := by
    intro k t
    simp only [Layout.enqueue, Function.update_apply]
    split_ifs with hk
    · subst hk
      rw [Priority.mem_insertBehind, List.mem_filter, decide_eq_true_eq]
      exact or_congr (by simp) ⟨And.left, fun ht => ⟨ht, hne k t ht⟩⟩
    · simp [hk]
  have hstamp : ∀ t, t ≠ s → (l.enqueue f s pri).stamp t = l.stamp t := fun t ht =>
    Function.update_of_ne ht ..
  have hself : (l.enqueue f s pri).stamp s = l.clock := Function.update_self ..
  refine ⟨fun k t _ ht => ⟨(hmem k t).mpr (.inr ht), hstamp t (hne k t ht)⟩, fun k t ht => ?_,
    Nat.le_succ _⟩
  by_cases hts : t = s
  · exact .inr (hts ▸ hself.ge)
  · exact .inl ⟨(Option.some_ne_none t).symm,
      ((hmem k t).mp ht).resolve_left fun h => hts h.2, hstamp t hts⟩

theorem grows_enqueue_again (l : Layout) (f : ℕ) (s : StrmId) (pri : ℤ) :
    Grows (some s) l (l.enqueue f s pri) := by
  have hmem : ∀ k t, t ≠ s → (t ∈ (l.enqueue f s pri).tstreams k ↔ t ∈ l.tstreams k) := by
    intro k t hts
    simp only [Layout.enqueue, Function.update_apply]
    split_ifs with hk
    · subst hk
      rw [Priority.mem_insertBehind, List.mem_filter, decide_eq_true_eq]
      simp [hts]
    · rfl
  have hstamp : ∀ t, t ≠ s → (l.enqueue f s pri).stamp t = l.stamp t := fun t ht =>
    Function.update_of_ne ht ..
  have hself : (l.enqueue f s pri).stamp s = l.clock := Function.update_self ..
  refine ⟨fun k t he ht => ?_, fun k t ht => ?_, Nat.le_succ _⟩
  · have hts : t ≠ s := fun h => he (congrArg some h.symm)
    exact ⟨(hmem k t hts).mpr ht, hstamp t hts⟩
  · by_cases hts : t = s
    · exact .inr (hts ▸ hself.ge)
    · exact .inl ⟨fun h => hts (Option.some.inj h).symm, (hmem k t hts).mp ht, hstamp t hts⟩

theorem Sound.grows_pick {d : Option ℕ} {rest : List StrmId} (h : Sound d l)
    (hrest : l.tstreams f = s :: rest) : Grows (some s) l (l.pick f s rest) := by
  have hs : s ∈ l.tstreams f := hrest ▸ List.mem_cons_self
  have hnodup := h.nodup f
  rw [hrest] at hnodup
  have hmem : ∀ k t, t ∈ (l.pick f s rest).tstreams k ↔ t ∈ l.tstreams k ∧ t ≠ s := by
    intro k t
    simp only [Layout.pick, Function.update_apply]
    split_ifs with hk
    · subst hk
      rw [hrest, List.mem_cons]
      constructor
      · intro ht
        exact ⟨.inr ht, fun h => (List.nodup_cons.mp hnodup).1 (h ▸ ht)⟩
      · rintro ⟨rfl | ht, hts⟩
        · exact absurd rfl hts
        · exact ht
    · refine ⟨fun ht => ⟨ht, ?_⟩, And.left⟩
      rintro rfl
      obtain ⟨i, sid, hi⟩ := ((h.queued k t).mp ht).2
      exact hk (h.queued_flow hs hi)
  refine ⟨fun k t he ht => ⟨(hmem k t).mpr ⟨ht, fun h => he (congrArg some h.symm)⟩, rfl⟩,
    fun k t ht => ?_, le_rfl⟩
  obtain ⟨h1, h2⟩ := (hmem k t).mp ht
  exact .inl ⟨fun h => h2 (Option.some.inj h).symm, h1, rfl⟩

theorem Sound.grows_create {d : Option ℕ} (h : Sound d l) : Grows none l l.create := by
  refine .of_eq (fun _ _ => Iff.rfl) (fun f s hs => ?_) rfl
  refine Function.update_of_ne ?_ ..
  rintro rfl
  exact h.not_queued (h.free (h.freshStream _ le_rfl).2).tqflow f hs

theorem Sound.grows_newFlow {d : Option ℕ} {sid : ℕ} (h : Sound d l) :
    Grows none l (l.newFlow sid) := by
  have hempty : ∀ s, s ∉ l.tstreams l.nextFlow := by
    intro s hs
    obtain ⟨i, m, hi⟩ := ((h.queued _ s).mp hs).2
    exact absurd (h.bound s i _ m hi) (lt_irrefl _)
  refine .of_eq (fun f s => ?_) (fun f s hs => ?_) rfl
  · simp only [Layout.newFlow, Function.update_apply]
    split_ifs with hf
    · subst hf
      exact iff_of_false List.not_mem_nil (hempty s)
    · rfl
  · refine Function.update_of_ne ?_ ..
    rintro rfl
    exact h.not_queued (h.free (h.freshFlow _ le_rfl).2).tqflow f hs

/-- What a step does to the lines: a stream that stays in line and is not `e` keeps its place, and
whoever else is in line afterwards got there meanwhile. -/
structure Passes (e : Option StrmId) (l l' : Layout) : Prop where
  stamp : ∀ f s, e ≠ some s → s ∈ l.tstreams f → l'.stamp s = l.stamp s
  enters : ∀ f s, s ∈ l'.tstreams f → (e ≠ some s ∧ s ∈ l.tstreams f ∧ l'.stamp s = l.stamp s) ∨
    l.clock ≤ l'.stamp s
  clock : l.clock ≤ l'.clock

theorem Grows.passes (h : Grows e l l') : Passes e l l' :=
  ⟨fun f s he hs => (h.stays f s he hs).2, h.enters, h.clock⟩

/-- Streams leave the lines, and no one gets there. -/
structure Thins (l l' : Layout) : Prop where
  tstreams : ∀ f, l'.tstreams f ⊆ l.tstreams f
  stamp : ∀ s, l'.stamp s = l.stamp s
  clock : l'.clock = l.clock

theorem Thins.refl : Thins l l := ⟨fun _ => List.Subset.refl _, fun _ => rfl, rfl⟩

theorem Thins.trans (h : Thins l l') (h' : Thins l' l'') : Thins l l'' :=
  ⟨fun f => List.Subset.trans (h'.tstreams f) (h.tstreams f),
    fun s => (h'.stamp s).trans (h.stamp s), h'.clock.trans h.clock⟩

theorem Thins.passes (h : Thins l l') : Passes none l l' :=
  ⟨fun _ s _ _ => h.stamp s,
    fun f s hs => .inl ⟨(Option.some_ne_none s).symm, h.tstreams f hs, h.stamp s⟩, h.clock.ge⟩

end Layout

theorem Shrunk.thins {w w' : Peer} (h : Shrunk w w') : Layout.Thins w.layout w'.layout :=
  ⟨h.tstreams, fun s => congrArg (fun b => b.2.2.1) (h.streams s), h.clock⟩

namespace Peer

variable {w w' : Peer}

/-- **Acts** that leave every stream where it is in its queue. -/
theorem apply_grows {a : Act} (h : w.Placed none) (ha : a.Calm ∨ a.Still) (hadm : w.Admits a) :
    Layout.Grows none w.layout (w.apply a).layout := by
  by_cases hstill : a.Still
  · rw [apply_layout hstill hadm]
    exact .refl
  replace ha := ha.resolve_right hstill
  cases a with
  | attach f s ctr i =>
    rw [attach_layout]
    exact .of_eq (fun _ _ => Iff.rfl) (fun _ _ _ => rfl) rfl
  | line f s =>
    rw [line_layout (Layout.Sound.not_queued h hadm.2.1 f)]
    exact Layout.Sound.grows_enqueue h hadm.2.1 _
  | openStream b =>
    obtain ⟨parent, mode, state, toplev, strm, rfl⟩ := hadm
    change Layout.Grows none w.layout (w.newStream _).layout
    rw [newStream_layout h ⟨fun _ => rfl, rfl, rfl, rfl, rfl, rfl⟩]
    exact Layout.Sound.grows_create h
  | create f p u sid slot pktseq =>
    have hl : (w.apply (.create f p u sid slot pktseq)).layout = w.layout.create :=
      (setActive_layout ..).trans ((followCtr_layout ..).trans (createSub_layout h f p u))
    rw [hl]
    exact Layout.Sound.grows_create h
  | newFlow =>
    change Layout.Grows none w.layout w.newFlow.layout
    rw [newFlow_layout]
    exact Layout.Sound.grows_newFlow h
  | activateFlow f nocc tx rx =>
    change Layout.Grows none w.layout (w.activateFlow f nocc tx rx).layout
    rw [activateFlow_layout]
    exact .of_eq (fun _ _ => Iff.rfl) (fun _ _ _ => rfl) rfl
  | primary f => exact .of_eq (fun _ _ => Iff.rfl) (fun _ _ _ => rfl) rfl
  | prioritize | pick | sendData | sendDatagram | sendAttach | clearPrimary | stop | delete =>
    exact ha.elim
  | _ => exact absurd trivial hstill

/-- **Acts** of flows and streams that come and go. -/
theorem apply_thins {a : Act} (h : w.Good none none) (ha : a.Closing) (hadm : w.Admits a) :
    Layout.Thins w.layout (w.apply a).layout := by
  cases a with
  | signal => exact .refl
  | channel f g =>
    rw [apply_layout (a := .channel f g) trivial hadm]
    exact .refl
  | nameRoot f chanId =>
    rw [apply_layout (a := .nameRoot f chanId) trivial hadm]
    exact .refl
  | activateFlow f nocc tx rx =>
    change Layout.Thins w.layout (w.activateFlow f nocc tx rx).layout
    rw [activateFlow_layout]
    exact ⟨fun _ => List.Subset.refl _, fun _ => rfl, rfl⟩
  | primary f => exact ⟨fun _ => List.Subset.refl _, fun _ => rfl, rfl⟩
  | clearPrimary => exact (clearPrimary_spec h).2.2.2.1.thins
  | stop f => exact (stop_spec h hadm).2.2.1.thins
  | delete s => exact (deleteStream_spec h s).2.1.thins
  | _ => exact ha.elim

theorem steps_grow {P : Act → Prop} (hP : ∀ a, P a → a.Calm ∨ a.Still)
    (h : w.Good none none) (hs : Steps P w w') : Layout.Grows none w.layout w'.layout := by
  have hinv : w'.Good none none ∧ Layout.Grows none w.layout w'.layout := by
    refine hs.invariant (I := fun v => v.Good none none ∧ Layout.Grows none w.layout v.layout) ?_
      ⟨h, .refl⟩
    rintro v a ha hadm ⟨hg, hv⟩
    exact ⟨good_apply hg hadm, hv.trans (apply_grows hg.placed (hP a ha) hadm)⟩
  exact hinv.2

theorem steps_thin (h : w.Good none none) (hs : Steps Act.Closing w w') :
    Layout.Thins w.layout w'.layout := by
  have hinv : w'.Good none none ∧ Layout.Thins w.layout w'.layout := by
    refine hs.invariant (I := fun v => v.Good none none ∧ Layout.Thins w.layout v.layout) ?_
      ⟨h, .refl⟩
    rintro v a ha hadm ⟨hg, hv⟩
    exact ⟨good_apply hg hadm, hv.trans (apply_thins hg ha hadm)⟩
  exact hinv.2

/-- **Setting a priority** sends the stream to the back, if it is in line. -/
theorem setPriority_grows (h : w.Placed none) (s : StrmId) (newpri : ℤ) :
    Layout.Grows (some s) w.layout (w.setPriority s newpri).layout := by
  cases hq : (w.streams s).tqflow with
  | false =>
    rw [setPriority_idle hq]
    have hne : ∀ f t, t ∈ w.layout.tstreams f → some s ≠ some t := by
      rintro f t ht hst
      cases hst
      exact Layout.Sound.not_queued h hq f ht
    exact ⟨fun f t _ ht => ⟨ht, rfl⟩, fun f t ht => .inl ⟨hne f t ht, ht, rfl⟩, le_rfl⟩
  | true =>
    obtain ⟨i, hi⟩ := Option.ne_none_iff_exists'.mp (h.lined s hq)
    have hlink := (h.cur s i).mp hi
    change ((w.streams s).tatt i).map _ ≠ none at hlink
    obtain ⟨a, ha⟩ : ∃ a, (w.streams s).tatt i = some a :=
      Option.ne_none_iff_exists'.mp fun hn => hlink (by rw [hn]; rfl)
    rw [setPriority_queued hq (curatt_eq.mpr ⟨i, hi, ha⟩)]
    exact Layout.grows_enqueue_again ..

end Peer

/-! ## Lines -/

namespace Peer

/-- The lines of the flows: who is in line there, and in which order. -/
structure Scheduled (w : Peer) : Prop where
  nodup : ∀ f, (w.flows f).tstreams.Nodup
  queued : ∀ f s, s ∈ (w.flows f).tstreams ↔
    (w.streams s).tqflow = true ∧ ∃ a, (w.streams s).curatt = some a ∧ a.flow = f
  sorted : ∀ f, (w.flows f).tstreams.Pairwise fun s t =>
    (w.streams t).priority < (w.streams s).priority ∨
      (w.streams s).priority = (w.streams t).priority ∧ (w.streams s).stamp < (w.streams t).stamp

variable {w : Peer} {f : ℕ} {s t : StrmId}

theorem Good.scheduled (h : w.Good none none) : w.Scheduled where
  nodup := h.placed.nodup
  sorted := h.placed.sorted
  queued f s := by
    refine (h.placed.queued f s).trans (and_congr_right fun _ => ?_)
    constructor
    · rintro ⟨i, sid, hi⟩
      obtain ⟨a, ha, heq⟩ := Option.map_eq_some_iff.mp
        (show ((w.streams s).tatt i).map (fun a => (a.flow, a.sid)) = some (f, sid) from hi)
      have hcur := (h.placed.cur s i).mpr (by rw [hi]; exact Option.some_ne_none _)
      exact ⟨a, curatt_eq.mpr ⟨i, hcur, ha⟩, congrArg Prod.fst heq⟩
    · rintro ⟨a, ha, rfl⟩
      obtain ⟨i, -, hi⟩ := curatt_eq.mp ha
      refine ⟨i, a.sid, ?_⟩
      change ((w.streams s).tatt i).map (fun a => (a.flow, a.sid)) = some (a.flow, a.sid)
      rw [hi]
      rfl

/-- The first in line has the highest priority, and got in line first among its equals. -/
theorem Scheduled.first {rest : List StrmId} (h : w.Scheduled)
    (hrest : (w.flows f).tstreams = s :: rest) (ht : t ∈ (w.flows f).tstreams) (hts : t ≠ s) :
    (w.streams t).priority < (w.streams s).priority ∨
      (w.streams s).priority = (w.streams t).priority ∧
        (w.streams s).stamp < (w.streams t).stamp := by
  have hsorted := h.sorted f
  rw [hrest, List.pairwise_cons] at hsorted
  rw [hrest] at ht
  exact hsorted.1 t ((List.mem_cons.mp ht).resolve_left hts)

theorem Good.same_line (h : w.Good none none) (hs : s ∈ (w.flows f).tstreams)
    (ht : (w.streams t).tqflow = true) : t ∈ (w.flows f).tstreams := by
  obtain ⟨i, hi⟩ := Option.ne_none_iff_exists'.mp (h.placed.lined t ht)
  obtain ⟨⟨k, sid⟩, hk⟩ := Option.ne_none_iff_exists'.mp ((h.placed.cur t i).mp hi)
  have htk : t ∈ (w.flows k).tstreams := (h.placed.queued k t).mpr ⟨ht, i, sid, hk⟩
  have hflow : ∀ {u : StrmId} {j : ℕ}, u ∈ (w.flows j).tstreams → w.flow = some j := by
    intro u j hu
    by_contra hj
    rw [h.no_streams hj] at hu
    cases hu
  obtain rfl : k = f := Option.some.inj ((hflow htk).symm.trans (hflow hs))
  exact htk

end Peer

/-! ## Steps -/

theorem Act.Sends.still {a : Act} {f : ℕ} {s : StrmId} {forced : Bool} (h : a.Sends f s forced) :
    a.Still := by
  cases a with
  | sendData | sendDatagram | sendAttach => trivial
  | _ => exact h.elim

theorem TakesTurn.grows {w : Peer} {r : Peer × List Frame} {f : ℕ} {s : StrmId}
    {rest : List StrmId} {forced : Bool} (h : w.Good none none)
    (hrest : (w.flows f).tstreams = s :: rest)
    (ht : TakesTurn f s forced (w.apply (.pick f s rest)) r) :
    Layout.Grows (some s) w.layout r.1.layout := by
  obtain ⟨⟨w₁, w₂, h1, h2, h3⟩, -⟩ := ht
  have hfor : ∀ a : Act, a.For s → a.Calm ∨ a.Still := fun a ha => .inl ha.minor.calm
  have hpick : Layout.Grows (some s) w.layout (w.apply (.pick f s rest)).layout := by
    rw [Peer.pick_layout]
    exact Layout.Sound.grows_pick h.placed hrest
  have hg : (w.apply (.pick f s rest)).Good none none := Peer.good_apply h hrest
  have hg₁ := Peer.good_steps h1 hg
  have hsend : w₂.Good none none ∧ Layout.Grows none w₁.layout w₂.layout := by
    rcases h2 with rfl | ⟨a, ha, hadm, rfl⟩
    · exact ⟨hg₁, .refl⟩
    · exact ⟨Peer.good_apply hg₁ hadm, Peer.apply_grows hg₁.placed (.inr ha.still) hadm⟩
  exact ((hpick.trans (Peer.steps_grow hfor hg h1)).trans hsend.2).trans
    (Peer.steps_grow hfor hsend.1 h3)

theorem Peer.apply_tqflow {w : Peer} {a : Act} {s t : StrmId} (h : w.Placed none)
    (ha : a.For s ∨ a.Still) (hadm : w.Admits a) (hts : t ≠ s) :
    (w.apply a).layout.tqflow t = w.layout.tqflow t := by
  by_cases hstill : a.Still
  · rw [apply_layout hstill hadm]
  replace ha := ha.resolve_right hstill
  cases a with
  | line f u =>
    obtain rfl : u = s := ha
    rw [line_layout (Layout.Sound.not_queued h hadm.2.1 f)]
    exact Function.update_of_ne hts ..
  | adopt => exact absurd trivial hstill
  | _ => exact ha.elim

theorem TakesTurn.tqflow {w : Peer} {r : Peer × List Frame} {f : ℕ} {s t : StrmId}
    {rest : List StrmId} {forced : Bool} (h : w.Good none none)
    (hrest : (w.flows f).tstreams = s :: rest)
    (ht : TakesTurn f s forced (w.apply (.pick f s rest)) r) (hts : t ≠ s) :
    r.1.layout.tqflow t = w.layout.tqflow t := by
  obtain ⟨⟨w₁, w₂, h1, h2, h3⟩, -⟩ := ht
  have hsteps : ∀ {v v' : Peer}, v.Good none none → Steps (Act.For s) v v' →
      v'.Good none none ∧ v'.layout.tqflow t = v.layout.tqflow t := by
    intro v v' hv hs
    refine hs.invariant (I := fun u => u.Good none none ∧ u.layout.tqflow t = v.layout.tqflow t)
      ?_ ⟨hv, rfl⟩
    rintro u a ha hadm ⟨hg, hu⟩
    exact ⟨Peer.good_apply hg hadm, (Peer.apply_tqflow hg.placed (.inl ha) hadm hts).trans hu⟩
  have hpick : (w.apply (.pick f s rest)).layout.tqflow t = w.layout.tqflow t := by
    rw [Peer.pick_layout]
    exact Function.update_of_ne hts ..
  obtain ⟨hg₁, hw₁⟩ := hsteps (Peer.good_apply (a := .pick f s rest) h hrest) h1
  have hsend : w₂.Good none none ∧ w₂.layout.tqflow t = w₁.layout.tqflow t := by
    rcases h2 with rfl | ⟨a, ha, hadm, rfl⟩
    · exact ⟨hg₁, rfl⟩
    · exact ⟨Peer.good_apply hg₁ hadm, Peer.apply_tqflow hg₁.placed (.inr ha.still) hadm hts⟩
  exact ((hsteps hsend.1 h3).2.trans hsend.2).trans (hw₁.trans hpick)

namespace Exec

variable {x x' : Exec} {l : Label}

/-- **A step**: only the stream that is chosen, or whose priority is set, leaves its place. -/
theorem step_passes (h : x.Good) (hstep : x.step l = some x') :
    ∃ e, Layout.Passes e x.peer.layout x'.peer.layout ∧
      (∀ f s, x.picks l = some (f, s) → e = some s) ∧
      (∀ s, e = some s → (∃ f, x.picks l = some (f, s)) ∨
        ∃ newpri, l = .call (.setPriority s newpri)) ∧
      ∀ f s t, x.picks l = some (f, s) → t ≠ s →
        x'.peer.layout.tqflow t = x.peer.layout.tqflow t := by
  obtain ⟨r, stack, hm, rfl, -⟩ := step_moves h hstep
  change ∃ e, Layout.Passes e x.peer.layout r.1.layout ∧ _ ∧ _ ∧
    ∀ f s t, x.picks l = some (f, s) → t ≠ s → r.1.layout.tqflow t = _
  cases hm with
  | calm hp _ hl =>
    refine ⟨none, (Peer.steps_grow (fun _ => .inl) h.peer hl.steps).passes, fun f s hs => ?_,
      fun s hs => ?_, fun f s t hs => ?_⟩
    · rw [hp] at hs
      cases hs
    · cases hs
    · rw [hp] at hs
      cases hs
  | @turn r f s rest forced ht hrest hturn =>
    have hpick : x.picks l = some (f, s) := by
      rw [picks, ht, Option.bind_some, hrest]
      rfl
    refine ⟨some s, (hturn.grows h.peer hrest).passes, fun k t ht => ?_, fun t hst => ?_,
      fun k t u ht => ?_⟩
    · rw [hpick] at ht
      cases ht
      rfl
    · cases hst
      exact .inl ⟨f, hpick⟩
    · rw [hpick] at ht
      cases ht
      exact hturn.tqflow h.peer hrest
  | @priority s newpri hl =>
    refine ⟨some s, (Peer.setPriority_grows h.peer.placed s newpri).passes, fun f t ht => ?_,
      fun t hst => ?_, fun f t u ht => ?_⟩
    · subst hl
      cases ht
    · cases hst
      exact .inr ⟨newpri, hl⟩
    · subst hl
      cases ht
  | closing hp _ hl =>
    refine ⟨none, (Peer.steps_thin h.peer hl.steps).passes, fun f s hs => ?_, fun s hs => ?_,
      fun f s t hs => ?_⟩
    · rw [hp] at hs
      cases hs
    · cases hs
    · rw [hp] at hs
      cases hs

theorem run_step {ls : List Label} (h : x.step l = some x') :
    peerMachine.run x (l :: ls) = peerMachine.run x' ls := by
  have hl : peerMachine.step x l = some x' := h
  rw [Machine.run_cons, hl, Option.bind_some]

theorem mem_of_picks {f : ℕ} {s : StrmId} (h : x.picks l = some (f, s)) :
    ∃ rest, (x.peer.flows f).tstreams = s :: rest := by
  obtain ⟨⟨k, forced⟩, -, hk⟩ := Option.bind_eq_some_iff.mp h
  obtain ⟨u, hu, heq⟩ := Option.map_eq_some_iff.mp hk
  cases heq
  exact List.head?_eq_some_iff.mp hu

/-- The stream `q` is in line, and its priority is not set. -/
def Waits (q : StrmId) (y : Exec) (l : Label) : Prop :=
  (y.peer.streams q).tqflow = true ∧ ∀ newpri, l ≠ .call (.setPriority q newpri)

/-- The stream `q` is not chosen. -/
def PassesOver (q : StrmId) (y : Exec) (l : Label) : Prop := ∀ k, y.picks l ≠ some (k, q)

/-- The stream `q` got in line before the time `b`, and `s` did not. -/
structure Ahead (q s : StrmId) (b : ℕ) (y : Exec) : Prop where
  good : y.Good
  stamp : (y.peer.streams q).tqflow = true → (y.peer.streams q).stamp < b
  later : ∀ k, s ∈ (y.peer.flows k).tstreams → b ≤ (y.peer.streams s).stamp
  clock : b ≤ y.peer.clock

variable {q s : StrmId} {b f : ℕ}

/-- The stream chosen gets behind all the others. -/
theorem Good.ahead (h : x.Good) (hpick : x.picks l = some (f, s)) (hstep : x.step l = some x')
    (hqs : q ≠ s) : x'.Ahead q s x.peer.clock := by
  obtain ⟨e, hpass, hchosen, -, hturn⟩ := step_passes h hstep
  obtain rfl := hchosen f s hpick
  refine ⟨good_step h hstep, fun hq => ?_, fun k hs => ?_, hpass.clock⟩
  · have hqx : (x.peer.streams q).tqflow = true := (hturn f s q hpick hqs).symm.trans hq
    obtain ⟨rest, hrest⟩ := mem_of_picks hpick
    have hmem := h.peer.same_line (hrest ▸ List.mem_cons_self) hqx
    have hkeep := hpass.stamp f q (fun hn => hqs (Option.some.inj hn).symm) hmem
    exact hkeep.trans_lt (h.peer.placed.stamps q hqx)
  · rcases hpass.enters k s hs with ⟨hne, -⟩ | hle
    · exact absurd rfl hne
    · exact hle

/-- A stream that waits and is not chosen stays ahead. -/
theorem Ahead.step (h : x.Ahead q s b) (hw : x.Waits q l) (hp : x.PassesOver q l)
    (hstep : x.step l = some x') : x'.Ahead q s b := by
  obtain ⟨e, hpass, -, hleave, -⟩ := step_passes h.good hstep
  have hne : e ≠ some q := by
    intro he
    rcases hleave q he with ⟨k, hk⟩ | ⟨newpri, hl⟩
    · exact hp k hk
    · exact hw.2 newpri hl
  refine ⟨good_step h.good hstep, fun _ => ?_, fun k hs => ?_, h.clock.trans hpass.clock⟩
  · obtain ⟨i, hi⟩ := Option.ne_none_iff_exists'.mp (h.good.peer.placed.lined q hw.1)
    obtain ⟨⟨k, sid⟩, hk⟩ := Option.ne_none_iff_exists'.mp ((h.good.peer.placed.cur q i).mp hi)
    have hmem := (h.good.peer.placed.queued k q).mpr ⟨hw.1, i, sid, hk⟩
    exact (hpass.stamp k q hne hmem).trans_lt (h.stamp hw.1)
  · rcases hpass.enters k s hs with ⟨-, hmem, heq⟩ | hle
    · exact (h.later k hmem).trans heq.ge
    · exact h.clock.trans hle

theorem Ahead.lt (h : x.Ahead q s b) (hqs : q ≠ s) (hq : (x.peer.streams q).tqflow = true)
    (hpick : x.picks l = some (f, s)) :
    (x.peer.streams q).priority < (x.peer.streams s).priority := by
  obtain ⟨rest, hrest⟩ := mem_of_picks hpick
  have hs : s ∈ (x.peer.flows f).tstreams := hrest ▸ List.mem_cons_self
  have hmem := h.good.peer.same_line hs hq
  rcases h.good.peer.scheduled.first hrest hmem hqs with hlt | ⟨-, hlt⟩
  · exact hlt
  · exact absurd (hlt.trans (h.stamp hq)) (h.later f hs).not_gt

end Exec

/-- **Scheduling.** In every run the lines of the flows have each stream at most once, namely those
in line that are attached to the flow, by priority and by the time at which they got in line; a
stream is chosen only if none in its line has a higher priority; and of a stream that is chosen
twice, every stream that is in line from the one time to the other, without its priority being set,
and is not of lower priority then, is chosen in between. -/
theorem scheduling {x : Exec} (h : peerMachine.Reach Machine.always x) :
    x.peer.Scheduled ∧
    (∀ l f s, x.picks l = some (f, s) → ∀ t ∈ (x.peer.flows f).tstreams,
      (x.peer.streams t).priority ≤ (x.peer.streams s).priority) ∧
    ∀ l f s q x₁ ls x₂ l₂ k, x.picks l = some (f, s) → x.step l = some x₁ → q ≠ s →
      peerMachine.Meets (Exec.Waits q) x₁ ls → peerMachine.run x₁ ls = some x₂ →
      (x₂.peer.streams q).tqflow = true → x₂.picks l₂ = some (k, s) →
      (x₂.peer.streams s).priority ≤ (x₂.peer.streams q).priority →
      ¬peerMachine.Meets (Exec.PassesOver q) x₁ ls := by
  have hg := Exec.good_reach h
  refine ⟨hg.peer.scheduled, fun l f s hpick t ht => ?_, ?_⟩
  · obtain ⟨rest, hrest⟩ := Exec.mem_of_picks hpick
    by_cases hts : t = s
    · rw [hts]
    rcases hg.peer.scheduled.first hrest ht hts with hlt | ⟨heq, -⟩
    · exact hlt.le
    · exact heq.ge
  · intro l f s q x₁ ls x₂ l₂ k hpick hstep hqs hwaits hrun hq hpick₂ hle hover
    have hahead : x₂.Ahead q s x.peer.clock := by
      refine (hwaits.and hover).invariant (fun y z l hy hl hyz => hy.step hl.1 hl.2 hyz) ?_ hrun
      exact hg.ahead hpick hstep hqs
    exact (hahead.lt hqs hq hpick₂).not_ge hle

/-- Two streams, each with two packets, get in line on a flow without room in its congestion
window. -/
def twoInLine : List Label :=
  [.event .newFlow, .event (.start 0 true false 5 6), .run, .back, .event (.channel 0 0 0 true 1),
    .call (.connectTo [1]), .run, .run, .run, .call (.connectTo [2]), .run, .run, .run,
    .call (.writeData (.sub 0) [3] messageFlag), .run, .run,
    .call (.writeData (.sub 1) [4] messageFlag), .run, .run]

/-- The flow is told to transmit. -/
def sendOne : Label := .event (.readyTransmit 0 true)

/-- The two streams take turns. -/
theorem scheduling_turns : ∃ x x₁ x₂ : Exec,
    peerMachine.run peerMachine.init twoInLine = some x ∧ x.peer.Scheduled ∧
    x.picks sendOne = some (0, .sub 0) ∧ x.step sendOne = some x₁ ∧
    peerMachine.run x₁ [.run, sendOne, .run] = some x₂ ∧ x₂.picks sendOne = some (0, .sub 0) ∧
    ¬peerMachine.Meets (Exec.PassesOver (.sub 1)) x₁ [.run, sendOne, .run] := by
  have hrun : ((peerMachine.run peerMachine.init twoInLine).any fun x =>
      x.picks sendOne = some (0, .sub 0) && (x.step sendOne).any fun x₁ =>
      (x₁.peer.streams (.sub 1)).tqflow && (x₁.step .run).any fun y =>
      (y.peer.streams (.sub 1)).tqflow && (y.step sendOne).any fun z =>
      (z.peer.streams (.sub 1)).tqflow && (z.step .run).any fun x₂ =>
      (x₂.peer.streams (.sub 1)).tqflow && x₂.picks sendOne = some (0, .sub 0) &&
      (x₂.peer.streams (.sub 0)).priority ≤ (x₂.peer.streams (.sub 1)).priority) = true := by
    decide +kernel
  simp only [Option.any_eq_true, Bool.and_eq_true, decide_eq_true_eq] at hrun
  obtain ⟨x, hx, hpick, x₁, h1, hq₁, y, h2, hqy, z, h3, hqz, x₂, h4, ⟨hq₂, hpick₂⟩, hpri⟩ := hrun
  have hls : peerMachine.run x₁ [.run, sendOne, .run] = some x₂ := by
    rw [Exec.run_step h2, Exec.run_step h3, Exec.run_step h4, Machine.run_nil]
  have hwaits : peerMachine.Meets (Exec.Waits (.sub 1)) x₁ [.run, sendOne, .run] := by
    refine ⟨⟨hq₁, fun _ => Label.noConfusion⟩, fun y' hy' => ?_⟩
    obtain rfl : y = y' := Option.some.inj (h2.symm.trans hy')
    refine ⟨⟨hqy, fun _ => Label.noConfusion⟩, fun z' hz' => ?_⟩
    obtain rfl : z = z' := Option.some.inj (h3.symm.trans hz')
    exact ⟨⟨hqz, fun _ => Label.noConfusion⟩, fun _ _ => trivial⟩
  have hsched := scheduling (Machine.reach_of_run hx)
  have hqs : StrmId.sub 1 ≠ .sub 0 := by decide
  exact ⟨x, x₁, x₂, hx, hsched.1, hpick, h1, hls, hpick₂,
    hsched.2.2 _ 0 _ _ x₁ _ x₂ _ 0 hpick h1 hqs hwaits hls hq₂ hpick₂ hpri⟩

/-- A stream whose priority is set, to what it is, is in line all the time, and another of the same
priority transmits twice before it. -/
theorem scheduling_overtaken : ∃ x x₁ x₂ x₃ : Exec, ∃ ls : List Label,
    peerMachine.run peerMachine.init twoInLine = some x ∧
    x.picks sendOne = some (0, .sub 0) ∧ x.step sendOne = some x₁ ∧
    peerMachine.Meets (fun y l => (y.peer.streams (.sub 1)).tqflow = true ∧
      (y.peer.streams (.sub 0)).priority = (y.peer.streams (.sub 1)).priority ∧
      y.PassesOver (.sub 1) l) x₁ ls ∧ peerMachine.run x₁ ls = some x₂ ∧
    (x.peer.streams (.sub 1)).tqflow = true ∧ (x₂.peer.streams (.sub 1)).tqflow = true ∧
    x₂.picks sendOne = some (0, .sub 0) ∧ x₂.step sendOne = some x₃ ∧
    (x.peer.flows 0).sent.length = 0 ∧ (x₁.peer.flows 0).sent.length = 1 ∧
    (x₂.peer.flows 0).sent.length = 1 ∧ (x₃.peer.flows 0).sent.length = 2 := by
  have hrun : ((peerMachine.run peerMachine.init twoInLine).any fun x =>
      (x.peer.streams (.sub 1)).tqflow && x.picks sendOne = some (0, .sub 0) &&
      (x.step sendOne).any fun x₁ => (x₁.peer.streams (.sub 1)).tqflow &&
      (x₁.peer.streams (.sub 0)).priority = (x₁.peer.streams (.sub 1)).priority &&
      x₁.picks .run = none && (x₁.step .run).any fun y => (y.peer.streams (.sub 1)).tqflow &&
      (y.peer.streams (.sub 0)).priority = (y.peer.streams (.sub 1)).priority &&
      y.picks (.call (.setPriority (.sub 1) 0)) = none &&
      (y.step (.call (.setPriority (.sub 1) 0))).any fun x₂ =>
      (x₂.peer.streams (.sub 1)).tqflow && x₂.picks sendOne = some (0, .sub 0) &&
      (x₂.step sendOne).any fun x₃ =>
      (x.peer.flows 0).sent.length = 0 && (x₁.peer.flows 0).sent.length = 1 &&
      (x₂.peer.flows 0).sent.length = 1 && (x₃.peer.flows 0).sent.length = 2) = true := by
    decide +kernel
  simp only [Option.any_eq_true, Bool.and_eq_true, decide_eq_true_eq] at hrun
  obtain ⟨x, hx, ⟨hq, hpick⟩, x₁, h1, ⟨⟨hq₁, hp₁⟩, hn₁⟩, y, h2, ⟨⟨hqy, hpy⟩, hny⟩, x₂, h3,
    ⟨hq₂, hpick₂⟩, x₃, h4, ⟨⟨hs, hs₁⟩, hs₂⟩, hs₃⟩ := hrun
  have hover : ∀ {z : Exec} {l : Label}, z.picks l = none → z.PassesOver (.sub 1) l := by
    intro z l hz k hk
    rw [hz] at hk
    cases hk
  have hls : peerMachine.run x₁ [.run, .call (.setPriority (.sub 1) 0)] = some x₂ := by
    rw [Exec.run_step h2, Exec.run_step h3, Machine.run_nil]
  refine ⟨x, x₁, x₂, x₃, [_, _], hx, hpick, h1, ⟨⟨hq₁, hp₁, hover hn₁⟩, fun y' hy' => ?_⟩, hls, hq,
    hq₂, hpick₂, h4, hs, hs₁, hs₂, hs₃⟩
  obtain rfl : y = y' := Option.some.inj (h2.symm.trans hy')
  exact ⟨⟨hqy, hpy, hover hny⟩, fun _ _ => trivial⟩

end Sst.Strm
