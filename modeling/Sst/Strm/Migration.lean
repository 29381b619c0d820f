import Sst.Strm.Sent

/-!
# Migration from flow to flow

At every moment of a run, callbacks included, the streams of a peer are attached to its primary flow
or to none, and no other flow has anything left of them.

* `Peer.Migrates`: the property of a state.
* **`migration`**: the property holds in every run, and nothing is sent on another flow.
-/

namespace Sst.Strm

open Transition

namespace Peer

/-- The primary flow is active, the streams are attached to it or to none, and no other flow has
streams in line or packets that wait for an acknowledgment. -/
structure Migrates (w : Peer) : Prop where
  active : ∀ f, w.flow = some f → f < w.nextFlow ∧ (w.flows f).active = true
  attached : ∀ n i a, (w.streams (.sub n)).tatt i = some a → w.flow = some a.flow
  idle : ∀ f, w.flow ≠ some f → (w.flows f).tstreams = [] ∧ (w.flows f).ackwait = ∅

variable {w : Peer}

theorem Good.migrates (h : w.Good none none) : w.Migrates where
  active f hf := by
    have := h.placed.active f hf
    exact ⟨(h.placed.started f this).1, this⟩
  attached n i a ha := by
    have hl : w.layout.link (.sub n) i = some (a.flow, a.sid) := by
      change ((w.streams (.sub n)).tatt i).map _ = _
      rw [ha]
      rfl
    exact (h.placed.primary n i _ _ hl).resolve_right fun hn => (nomatch hn)
  idle f hf := by
    refine ⟨h.no_streams hf, AList.ext (List.eq_nil_iff_forall_not_mem.mpr ?_)⟩
    rintro ⟨seq, p⟩ hp
    have := h.no_packets hf seq
    rw [AList.mem_lookup_iff.mpr hp] at this
    cases this

end Peer

/-- **Migration.** In every run, callbacks included, the primary flow is none or an active flow of
the peer, every transmit attachment of a stream other than a root is on it, and no other flow has
streams in line or packets that wait for an acknowledgment, so that nothing is sent on it. -/
theorem migration {x : Exec} (h : peerMachine.Reach Machine.always x) :
    x.peer.Migrates ∧ ∀ l x', x.step l = some x' → ∀ f < x.peer.nextFlow, x.peer.flow ≠ some f →
      (x'.peer.flows f).sent = (x.peer.flows f).sent := by
  have hg := Exec.good_reach h
  refine ⟨hg.peer.migrates, fun l x' hstep f hf hne => ?_⟩
  refine (Exec.step_sent hg hstep hf).resolve_right ?_
  rintro ⟨r, forced, -, hs, -⟩
  exact hs (hg.peer.no_streams hne)

/-- A stream is attached to the primary flow, which fails while its packet is on the way. -/
theorem migration_failure : ∃ x x' : Exec,
    peerMachine.run peerMachine.init [.event .newFlow, .event (.start 0 true false 5 6), .run,
      .back, .call (.connectTo [1, 2]), .run, .run, .back, .run, .run] = some x ∧
    x.step (.event (.linkStatus 0 .down)) = some x' ∧
    ((x.peer.streams (.sub 0)).tatt 0).isSome = true ∧
    (x.peer.flows 0).ackwait.entries.length = 1 ∧ x.peer.Migrates ∧ x'.peer.flow = none ∧
      x'.peer.Migrates :=
  have hrun : ∃ x, peerMachine.run peerMachine.init [.event .newFlow,
      .event (.start 0 true false 5 6), .run, .back, .call (.connectTo [1, 2]), .run, .run, .back,
      .run, .run] = some x ∧ ∃ x', x.step (.event (.linkStatus 0 .down)) = some x' ∧
      ((x.peer.streams (.sub 0)).tatt 0).isSome = true ∧
      (x.peer.flows 0).ackwait.entries.length = 1 ∧ x'.peer.flow = none :=
    ⟨_, rfl, _, rfl, rfl, rfl, rfl⟩
  let ⟨x, hx, x', hstep, hatt, hack, hflow⟩ := hrun
  have hreach := Machine.reach_of_run hx
  ⟨x, x', hx, hstep, hatt, hack, (migration hreach).1, hflow,
    (migration (hreach.step trivial hstep)).1⟩

end Sst.Strm
