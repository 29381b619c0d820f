import Sst.Sim.Clock

/-!
# The packets of the simulator

* `Passages s`: the passages over the links, each within its bounds and after the one before.
* `Queued s`: the packets in the queue of a host are those that are on their way to it.
* `Receipts s`: what was received, when, and in which order.
* `Fates s l`: every packet but those in `l` is on its way, received or missed.
* `Alike s t`: a step that is not about packets; **`Sound.alike`**: all of this stays.
-/

namespace Sst.Sim

open Simulator

/-- The passage meets the bounds of its link. -/
structure Passage.Within (P : Passage) : Prop where
  early : P.sent + P.params.delay + wireTime P.data.length P.params ≤ P.arr
  late : P.arr ≤ P.sent + P.params.delay + P.params.qlen + wireTime P.data.length P.params

/-- The passages over the links. -/
structure Passages (s : Simulator) : Prop where
  recorded : ∀ n P, s.passages n = some P → n < s.nextPacket
  within : ∀ n P, s.passages n = some P → P.Within
  arrival : ∀ n P, s.passages n = some P → P.arr ≤ (s.links P.link).arrival P.dir
  spaced : ∀ m n P Q, s.passages m = some P → s.passages n = some Q → P.link = Q.link →
    P.dir = Q.dir → m < n → P.arr + wireTime Q.data.length Q.params ≤ Q.arr

/-- The packets on their way, and the queues of the hosts. -/
structure Queued (s : Simulator) : Prop where
  fresh : ∀ n p, s.packets n = some p → n < s.nextPacket
  flying : ∀ n, Timer.packet n ∈ s.timers → ∃ P p, s.passages n = some P ∧ s.packets n = some p ∧
    s.wake (.packet n) = P.arr ∧ p.buf = P.data ∧ p.dst = P.dst
  dest : ∀ n P p h, s.passages n = some P → s.packets n = some p → p.dsth = some h →
    P.host = h ∧ ∃ host, s.hosts h = some host ∧ n ∈ host.pqueue
  queue : ∀ h host, s.hosts h = some host → ∀ n ∈ host.pqueue, ∃ P p, s.passages n = some P ∧
    s.packets n = some p ∧ p.dsth = some h

/-- What was received. -/
structure Receipts (s : Simulator) : Prop where
  exact : ∀ r ∈ s.received, ∃ P, s.passages r.packet = some P ∧ r.time = P.arr ∧ r.host = P.host ∧
    r.buf = P.data ∧ P.arr ≤ s.cur
  spent : ∀ r ∈ s.received, Timer.packet r.packet ∉ s.timers
  ahead : ∀ r ∈ s.received, ∀ n, Timer.packet n ∈ s.timers → Same s r.packet n → r.packet < n
  fifo : s.received.Pairwise fun r r' => r.packet ≠ r'.packet ∧
    (Same s r.packet r'.packet → r.packet < r'.packet)

/-- Every packet but those in `l` is on its way, received or missed, if its link accepted it. -/
structure Fates (s : Simulator) (l : List ℕ) : Prop where
  fate : ∀ n P, s.passages n = some P → Timer.packet n ∈ s.timers ∨
    (∃ r ∈ s.received, r.packet = n) ∨ n ∈ s.missed ∨ n ∈ l
  dying : ∀ n P p, s.passages n = some P → s.packets n = some p → p.dying = true →
    (∃ r ∈ s.received, r.packet = n) ∨ n ∈ s.missed

structure Sound (s : Simulator) (l : List ℕ) : Prop where
  passages : Passages s
  queued : Queued s
  receipts : Receipts s
  fates : Fates s l

variable {s t : Simulator} {l : List ℕ}

theorem sound_init : Sound {} [] where
  passages := ⟨nofun, nofun, nofun, nofun⟩
  queued := ⟨nofun, nofun, nofun, nofun⟩
  receipts := ⟨nofun, nofun, nofun, .nil⟩
  fates := ⟨nofun, nofun⟩

/-! ## Steps that are not about packets -/

/-- A step that is not about packets. -/
structure Alike (s t : Simulator) : Prop where
  cur : s.cur ≤ t.cur
  timers : ∀ n, Timer.packet n ∈ t.timers ↔ Timer.packet n ∈ s.timers
  wake : ∀ n, t.wake (.packet n) = s.wake (.packet n)
  packets : t.packets = s.packets
  nextPacket : t.nextPacket = s.nextPacket
  passages : t.passages = s.passages
  received : t.received = s.received
  missed : t.missed = s.missed
  arrival : ∀ l, (t.links l).arrival = (s.links l).arrival
  kept : ∀ h host, s.hosts h = some host → ∃ host', t.hosts h = some host' ∧
    host'.pqueue = host.pqueue
  came : ∀ h host', t.hosts h = some host' → host'.pqueue = [] ∨
    ∃ host, s.hosts h = some host ∧ host'.pqueue = host.pqueue

theorem Alike.refl (s : Simulator) : Alike s s where
  cur := le_rfl
  timers _ := Iff.rfl
  wake _ := rfl
  packets := rfl
  nextPacket := rfl
  passages := rfl
  received := rfl
  missed := rfl
  arrival _ := rfl
  kept _ host h := ⟨host, h, rfl⟩
  came _ host h := .inr ⟨host, h, rfl⟩

theorem Alike.trans {u : Simulator} (h : Alike s t) (h' : Alike t u) : Alike s u where
  cur := h.cur.trans h'.cur
  timers n := (h'.timers n).trans (h.timers n)
  wake n := (h'.wake n).trans (h.wake n)
  packets := h'.packets.trans h.packets
  nextPacket := h'.nextPacket.trans h.nextPacket
  passages := h'.passages.trans h.passages
  received := h'.received.trans h.received
  missed := h'.missed.trans h.missed
  arrival l := (h'.arrival l).trans (h.arrival l)
  kept k host hk := by
    obtain ⟨host', hk', heq⟩ := h.kept k host hk
    obtain ⟨host'', hk'', heq'⟩ := h'.kept k host' hk'
    exact ⟨host'', hk'', heq'.trans heq⟩
  came k host'' hk'' := by
    obtain hnil | ⟨host', hk', heq'⟩ := h'.came k host'' hk''
    · exact .inl hnil
    · obtain hnil | ⟨host, hk, heq⟩ := h.came k host' hk'
      · exact .inl (heq'.trans hnil)
      · exact .inr ⟨host, hk, heq'.trans heq⟩

theorem same_congr {s' : Simulator} (h : s'.passages = s.passages) {m n : ℕ} :
    Same s' m n ↔ Same s m n := by
  unfold Same
  rw [h]

/-- **What holds of packets stays**, if a step is not about them. -/
theorem Sound.alike (h : Sound s l) (ha : Alike s t) : Sound t l := by
  obtain ⟨hp, hq, hr, hf⟩ := h
  have hsame : ∀ {m n}, Same t m n ↔ Same s m n := same_congr ha.passages
  refine ⟨⟨?_, ?_, ?_, ?_⟩, ⟨?_, ?_, ?_, ?_⟩, ⟨?_, ?_, ?_, ?_⟩, ⟨?_, ?_⟩⟩
  · rw [ha.nextPacket, ha.passages]
    exact hp.recorded
  · rw [ha.passages]
    exact hp.within
  · rw [ha.passages]
    intro n P hP
    rw [ha.arrival]
    exact hp.arrival n P hP
  · rw [ha.passages]
    exact hp.spaced
  · rw [ha.packets, ha.nextPacket]
    exact hq.fresh
  · intro n hn
    rw [ha.passages, ha.packets, ha.wake]
    exact hq.flying n ((ha.timers n).mp hn)
  · rw [ha.packets, ha.passages]
    intro n P p k hP hn hk
    obtain ⟨hPk, host, hhost, hmem⟩ := hq.dest n P p k hP hn hk
    obtain ⟨host', hhost', heq⟩ := ha.kept k host hhost
    exact ⟨hPk, host', hhost', heq ▸ hmem⟩
  · rw [ha.packets, ha.passages]
    intro k host' hk n hn
    obtain hnil | ⟨host, hhost, heq⟩ := ha.came k host' hk
    · rw [hnil] at hn
      cases hn
    · exact hq.queue k host hhost n (heq ▸ hn)
  · rw [ha.received, ha.passages]
    intro r hrm
    obtain ⟨P, hP, htime, hhost, hbuf, hle⟩ := hr.exact r hrm
    exact ⟨P, hP, htime, hhost, hbuf, hle.trans ha.cur⟩
  · rw [ha.received]
    exact fun r hrm hin => hr.spent r hrm ((ha.timers _).mp hin)
  · rw [ha.received]
    exact fun r hrm n hn hs => hr.ahead r hrm n ((ha.timers n).mp hn) (hsame.mp hs)
  · rw [ha.received]
    exact hr.fifo.imp fun {a b} hab => ⟨hab.1, fun hs => hab.2 (hsame.mp hs)⟩
  · rw [ha.passages, ha.received, ha.missed]
    intro n P hP
    rw [ha.timers]
    exact hf.fate n P hP
  · rw [ha.packets, ha.passages, ha.received, ha.missed]
    exact hf.dying

end Sst.Sim
