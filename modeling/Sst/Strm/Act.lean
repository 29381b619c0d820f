import Sst.Strm.Machine
import Mathlib.Logic.Relation

/-!
# Elementary acts of a peer

Every step of a run is a sequence of a few elementary acts. The invariants of a peer are proved on
these.

* `Act`, `Peer.apply`, `Peer.Admits`: the acts, their effects and when they occur.
* `Act.Minor`: the acts that may follow any other within a step.
* `Steps P`: sequences of acts that meet `P`.
-/

namespace Sst.Strm

/-- The elementary acts. -/
inductive Act
  | misc (s : StrmId) (g : BaseStream → BaseStream)
  | signal (waiters : List StrmId) (stallcount : ℕ) (fault : Bool)
  | bind (s : StrmId)
  | adopt (f : ℕ) (s : StrmId)
  | attach (f : ℕ) (s : StrmId) (ctr : ℕ) (i : Fin 2)
  | line (f : ℕ) (s : StrmId)
  | prioritize (s : StrmId) (newpri : ℤ)
  | pick (f : ℕ) (s : StrmId) (rest : List StrmId)
  | sendData (f : ℕ) (s q : StrmId) (p : Packet) (rest : List Packet) (type : PacketType)
      (wire : Wire) (forced : Bool)
  | sendDatagram (f : ℕ) (s : StrmId) (p : Packet) (rest : List Packet) (wire : Wire)
      (forced : Bool)
  | sendAttach (f : ℕ) (s : StrmId) (p : Packet) (wire : Wire) (forced : Bool)
  | ack (f seq : ℕ) (p : Packet)
  | miss (f seq : ℕ) (p : Packet)
  | report (f seq : ℕ)
  | drop (f seq : ℕ)
  | activate (s : StrmId) (i : Fin 2) (a : TxAttachment) (rxseq : ℕ)
  | write (s : StrmId) (p : Packet)
  | writeDatagram (s : StrmId) (p : Packet)
  | openStream (b : BaseStream)
  | create (f : ℕ) (p : StrmId) (u : Usid) (sid : ℕ) (slot : Fin 2) (pktseq : ℕ)
  | setActive (s : StrmId) (i : Fin 2) (f sid rxseq : ℕ)
  | clearRx (s : StrmId) (i : Fin 2)
  | lowerSidseq (s : StrmId) (i : Fin 2) (pktseq : ℕ)
  | newFlow
  | activateFlow (f : ℕ) (nocc : Bool) (txChannelId rxChannelId : ℕ)
  | nameRoot (f chanId : ℕ)
  | channel (f : ℕ) (g : StreamFlow → StreamFlow)
  | rehash (f : ℕ) (ackwait : AList fun _ : ℕ => Packet)
  | primary (f : ℕ)
  | clearPrimary
  | stop (f : ℕ)
  | delete (s : StrmId)

/-- The acts that attach a stream or put it in line, and changes of no consequence. -/
def Act.Minor : Act → Prop
  | misc .. | signal .. | adopt .. | attach .. | line .. => True
  | _ => False

/-- The acts by which a stream with its turn gets in line again. -/
def Act.For (s : StrmId) : Act → Prop
  | .adopt _ t | .line _ t => t = s
  | _ => False

theorem Act.For.minor {s : StrmId} {a : Act} (h : a.For s) : a.Minor := by
  cases a with
  | adopt | line => trivial
  | _ => exact h.elim

/-- The part of a stream that a change of no consequence keeps. -/
def BaseStream.kept (b : BaseStream) : Slots × Queueing × Naming × ℤ × ℤ × Finset ℤ × ℤ ×
    List Segment × Finset ℕ :=
  (b.toSlots, b.toQueueing, { b.toNaming with pusid := none }, b.tasn, b.tflt, b.twait, b.twaitsize,
    b.written, b.ackedIds)

/-- A change of no consequence: nothing is accepted, bound or substituted. -/
structure Slight (g : BaseStream → BaseStream) : Prop where
  kept : ∀ b, (g b).kept = b.kept
  rsubs : ∀ b, (g b).rsubs ⊆ b.rsubs
  strm : ∀ b, (g b).strm = true → b.strm = true
  accepting : ∀ b, (g b).state = .accepting → b.state = .accepting

/-- The part of a flow that the channel below does not change. -/
def StreamFlow.kept (x : StreamFlow) : Sids × Bool × Bool × ℕ × ℕ × ℕ × ℕ × ℕ × List StrmId ×
    (AList fun _ : ℕ => Packet) × Bool × List Sent :=
  (x.toSids, x.active, x.nocc, x.txChannelId, x.rxChannelId, x.txctr, x.txackctr, x.rxctr,
    x.tstreams, x.ackwait, x.started, x.sent)

namespace Peer

/-- The effect of an act. -/
def apply (w : Peer) : Act → Peer
  | .misc s g => w.modStream s g
  | .signal waiters stallcount fault =>
    { w with waiters := waiters, stallcount := stallcount, fault := fault }
  | .bind s => w.modStream s fun b => { b with strm := true }
  | .adopt f s => w.modStream s fun b => { b with parent := some (.root f) }
  | .attach f s ctr i => (w.joinFlow f s ctr i).takeName f s ctr
  | .line f s => w.standInLine f s
  | .prioritize s newpri => w.setPriority s newpri
  | .pick f s rest => (w.modFlow f fun x => { x with tstreams := rest }).modStream s fun b =>
      { b with tqflow := false }.collect
  | .sendData f s q p rest type wire forced =>
    (((w.startflight f q p.payload.length).setQueue s rest).awaitAck f
      { p with header := type }).flowTransmit f s wire forced
  | .sendDatagram f s p rest wire forced =>
    ((w.setQueue s rest).startflight f s p.payload.length).flowTransmit f s wire forced
  | .sendAttach f s p wire forced => (w.awaitAck f p).flowTransmit f s wire forced
  | .ack f seq p =>
    let w := (w.takePacket f seq).report f seq
    if p.type = .data then w.segmentAcked p else w
  | .miss f seq p =>
    let w := (w.report f seq).markLate f seq p
    if p.type = .data then w.segmentMissed { p with late := true } else w
  | .report f seq => w.report f seq
  | .drop f seq => w.takePacket f seq
  | .activate s i a rxseq => w.activateTx s i a rxseq
  | .write s p => (w.recordSegment s p).modStream s (·.insertPacket p)
  | .writeDatagram s p => w.modStream s (·.insertPacket p)
  | .openStream b => w.newStream b
  | .create f p u sid slot pktseq =>
    ((w.createSub f p u).followCtr f sid).setActive (.sub w.nextStream) slot f sid pktseq
  | .setActive s i f sid rxseq => w.setActive s i f sid rxseq
  | .clearRx s i => w.clearRx s i
  | .lowerSidseq s i pktseq => w.lowerSidseq s i pktseq
  | .newFlow => w.newFlow
  | .activateFlow f nocc tx rx => w.activateFlow f nocc tx rx
  | .nameRoot f chanId => w.nameRoot f chanId
  | .channel f g => w.modFlow f g
  | .rehash f ackwait => w.modFlow f fun x => { x with ackwait := ackwait }
  | .primary f => { w with flow := some f }
  | .clearPrimary => w.clearPrimary.1
  | .stop f => (w.stop f).1
  | .delete s => (w.deleteStream s).1

/-- The stream `s` is attached to `f` for transmission, in the slot `i`. -/
def Attached (w : Peer) (s : StrmId) (f : ℕ) (i : Fin 2) (a : TxAttachment) : Prop :=
  (w.streams s).tcuratt = some i ∧ (w.streams s).tatt i = some a ∧ a.flow = f

/-- The turn of a stream: either it was forced, or the flow may transmit. -/
def Turn (w : Peer) (f : ℕ) (forced : Bool) : Prop :=
  forced = true ∨ (w.flows f).mayTransmit = true

/-- When an act occurs. -/
def Admits (w : Peer) : Act → Prop
  | .misc _ g => Slight g
  | .bind s => ∃ n, s = .sub n
  | .adopt f s => (w.streams s).toplev = true ∧
      ((w.streams s).tcuratt = none ∨ ∃ i a, w.Attached s f i a)
  | .attach f s ctr i => w.flow = some f ∧ (w.streams s).tcuratt = none ∧
      (w.streams s).live = true ∧ (w.flows f).allocSid = some ctr ∧
      (w.streams s).freeSlot = some i
  | .line f s => (∃ i a, w.Attached s f i a) ∧ (w.streams s).tqflow = false ∧
      (w.streams s).tqueue ≠ []
  | .pick f s rest => (w.flows f).tstreams = s :: rest
  | .sendData f s q p rest type wire forced => ∃ i a, w.Attached s f i a ∧
      (w.streams s).tqueue = p :: rest ∧ p.type = .data ∧ w.Turn f forced ∧
      ((type = .init ∧ a.isAcked = false ∧ ∃ pa, w.initParent f s a = some (q, pa) ∧
          wire = .init a.sid pa.sid (p.tsn % 2 ^ 16).toNat p.flags p.payload) ∨
        (type = .reply ∧ q = s ∧ a.isAcked = false ∧ ∃ ra, w.replySlot f s = some ra ∧
          wire = .reply a.sid ra.sid (p.tsn % 2 ^ 16).toNat p.flags p.payload) ∨
        (type = .data ∧ q = s ∧ a.isAcked = true ∧
          wire = .data a.sid (p.tsn % 2 ^ 32).toNat p.flags p.payload))
  | .sendDatagram f s p rest wire forced => ∃ i a, w.Attached s f i a ∧
      (w.streams s).tqueue = p :: rest ∧ p.type = .datagram ∧ w.Turn f forced ∧
      wire = .datagram a.sid p.begins p.ends p.payload
  | .sendAttach f s p wire forced => (∃ n, s = .sub n) ∧ ∃ i a, w.Attached s f i a ∧
      w.Turn f forced ∧ p.strm = s ∧ p.type = .attach ∧
      wire = .attach a.sid i (w.streams s).usid
        (if (w.streams s).init then some (w.streams s).pusid else none)
  | .ack f seq p => (w.flows f).ackwait.lookup seq = some p
  | .miss f seq p => (w.flows f).ackwait.lookup seq = some p ∧ p.late = false
  | .report f seq => (w.flows f).ackwait.lookup seq = none
  | .activate s i a _ => w.Attached s a.flow i a ∧ a.isAcked = false
  | .write s p => (∃ n, s = .sub n) ∧ ∃ data endflags, p = w.nextSegment s data endflags
  | .writeDatagram s p => (∃ n, s = .sub n) ∧ ∃ data, p = w.nextDatagram s data
  | .openStream b => ∃ parent mode state toplev strm,
      b = { BaseStream.new parent mode state with toplev := toplev, strm := strm }
  | .create f p _ _ _ _ => (w.flows f).active = true ∧ (w.streams p).isListening = true
  | .setActive _ _ f _ _ => (w.flows f).active = true
  | .activateFlow f .. => f < w.nextFlow ∧ (w.flows f).started = false
  | .channel f g => (g (w.flows f)).kept = (w.flows f).kept ∧
      (w.flows f).txseq ≤ (g (w.flows f)).txseq
  | .rehash f ackwait => ackwait.entries.Perm (w.flows f).ackwait.entries
  | .primary f => w.flow = none ∧ (w.flows f).active = true
  | .stop f => w.flow ≠ some f
  | .delete s => (w.streams s).live = true
  | _ => True

end Peer

/-- A sequence of acts that meet `P`. -/
def Steps (P : Act → Prop) : Peer → Peer → Prop :=
  Relation.ReflTransGen fun w w' => ∃ a, P a ∧ w.Admits a ∧ w.apply a = w'

namespace Steps

variable {P Q : Act → Prop} {w w' w'' : Peer}

theorem refl : Steps P w w := Relation.ReflTransGen.refl

theorem trans (h₁ : Steps P w w') (h₂ : Steps P w' w'') : Steps P w w'' :=
  Relation.ReflTransGen.trans h₁ h₂

theorem single {a : Act} (hP : P a) (h : w.Admits a) : Steps P w (w.apply a) :=
  Relation.ReflTransGen.single ⟨a, hP, h, rfl⟩

theorem mono (hPQ : ∀ a, P a → Q a) (h : Steps P w w') : Steps Q w w' := by
  induction h with
  | refl => exact refl
  | tail _ hm ih =>
    obtain ⟨a, hP, ha, rfl⟩ := hm
    exact ih.trans (single (hPQ a hP) ha)

theorem invariant {I : Peer → Prop}
    (hI : ∀ w a, P a → w.Admits a → I w → I (w.apply a)) (h : Steps P w w') (hw : I w) : I w' := by
  induction h with
  | refl => exact hw
  | tail _ hm ih =>
    obtain ⟨a, hP, ha, rfl⟩ := hm
    exact hI _ a hP ha ih

end Steps

end Sst.Strm
