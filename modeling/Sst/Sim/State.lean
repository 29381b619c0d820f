import Mathlib.Data.Int.Notation
import Mathlib.Logic.Function.Basic
import Mathlib.Tactic.NormNum
import Sst.Lib.Priority
import Sst.Lib.Transition
import Sst.Lib.Word

/-!
# The network simulator

Hosts are joined by links with a rate, a delay and a queue in each direction; the clock jumps from
one timer to the next.

* `LinkParams`, `SimLink`, `SimHost`, `SimPacket`, `Simulator`: the state.
* `startTimer`, `stopTimer`: the timer engine.
* `newPacket`, `arrive`: a packet on its way; a packet that its link refuses is deleted later.
* `run`: one round of the simulator's loop.
* `Label`, `simMachine`: what may happen; a failed assertion, a dangling pointer and a time beyond
  the clock are `none`.

The record of the packets sent, received and missed, and of the hosts that are gone, is not part of
the program.
-/

namespace Sst.Sim

abbrev Address := UInt32

structure Endpoint where
  addr : Address
  port : UInt16
  deriving DecidableEq

/-! ## Links -/

/-- The rate in bytes per second, and the delay and the queue length in microseconds. Random loss is
up to the environment. -/
structure LinkParams where
  rate : ℤ
  delay : ℤ
  qlen : ℤ
  rate_pos : 0 < rate
  delay_nonneg : 0 ≤ delay
  qlen_nonneg : 0 ≤ qlen

/-- A link with its two ends, `false` down and `true` up. -/
structure SimLink where
  hosts : Bool → Option ℕ := fun _ => none
  addrs : Bool → Address := fun _ => 0
  params : Bool → LinkParams
  arrival : Bool → ℤ := fun _ => 0

/-- `which`: the end at which a host is; it is at one of them. -/
def SimLink.which (l : SimLink) (h : ℕ) : Option Bool :=
  if l.hosts true = some h then some true
  else if l.hosts false = some h then some false
  else none

def eth100 : LinkParams where
  rate := 13107200
  delay := 250
  qlen := 2861
  rate_pos := by norm_num
  delay_nonneg := by norm_num
  qlen_nonneg := by norm_num

/-! ## Hosts and packets -/

/-- A host, with the links at its addresses and the sockets at its ports. -/
structure SimHost where
  links : List (Address × ℕ) := []
  socks : UInt16 → Option ℕ := fun _ => none
  pqueue : List ℕ := []

/-- A packet, with a pointer to its host; `dying` says that its deletion is pending. -/
structure SimPacket where
  src : Endpoint
  dst : Endpoint
  dsth : Option ℕ
  buf : List UInt8
  dying : Bool := false

/-- A timer of the program under simulation, or that of a packet. -/
inductive Timer
  | app (n : ℕ)
  | packet (n : ℕ)
  deriving DecidableEq

/-- The passage of a packet over one direction of a link. -/
structure Passage where
  link : ℕ
  dir : Bool
  host : ℕ
  dst : Endpoint
  data : List UInt8
  params : LinkParams
  sent : ℤ
  arr : ℤ

/-- The overhead of a packet on the wire. -/
def pktoh : ℕ := 32

/-- The time that a packet takes on the wire. -/
def wireTime (size : ℕ) (p : LinkParams) : ℤ := ((size + pktoh : ℕ) : ℤ) * 1000000 / p.rate

/-- The receipt of a packet by a socket of a host. -/
structure Receipt where
  packet : ℕ
  host : ℕ
  sock : ℕ
  buf : List UInt8
  time : ℤ

structure Simulator where
  cur : ℤ := 0
  timers : List Timer := []
  wake : Timer → ℤ := fun _ => -1
  hosts : ℕ → Option SimHost := fun _ => none
  links : ℕ → SimLink := fun _ => { params := fun _ => eth100 }
  packets : ℕ → Option SimPacket := fun _ => none
  nextPacket : ℕ := 0
  passages : ℕ → Option Passage := fun _ => none
  received : List Receipt := []
  missed : List ℕ := []
  gone : List ℕ := []

namespace Simulator

/-! ## Timers -/

/-- `SimTimerEngine::stop`. -/
def stopTimer (s : Simulator) (t : Timer) : Simulator :=
  if s.wake t < 0 then s
  else { s with timers := s.timers.filter (· ≠ t), wake := Function.update s.wake t (-1) }

/-- `SimTimerEngine::start`: a timer goes behind those that wake no later. The time to wake is an
unsigned sum in a signed variable. -/
def startTimer (s : Simulator) (t : Timer) (usecs : ℕ) : Simulator :=
  let s := s.stopTimer t
  let wake := Word.wrap 64 (s.cur + usecs)
  { s with
    timers := Priority.insertBehind (fun u => s.wake u ≤ wake) t s.timers
    wake := Function.update s.wake t wake }

/-! ## Packets -/

def modHost (s : Simulator) (h : ℕ) (f : SimHost → SimHost) : Simulator :=
  { s with hosts := Function.update s.hosts h ((s.hosts h).map f) }

def modPacket (s : Simulator) (n : ℕ) (f : SimPacket → SimPacket) : Simulator :=
  { s with packets := Function.update s.packets n ((s.packets n).map f) }

/-- The time at which a packet that enters the end `w` of a link has arrived, and whether it is
dropped. -/
def departure (s : Simulator) (l : ℕ) (w : Bool) (size : ℕ) : Option (ℤ × Bool) :=
  let p := (s.links l).params !w
  let nomarr := s.cur + p.delay
  let actarr := max nomarr ((s.links l).arrival !w)
  let drop := decide (actarr > nomarr + p.qlen)
  let arr := actarr + wireTime size p
  if 2 ^ 63 ≤ nomarr + p.qlen ∨ drop = false ∧ 2 ^ 63 ≤ arr then none else some (arr, drop)

def addPacket (s : Simulator) (p : SimPacket) : Simulator :=
  { s with
    packets := Function.update s.packets s.nextPacket (some p)
    nextPacket := s.nextPacket + 1 }

/-- A packet that is lost or dropped: it has its host, but is not in its queue. -/
def refuse (s : Simulator) (p : SimPacket) : Simulator := s.addPacket { p with dying := true }

/-- A packet is accepted by a link and arrives at the host `h` at the time `arr`. -/
def accept (s : Simulator) (l : ℕ) (dir : Bool) (h : ℕ) (p : SimPacket) (arr : ℤ) : Simulator :=
  let n := s.nextPacket
  let s := { s.addPacket p with
    links := Function.update s.links l
      { s.links l with arrival := Function.update (s.links l).arrival dir arr }
    passages := Function.update s.passages n
      (some ⟨l, dir, h, p.dst, p.buf, (s.links l).params dir, s.cur, arr⟩) }
  (s.modHost h fun host => { host with pqueue := host.pqueue ++ [n] }).startTimer (.packet n)
    (arr - s.cur).toNat

/-- `SimPacket::SimPacket` at the end `w` of the link `l`, with the host `h` at the other. -/
def newPacket (s : Simulator) (l : ℕ) (w : Bool) (h : ℕ) (src dst : Endpoint) (data : List UInt8)
    (lost : Bool) : Option Simulator :=
  let p : SimPacket := { src, dst, dsth := some h, buf := data }
  if lost then some (s.refuse p)
  else
    (s.departure l w data.length).map fun (arr, drop) =>
      if drop then s.refuse p else s.accept l (!w) h p arr

/-- `SimSocket::send` of the host `h` from its address `srcaddr`. -/
def send (s : Simulator) (h : ℕ) (port : UInt16) (srcaddr : Address) (dst : Endpoint)
    (data : List UInt8) (lost : Bool) : Option Simulator :=
  (s.hosts h).bind fun host => (host.socks port).bind fun _ =>
  (host.links.lookup srcaddr).bind fun l =>
    ((s.links l).which h).bind fun w =>
      if (s.links l).addrs w ≠ srcaddr ∨ (s.links l).addrs (!w) ≠ dst.addr then none
      else
        match (s.links l).hosts !w with
        | none => some s
        | some dsth =>
          (s.hosts dsth).bind fun _ => s.newPacket l w dsth ⟨srcaddr, port⟩ dst data lost

/-- A packet that is not received is deleted later. -/
def miss (s : Simulator) (n : ℕ) : Simulator :=
  { s.modPacket n fun p => { p with dying := true } with missed := n :: s.missed }

/-- `SimPacket::arrive`. -/
def arrive (s : Simulator) (n : ℕ) : Option Simulator :=
  (s.packets n).bind fun p =>
    match p.dsth with
    | none => some (s.miss n)
    | some h =>
      (s.hosts h).bind fun host =>
        if !host.pqueue.contains n then some (s.miss n)
        else
          let s := s.stopTimer (.packet n)
          match host.socks p.dst.port with
          | none => some (s.miss n)
          | some sock =>
            let s := s.modHost h fun host => { host with pqueue := host.pqueue.filter (· ≠ n) }
            let s := s.modPacket n fun p => { p with dsth := none, dying := true }
            some { s with received := s.received ++ [⟨n, h, sock, p.buf, s.cur⟩] }

/-- `SimPacket::~SimPacket`, when the deletion is due. -/
def reap (s : Simulator) (n : ℕ) : Option Simulator :=
  (s.packets n).bind fun p =>
    if !p.dying then none
    else
      let t := { s.stopTimer (.packet n) with packets := Function.update s.packets n none }
      match p.dsth with
      | none => some t
      | some h =>
        (s.hosts h).map fun _ =>
          t.modHost h fun host => { host with pqueue := host.pqueue.filter (· ≠ n) }

/-- One round of `Simulator::run`. -/
def run (s : Simulator) : Option Simulator :=
  match s.timers with
  | [] => none
  | next :: timers =>
    if s.wake next < s.cur then none
    else
      let s := { s with
        timers := timers, cur := s.wake next, wake := Function.update s.wake next (-1) }
      match next with
      | .app _ => some s
      | .packet n => s.arrive n

/-! ## Hosts and links -/

/-- The loop body of `SimLink::disconnect`. -/
def detach (s : Simulator) (l : ℕ) (w : Bool) : Option Simulator :=
  match (s.links l).hosts w with
  | none => some s
  | some h =>
    (s.hosts h).bind fun host =>
      if host.links.lookup ((s.links l).addrs w) ≠ some l then none
      else
        let s := s.modHost h fun host =>
          { host with links := host.links.filter fun x => x.1 ≠ (s.links l).addrs w }
        some { s with
          links := Function.update s.links l
            { s.links l with hosts := Function.update (s.links l).hosts w none } }

/-- `SimLink::disconnect`. -/
def disconnect (s : Simulator) (l : ℕ) : Option Simulator :=
  (s.detach l false).bind fun s => s.detach l true

/-- `SimLink::connect`. -/
def connect (s : Simulator) (l downHost : ℕ) (downAddr : Address) (upHost : ℕ) (upAddr : Address) :
    Option Simulator :=
  if upHost = downHost ∨ upAddr = downAddr ∨ (s.links l).hosts false ≠ none ∨
      (s.links l).hosts true ≠ none then none
  else
    (s.hosts downHost).bind fun d => (s.hosts upHost).bind fun u =>
      if d.links.lookup downAddr ≠ none ∨ u.links.lookup upAddr ≠ none then none
      else
        let s := { s with
          links := Function.update s.links l
            { s.links l with
              hosts := fun w => some (if w then upHost else downHost)
              addrs := fun w => if w then upAddr else downAddr } }
        let s := s.modHost downHost fun host =>
          { host with links := (downAddr, l) :: host.links }
        some (s.modHost upHost fun host => { host with links := (upAddr, l) :: host.links })

/-- The end of `SimHost::~SimHost`: the packets queued to the host have no host any more, and are
deleted later. -/
def orphan (s : Simulator) (h : ℕ) : Option Simulator :=
  (s.hosts h).bind fun host =>
    if host.links ≠ [] then none
    else if host.pqueue.any fun n => (s.packets n).bind SimPacket.dsth ≠ some h then none
    else
      some { s with
        hosts := Function.update s.hosts h none
        packets := fun n =>
          if host.pqueue.contains n then
            (s.packets n).map fun p => { p with dsth := none, dying := true }
          else s.packets n
        missed := host.pqueue ++ s.missed
        gone := h :: s.gone }

/-- The host is detached from the link at one of its addresses. -/
def unplug (h : ℕ) (s : Simulator) (addr : Address) : Option Simulator :=
  (s.hosts h).bind fun host => (host.links.lookup addr).bind fun l => s.disconnect l

/-- `SimHost::~SimHost`. -/
def deleteHost (s : Simulator) (h : ℕ) : Option Simulator :=
  (s.hosts h).bind fun host =>
    ((host.links.map Prod.fst).foldlM (unplug h) s).bind fun s => s.orphan h

end Simulator

open Simulator

/-- What may happen: the program under simulation, and the loop of the simulator. -/
inductive Label
  | startTimer (n usecs : ℕ)
  | stopTimer (n : ℕ)
  | send (h : ℕ) (port : UInt16) (srcaddr : Address) (dst : Endpoint) (data : List UInt8)
    (lost : Bool)
  | run
  | reap (n : ℕ)
  | newHost (h : ℕ)
  | deleteHost (h : ℕ)
  | bind (h : ℕ) (port : UInt16) (sock : ℕ)
  | unbind (h : ℕ) (port : UInt16)
  | connect (l downHost : ℕ) (downAddr : Address) (upHost : ℕ) (upAddr : Address)
  | disconnect (l : ℕ)
  | setLinkParams (l : ℕ) (down up : LinkParams)

def Simulator.step (s : Simulator) : Label → Option Simulator
  -- A time to wake that does not fit is in the past.
  | .startTimer n usecs =>
    if 2 ^ 63 ≤ s.cur + usecs then none else some (s.startTimer (.app n) usecs)
  | .stopTimer n => some (s.stopTimer (.app n))
  | .send h port srcaddr dst data lost => s.send h port srcaddr dst data lost
  | .run => s.run
  | .reap n => s.reap n
  | .newHost h =>
    if (s.hosts h).isSome || s.gone.contains h then none
    else some { s with hosts := Function.update s.hosts h (some {}) }
  | .deleteHost h => s.deleteHost h
  | .bind h port sock =>
    (s.hosts h).bind fun host =>
      if (host.socks port).isSome then none
      else
        some (s.modHost h fun host =>
          { host with socks := Function.update host.socks port (some sock) })
  | .unbind h port =>
    some (s.modHost h fun host => { host with socks := Function.update host.socks port none })
  | .connect l downHost downAddr upHost upAddr => s.connect l downHost downAddr upHost upAddr
  | .disconnect l => s.disconnect l
  | .setLinkParams l down up =>
    some { s with
      links := Function.update s.links l
        { s.links l with params := fun w => if w then up else down } }

def simMachine : Transition.Machine Simulator Label where
  init := {}
  step := Simulator.step

end Sst.Sim
