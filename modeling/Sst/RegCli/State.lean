import Sst.Lib.Transition
import Sst.Reg.Info

/-!
# The registration client: its data

* `Xdr.readInto`: reading a string into a variable, which a failed read may leave overwritten.
* `Library`: what the library and the host's identity supply.
* `Timer`: a timer with its retry interval and its deadline.
* `RegClient`, `RegHost`: the clients of a host and the table that finds the client of a reply.
* `Frame`: a function that waits for the receivers of a signal to return.
-/

namespace Sst.Reg

/-! ## Decoding into a variable, and encoding -/

namespace Xdr

/-- Read a string into a variable that holds `old`. A failed read leaves the variable alone if the
length cannot be read, and otherwise resized and filled as far as there is data; `junk` is what
the memory holds that `QByteArray::resize` adds. -/
def readInto (old junk l : Bytes) : Bytes × Option Bytes :=
  match readInt l with
  | none => (old, none)
  | some (len, l) =>
    if len < 0 then (old, none)
    else
      let n := len.toNat
      let a := (old ++ junk ++ List.replicate n 0).take n
      let padded := (n + 3) / 4 * 4
      (l.take n ++ a.drop l.length, if l.length < padded then none else some (l.drop padded))

/-- What a successful read leaves in the variable is the string. -/
theorem readInto_of_readBytes {old junk l a rest : Bytes} (h : readBytes l = some (a, rest)) :
    readInto old junk l = (a, some rest) := by
  rw [readBytes, Option.bind_eq_some_iff] at h
  obtain ⟨⟨len, l'⟩, hl, h⟩ := h
  simp only at h
  split at h
  · cases h
  rename_i hlen
  split at h
  · cases h
  rename_i hpad
  cases h
  have hn : len.toNat ≤ l'.length := by omega
  simp only [readInto, hl, if_neg hlen, if_neg hpad]
  rw [List.drop_eq_nil_of_le, List.append_nil]
  rw [List.length_take]
  omega

def readBool (l : Bytes) : Option (Bool × Bytes) :=
  (readWord l).map fun (w, l) => (w ≠ 0#32, l)

/-- Read `n` bytes as they are. -/
def readRaw (n : ℕ) (l : Bytes) : Option (Bytes × Bytes) :=
  if l.length < n then none else some (l.take n, l.drop n)

def writeWord (w : BitVec 32) : Bytes :=
  [.ofBitVec (w.extractLsb' 24 8), .ofBitVec (w.extractLsb' 16 8), .ofBitVec (w.extractLsb' 8 8),
    .ofBitVec (w.extractLsb' 0 8)]

def writeBool (b : Bool) : Bytes := writeWord (if b then 1#32 else 0#32)

def writeBytes (a : Bytes) : Bytes :=
  writeWord (.ofNat 32 a.length) ++ a ++ List.replicate ((a.length + 3) / 4 * 4 - a.length) 0

end Xdr

/-- The encoding of the attributes. -/
def RegInfo.encode (info : RegInfo) : Bytes :=
  Xdr.writeWord (.ofNat 32 info.entries.length) ++
    info.entries.flatMap fun ⟨tag, value⟩ => Xdr.writeWord tag ++ Xdr.writeBytes value

end Sst.Reg

namespace Sst.RegCli

open Reg

/-! ## Endpoints -/

/-- `QHostAddress`. -/
inductive HostAddress
  | null
  | ip4 (addr : BitVec 32)
  | ip6 (addr : Bytes)
  deriving DecidableEq

structure Endpoint where
  addr : HostAddress
  port : BitVec 16
  deriving DecidableEq

/-- `Endpoint()`. -/
def Endpoint.null : Endpoint := ⟨.null, 0⟩

/-- `Endpoint::decode`. -/
def Endpoint.decode (l : Bytes) : Option (Endpoint × Bytes) := do
  let (type, l) ← Xdr.readInt l
  let (addr, l) ←
    if type = 1 then (Xdr.readWord l).map fun (a, l) => (HostAddress.ip4 a, l)
    else if type = 2 then (Xdr.readRaw 16 l).map fun (a, l) => (HostAddress.ip6 a, l)
    else none
  let (port, l) ← Xdr.readWord l
  some (⟨addr, port.setWidth 16⟩, l)

/-! ## Timers -/

/-- `Timer`, with times in microseconds; `ticking` says that its engine runs. -/
structure Timer where
  iv : ℤ
  fail : ℤ
  act : Bool
  ticking : Bool
  deriving DecidableEq

namespace Timer

def retryMin : ℤ := 500 * 1000

def failMax : ℤ := 20 * 1000 * 1000

def backoff (period maxperiod : ℤ) : ℤ := min (period * 3 / 2) maxperiod

def new : Timer := ⟨retryMin, failMax, false, false⟩

def start (initperiod : ℤ) : Timer := ⟨initperiod, failMax, true, true⟩

def stop (t : Timer) : Timer := { t with act := false, ticking := false }

def restart (t : Timer) : Timer :=
  { t with act := true, iv := backoff t.iv failMax, ticking := true }

/-- The timer's engine expires: the rest of `TimerEngine::timeout` is the signal, with
`fail ≤ 0` as its argument. -/
def expire (t : Timer) : Timer := { t with fail := t.fail - t.iv, ticking := false }

end Timer

/-! ## Clients -/

/-- What the library and the identity of the host supply: UTF-8, the address that a text denotes
(`null` if it is a name), the hash, and the identifier, the public key and the signatures of the
host. -/
structure Library where
  fromUtf8 : Bytes → Text
  toUtf8 : Text → Bytes
  hostAddress : Text → HostAddress
  sha256 : Bytes → Bytes
  length_sha256 : ∀ b, (sha256 b).length = 32
  id : Bytes
  key : Bytes
  sign : Bytes → Bytes

/-- `RegClient::State`. -/
inductive State
  | idle
  | resolve
  | insert1
  | insert2
  | registered
  deriving DecidableEq

structure RegClient where
  state : State
  srvname : Text
  srvport : BitVec 16
  lookupid : ℕ
  addrs : List HostAddress
  inf : RegInfo
  idi : Bytes
  ni : Bytes
  nhi : Bytes
  chal : Bytes
  key : Bytes
  sig : Bytes
  lookups : List Bytes
  punches : List Bytes
  searches : List Text
  retrytimer : Timer
  persist : Bool
  reregtimer : Timer
  err : Text

/-- The constructor; it leaves `persist` uninitialised. -/
def RegClient.new (lib : Library) (persist : Bool) : RegClient where
  state := .idle
  srvname := []
  srvport := 0
  lookupid := 0
  addrs := []
  inf := ∅
  idi := lib.id
  ni := []
  nhi := []
  chal := []
  key := []
  sig := []
  lookups := []
  punches := []
  searches := []
  retrytimer := .new
  persist := persist
  reregtimer := .new
  err := []

/-- `maxRereg`. -/
def maxRereg : ℤ := 60 * 60 * 1000000

/-- A pointer to a client. -/
abbrev Ptr := ℕ

/-- What a client does: a message to each of the endpoints, or a signal. -/
inductive Event
  | sent (c : Ptr) (dst : List Endpoint) (msg : Bytes)
  | stateChanged (c : Ptr)
  | lookupDone (c : Ptr) (id : Bytes) (loc : Endpoint) (info : RegInfo)
  | lookupNotify (c : Ptr) (id : Bytes) (loc : Endpoint) (info : RegInfo)
  | searchDone (c : Ptr) (text : Text) (ids : List Bytes) (complete : Bool)
  | regClientCreate (c : Ptr)
  | regClientDestroy (c : Ptr)
  deriving DecidableEq

/-- Where a function goes on when the receivers of its signal have returned: in one of the loops
of `disconnect` with the entries that are left, in `timeout` after `fail`, or in the destructor
after `disconnect` and after `regClientDestroy`. -/
inductive Frame
  | lookups (c : Ptr) (rest : List Bytes)
  | punches (c : Ptr) (rest : List Bytes)
  | searches (c : Ptr) (rest : List Text)
  | failed (c : Ptr)
  | disconnected (c : Ptr)
  | destroyed (c : Ptr)
  deriving DecidableEq

def Frame.client : Frame → Ptr
  | lookups c _ => c
  | punches c _ => c
  | searches c _ => c
  | failed c => c
  | disconnected c => c
  | destroyed c => c

/-- The destructor goes on. -/
def Frame.destructs : Frame → Bool
  | disconnected _ => true
  | destroyed _ => true
  | _ => false

/-- The clients of a host with `RegReceiver` and `RegHostState`. `lookupHosts` are the name
resolutions under way, `frames` the functions on the stack, the innermost first, and `log` the
events, the newest first; `fault` is set when a client that was destroyed is used. -/
structure RegHost where
  client : Ptr → RegClient
  alive : Ptr → Bool
  nhihash : AList fun _ : Bytes => Ptr
  cliset : Finset Ptr
  lookupHosts : List (ℕ × Ptr)
  nextLookup : ℕ
  frames : List Frame
  log : List Event
  fault : Bool

/-- A host without clients. -/
def RegHost.new (lib : Library) : RegHost where
  client _ := .new lib false
  alive _ := false
  nhihash := ∅
  cliset := ∅
  lookupHosts := []
  nextLookup := 0
  frames := []
  log := []
  fault := false

end Sst.RegCli
