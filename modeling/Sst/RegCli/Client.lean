import Sst.RegCli.State

/-!
# The registration client: its functions

The functions of `RegClient` and `RegReceiver::receive`, each on the state of the host.

* `disconnect`, `reregister`, `goInsert1`, `goInsert2`, `timeout`: the functions of a client.
* `receive`: a datagram for the clients.
* `Op`, `exec`, `regHost`: the calls and events, and the machine of all their runs.

A signal in the middle of a function leaves a `Frame`: what its receivers do are operations of
their own, and `Op.resume` lets the innermost function go on.
-/

namespace Sst.RegCli

open Reg Transition

/-! ## Message codes -/

def regMagic : BitVec 32 := 0x004e7273#32

def regRequest : BitVec 32 := 0x100#32

def regResponse : BitVec 32 := 0x200#32

def regNotify : BitVec 32 := 0x300#32

def regInsert1 : BitVec 32 := 0x00#32

def regInsert2 : BitVec 32 := 0x01#32

def regLookup : BitVec 32 := 0x02#32

def regSearch : BitVec 32 := 0x03#32

/-- The first words of a request. -/
def request (code : BitVec 32) : Bytes :=
  Xdr.writeWord regMagic ++ Xdr.writeWord (regRequest ||| code)

/-- What `goInsert2` hashes and signs. -/
def RegClient.signed (cli : RegClient) : Bytes :=
  Xdr.writeBytes cli.idi ++ Xdr.writeBytes cli.ni ++ Xdr.writeBytes cli.chal ++
    Xdr.writeBytes cli.inf.encode

namespace RegHost

variable (lib : Library) (h : RegHost) (c : Ptr)

/-! ## Access -/

/-- Change the fields of a client. -/
def modify (f : RegClient → RegClient) : RegHost :=
  { h with client := Function.update h.client c (f (h.client c)) }

def emit (e : Event) : RegHost := { h with log := e :: h.log }

def push (f : Frame) : RegHost := { h with frames := f :: h.frames }

section

variable {h c} {f : RegClient → RegClient} {d : Ptr}

@[simp] theorem modify_client_self : (h.modify c f).client c = f (h.client c) :=
  Function.update_self ..

theorem modify_client_of_ne (hd : d ≠ c) : (h.modify c f).client d = h.client d :=
  Function.update_of_ne hd ..

@[simp] theorem emit_client (e : Event) : (h.emit e).client = h.client := rfl

@[simp] theorem push_client (f : Frame) : (h.push f).client = h.client := rfl

end

/-! ## Sending -/

/-- `send`, over the active sockets to every address of the server. -/
def send (msg : Bytes) : RegHost :=
  h.emit (.sent c ((h.client c).addrs.map fun addr => ⟨addr, (h.client c).srvport⟩) msg)

def sendInsert1 : RegHost :=
  let cli := h.client c
  h.send c (request regInsert1 ++ Xdr.writeBytes cli.idi ++ Xdr.writeBytes cli.nhi)

def sendInsert2 : RegHost :=
  let cli := h.client c
  h.send c (request regInsert2 ++ cli.signed ++ Xdr.writeBytes cli.key ++ Xdr.writeBytes cli.sig)

def sendLookup (idtarget : Bytes) (notify : Bool) : RegHost :=
  let cli := h.client c
  h.send c (request regLookup ++ Xdr.writeBytes cli.idi ++ Xdr.writeBytes cli.nhi ++
    Xdr.writeBytes idtarget ++ Xdr.writeBool notify)

def sendSearch (text : Text) : RegHost :=
  let cli := h.client c
  h.send c (request regSearch ++ Xdr.writeBytes cli.idi ++ Xdr.writeBytes cli.nhi ++
    Xdr.writeBytes (lib.toUtf8 text))

/-! ## Disconnecting -/

/-- The end of `disconnect`. -/
def clear : RegHost :=
  (h.modify c fun cli => { cli with
    state := .idle
    addrs := []
    ni := []
    nhi := []
    chal := []
    key := []
    sig := []
    lookups := []
    punches := []
    searches := []
    retrytimer := cli.retrytimer.stop
    reregtimer := cli.reregtimer.stop }).emit (.stateChanged c)

/-- The third loop of `disconnect`, and what follows it. -/
def failSearches : List Text → RegHost
  | [] => h.clear c
  | text :: rest => (h.push (.searches c rest)).emit (.searchDone c text [] true)

/-- The second loop of `disconnect`, and what follows it. -/
def failPunches : List Bytes → RegHost
  | [] => h.failSearches c (h.client c).searches
  | id :: rest => (h.push (.punches c rest)).emit (.lookupDone c id .null ∅)

/-- The first loop of `disconnect`, and what follows it. -/
def failLookups : List Bytes → RegHost
  | [] => h.failPunches c (h.client c).punches
  | id :: rest => (h.push (.lookups c rest)).emit (.lookupDone c id .null ∅)

def disconnect : RegHost :=
  if (h.client c).state = .idle then h else h.failLookups c (h.client c).lookups

def fail (err : Text) : RegHost := (h.modify c fun cli => { cli with err }).disconnect c

/-! ## Registering -/

/-- Register the client to receive replies keyed on the nonce `ni`. -/
def insertNonce (ni : Bytes) : RegHost :=
  { h.modify c fun cli => { cli with ni, nhi := lib.sha256 ni } with
    nhihash := h.nhihash.insert (lib.sha256 ni) c }

theorem insertNonce_client (ni : Bytes) : (h.insertNonce lib c ni).client =
    (h.modify c fun cli => { cli with ni, nhi := lib.sha256 ni }).client := rfl

theorem insertNonce_nhihash (ni : Bytes) :
    (h.insertNonce lib c ni).nhihash = h.nhihash.insert (lib.sha256 ni) c := rfl

/-- `goInsert1`; `ni` is what `randBytes` returns. -/
def goInsert1 (ni : Bytes) : RegHost :=
  let h := if (h.client c).ni = [] then h.insertNonce lib c ni else h
  let h := h.modify c fun cli => { cli with state := .insert1 }
  let h := h.sendInsert1 c
  h.modify c fun cli => { cli with retrytimer := .start Timer.retryMin }

def goInsert2 : RegHost :=
  let h := h.modify c fun cli => { cli with key := lib.key }
  let h := h.modify c fun cli => { cli with sig := lib.sign (lib.sha256 cli.signed) }
  let h := h.modify c fun cli => { cli with state := .insert2 }
  let h := h.sendInsert2 c
  h.modify c fun cli => { cli with retrytimer := .start Timer.retryMin }

/-- Clear the nonce that `reregister` finds. -/
def removeNonce : RegHost :=
  { h.modify c fun cli => { cli with ni := [], nhi := [] } with
    nhihash := h.nhihash.erase (h.client c).nhi }

theorem removeNonce_client : (h.removeNonce c).client =
    (h.modify c fun cli => { cli with ni := [], nhi := [] }).client := rfl

theorem removeNonce_nhihash :
    (h.removeNonce c).nhihash = h.nhihash.erase (h.client c).nhi := rfl

/-- `QHostInfo::lookupHost` for the server's name. -/
def lookupHost : RegHost :=
  { h.modify c fun cli => { cli with lookupid := h.nextLookup, state := .resolve } with
    lookupHosts := (h.nextLookup, c) :: h.lookupHosts
    nextLookup := h.nextLookup + 1 }

def reregister (ni : Bytes) : RegHost :=
  let h := if (h.client c).ni ≠ [] then h.removeNonce c else h
  let addr := lib.hostAddress (h.client c).srvname
  if addr = .null then h.lookupHost c
  else (h.modify c fun cli => { cli with addrs := [addr] }).goInsert1 lib c ni

def registerAt (srvname : Text) (srvport : BitVec 16) (ni : Bytes) : RegHost :=
  (h.modify c fun cli => { cli with srvname, srvport }).reregister lib c ni

/-- `resolveDone` with the addresses and the error of the `QHostInfo`. -/
def resolveDone (addrs : List HostAddress) (err : Text) (ni : Bytes) : RegHost :=
  let h := h.modify c fun cli => { cli with addrs }
  if addrs = [] then h.fail c err else h.goInsert1 lib c ni

/-! ## Replies -/

/-- `gotInsert1Reply`; `junk` is what the memory holds that the challenge is read into. -/
def gotInsert1Reply (rs junk : Bytes) : RegHost :=
  let (chal, rest) := Xdr.readInto (h.client c).chal junk rs
  let h := h.modify c fun cli => { cli with chal }
  match rest with
  | none => h
  | some _ => h.goInsert2 lib c

def decodeInsert2 (rs : Bytes) : Option (ℤ × Endpoint) := do
  let (lifeSecs, rs) ← Xdr.readInt rs
  let (pubEp, _) ← Endpoint.decode rs
  some (lifeSecs, pubEp)

def gotInsert2Reply (rs : Bytes) : RegHost :=
  match decodeInsert2 rs with
  | none => h
  | some (lifeSecs, _) =>
    (h.modify c fun cli => { cli with
      state := .registered
      reregtimer := .start (min (lifeSecs * 1000000 / 2) maxRereg) }).emit (.stateChanged c)

def lookup (idtarget : Bytes) (notify : Bool) : RegHost :=
  let h := h.modify c fun cli =>
    if notify then { cli with punches := cli.punches.insert idtarget }
    else { cli with lookups := cli.lookups.insert idtarget }
  let h := h.sendLookup c idtarget notify
  h.modify c fun cli => { cli with retrytimer := .start Timer.retryMin }

/-- The identifier, its location and its metadata, which are empty if the lookup failed. -/
def decodeLookup (rs : Bytes) : Option (Bytes × Endpoint × RegInfo) := do
  let (targetid, rs) ← Xdr.readBytes rs
  let (success, rs) ← Xdr.readBool rs
  if success then
    let (targetloc, rs) ← Endpoint.decode rs
    let (targetinfo, _) ← Xdr.readBytes rs
    some (targetid, targetloc, .decode targetinfo)
  else some (targetid, .null, .decode [])

def gotLookupReply (rs : Bytes) (isnotify : Bool) : RegHost :=
  match decodeLookup rs with
  | none => h
  | some (targetid, targetloc, reginfo) =>
    if isnotify then h.emit (.lookupNotify c targetid targetloc reginfo)
    else if ¬ (targetid ∈ (h.client c).lookups ∨ targetid ∈ (h.client c).punches) then h
    else
      (h.modify c fun cli => { cli with
        lookups := cli.lookups.erase targetid
        punches := cli.punches.erase targetid }).emit
          (.lookupDone c targetid targetloc reginfo)

def search (text : Text) : RegHost :=
  let h := h.modify c fun cli => { cli with searches := cli.searches.insert text }
  let h := h.sendSearch lib c text
  h.modify c fun cli => { cli with retrytimer := .start Timer.retryMin }

/-- The identifiers of a search reply. -/
def readIds : ℕ → Bytes → Option (List Bytes)
  | 0, _ => some []
  | n + 1, rs => do
    let (id, rs) ← Xdr.readBytes rs
    let ids ← readIds n rs
    some (id :: ids)

/-- The first part of a search reply. -/
def decodeSearch (rs : Bytes) : Option (Text × Bool × ℤ × Bytes) := do
  let (text, rs) ← Xdr.readBytes rs
  let (complete, rs) ← Xdr.readBool rs
  let (nresults, rs) ← Xdr.readInt rs
  some (lib.fromUtf8 text, complete, nresults, rs)

def gotSearchReply (rs : Bytes) : RegHost :=
  match decodeSearch lib rs with
  | none => h
  | some (text, complete, nresults, rs) =>
    if nresults < 0 then h
    else if text ∉ (h.client c).searches then h
    else
      match readIds nresults.toNat rs with
      | none => h
      | some ids =>
        (h.modify c fun cli => { cli with searches := cli.searches.erase text }).emit
          (.searchDone c text ids complete)

/-! ## Timeouts -/

/-- The requests of a registered client, sent again. -/
def resend : RegHost :=
  let cli := h.client c
  let h := cli.lookups.foldl (fun h id => h.sendLookup c id false) h
  let h := cli.punches.foldl (fun h id => h.sendLookup c id true) h
  cli.searches.foldl (fun h text => h.sendSearch lib c text) h

def timeout (failed : Bool) : RegHost :=
  let cli := h.client c
  let restart (h : RegHost) : RegHost :=
    h.modify c fun cli => { cli with retrytimer := cli.retrytimer.restart }
  match cli.state with
  | .idle => h
  | .resolve => h
  | .insert1 =>
    if failed && !cli.persist then h.fail c "Timeout connecting to registration server".toList
    else restart (h.sendInsert1 c)
  | .insert2 =>
    if failed && !cli.persist then h.fail c "Timeout connecting to registration server".toList
    else restart (h.sendInsert2 c)
  | .registered =>
    if cli.lookups = [] ∧ cli.punches = [] ∧ cli.searches = [] then
      h.modify c fun cli => { cli with retrytimer := cli.retrytimer.stop }
    else if failed then
      (h.push (.failed c)).fail c "Registration server no longer responding".toList
    else restart (h.resend lib c)

/-- The retry timer's engine expires. -/
def retryExpired : RegHost :=
  let h := h.modify c fun cli => { cli with retrytimer := cli.retrytimer.expire }
  h.timeout lib c ((h.client c).retrytimer.fail ≤ 0)

/-- The re-registration timer's engine expires: `reregTimeout`. -/
def reregExpired (ni : Bytes) : RegHost :=
  (h.modify c fun cli => { cli with reregtimer := cli.reregtimer.expire }).reregister lib c ni

/-! ## Creation and destruction -/

/-- The constructor, for an object at `c`. -/
def create (persist : Bool) : RegHost :=
  { h with
    client := Function.update h.client c (.new lib persist)
    alive := Function.update h.alive c true
    cliset := insert c h.cliset
    log := .regClientCreate c :: h.log }

/-- The destructor after `disconnect`. -/
def destroyNotify : RegHost := (h.push (.destroyed c)).emit (.regClientDestroy c)

/-- The destructor. -/
def destroy : RegHost :=
  if (h.client c).state = .idle then h.destroyNotify c
  else (h.push (.disconnected c)).disconnect c

/-- The end of the destructor. The resolutions that report to the client are dropped. -/
def erase : RegHost :=
  { h with
    alive := Function.update h.alive c false
    cliset := h.cliset.erase c
    nhihash := h.nhihash.erase (h.client c).nhi
    lookupHosts := h.lookupHosts.filter fun p => p.2 ≠ c }

/-- The innermost function goes on. -/
def resume (ni : Bytes) (f : Frame) : RegHost :=
  match f with
  | .lookups c rest => h.failLookups c rest
  | .punches c rest => h.failPunches c rest
  | .searches c rest => h.failSearches c rest
  | .failed c => if (h.client c).persist then h.reregister lib c ni else h
  | .disconnected c => h.destroyNotify c
  | .destroyed c => h.erase c

/-! ## The receiver -/

/-- Give a reply to the function for its code. -/
def dispatch (code : BitVec 32) (rs junk : Bytes) : RegHost :=
  if code = regResponse ||| regInsert1 then h.gotInsert1Reply lib c rs junk
  else if code = regResponse ||| regInsert2 then h.gotInsert2Reply c rs
  else if code = regResponse ||| regLookup then h.gotLookupReply c rs false
  else if code = regResponse ||| regSearch then h.gotSearchReply lib c rs
  else if code = regNotify ||| regLookup then h.gotLookupReply c rs true
  else h

end RegHost

/-- The first part of a reply. -/
structure Reply where
  code : BitVec 32
  nhi : Bytes
  rs : Bytes
  deriving DecidableEq

def Reply.decode (msg : Bytes) : Option Reply := do
  let (code, rs) ← Xdr.readWord msg
  let (nhi, rs) ← Xdr.readBytes rs
  some ⟨code, nhi, rs⟩

namespace RegHost

variable (lib : Library) (h : RegHost)

/-- `RegReceiver::receive` of what follows the magic word. -/
def receive (msg : Bytes) (src : Endpoint) (junk : Bytes) : RegHost :=
  match Reply.decode msg with
  | none => h
  | some r =>
    match h.nhihash.lookup r.nhi with
    | none => h
    | some c =>
      if h.alive c = false then { h with fault := true }
      else if src.addr ∉ (h.client c).addrs ∨ src.port ≠ (h.client c).srvport then h
      else h.dispatch lib c r.code r.rs junk

end RegHost

/-! ## Runs -/

/-- A call to a client or an event of the host; `ni` is what `randBytes` returns if the nonce is
replaced. -/
inductive Op
  | create (c : Ptr) (persist : Bool)
  | destroy (c : Ptr)
  | setInfo (c : Ptr) (info : RegInfo)
  | setPersistent (c : Ptr) (persist : Bool)
  | setErrorString (c : Ptr) (err : Text)
  | registerAt (c : Ptr) (srvname : Text) (srvport : BitVec 16) (ni : Bytes)
  | reregister (c : Ptr) (ni : Bytes)
  | lookup (c : Ptr) (idtarget : Bytes) (notify : Bool)
  | search (c : Ptr) (text : Text)
  | disconnect (c : Ptr)
  | resolved (id : ℕ) (c : Ptr) (addrs : List HostAddress) (err : Text) (ni : Bytes)
  | retryExpired (c : Ptr)
  | reregExpired (c : Ptr) (ni : Bytes)
  | receive (msg : Bytes) (src : Endpoint) (junk : Bytes)
  | resume (ni : Bytes)
  deriving DecidableEq

/-- The client that an operation is called on, if it is called on one. -/
def Op.client : Op → Option Ptr
  | create _ _ => none
  | destroy c => some c
  | setInfo c _ => some c
  | setPersistent c _ => some c
  | setErrorString c _ => some c
  | registerAt c _ _ _ => some c
  | reregister c _ => some c
  | lookup c _ _ => some c
  | search c _ => some c
  | disconnect c => some c
  | resolved _ c _ _ _ => some c
  | retryExpired c => some c
  | reregExpired c _ => some c
  | receive _ _ _ => none
  | resume _ => none

/-- What `randBytes` returns for an operation. -/
def Op.nonce : Op → Option Bytes
  | registerAt _ _ _ ni => some ni
  | reregister _ ni => some ni
  | resolved _ _ _ _ ni => some ni
  | reregExpired _ ni => some ni
  | resume ni => some ni
  | _ => none

/-- When an operation can happen: clients exist while they are used and are destroyed only when no
function of theirs runs, the assertions of the functions hold, timers run and resolutions are
under way. -/
def RegHost.enabled (h : RegHost) (op : Op) : Bool :=
  op.client.all h.alive && op.nonce.all (·.length = 32) &&
  match op with
  | .create c _ => !h.alive c
  | .destroy c => h.frames.all (·.client ≠ c)
  | .registerAt c srvname srvport _ =>
    (h.client c).state = .idle && srvname ≠ [] && srvport ≠ 0
  | .reregister c _ => (h.client c).srvname ≠ [] && (h.client c).srvport ≠ 0
  | .lookup c _ _ => (h.client c).state = .registered
  | .search c _ => (h.client c).state = .registered
  | .resolved id c _ _ _ => (id, c) ∈ h.lookupHosts
  | .retryExpired c => (h.client c).retrytimer.ticking
  | .reregExpired c _ => (h.client c).reregtimer.ticking
  | .resume _ => h.frames ≠ []
  | _ => true

/-- What an operation does. -/
def RegHost.exec (lib : Library) (h : RegHost) : Op → RegHost
  | .create c persist => h.create lib c persist
  | .destroy c => h.destroy c
  | .setInfo c info => h.modify c fun cli => { cli with inf := info }
  | .setPersistent c persist => h.modify c fun cli => { cli with persist }
  | .setErrorString c err => h.modify c fun cli => { cli with err }
  | .registerAt c srvname srvport ni => h.registerAt lib c srvname srvport ni
  | .reregister c ni => h.reregister lib c ni
  | .lookup c idtarget notify => h.lookup c idtarget notify
  | .search c text => h.search lib c text
  | .disconnect c => h.disconnect c
  | .resolved id c addrs err ni =>
    { h with lookupHosts := h.lookupHosts.erase (id, c) }.resolveDone lib c addrs err ni
  | .retryExpired c => h.retryExpired lib c
  | .reregExpired c ni => h.reregExpired lib c ni
  | .receive msg src junk => h.receive lib msg src junk
  | .resume ni =>
    match h.frames with
    | [] => h
    | f :: rest => { h with frames := rest }.resume lib ni f

/-- **The machine of all runs.** -/
def regHost (lib : Library) : Machine RegHost Op where
  init := .new lib
  step h op := if h.enabled op then some (h.exec lib op) else none

section

variable {lib : Library} {h h' : RegHost} {op : Op} {c : Ptr} {ni : Bytes}

theorem step_spec (hs : (regHost lib).step h op = some h') :
    h.enabled op = true ∧ h' = h.exec lib op := by
  simp only [regHost] at hs
  split at hs
  · rename_i he
    cases hs
    exact ⟨he, rfl⟩
  · cases hs

theorem RegHost.alive_of_enabled (he : h.enabled op = true) (hc : op.client = some c) :
    h.alive c = true := by
  unfold enabled at he
  rw [hc, Bool.and_eq_true, Bool.and_eq_true] at he
  exact he.1.1

theorem RegHost.nonce_of_enabled (he : h.enabled op = true) (hn : op.nonce = some ni) :
    ni ≠ [] := by
  unfold enabled at he
  rw [hn, Bool.and_eq_true, Bool.and_eq_true] at he
  rintro rfl
  cases he.1.2

end

end Sst.RegCli
