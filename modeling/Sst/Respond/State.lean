import Mathlib.Logic.Function.Basic
import Sst.Respond.Crypto
import Sst.Sock.State

/-!
# A host that is asked for keys: its data

* `SocketEndpoint`, `Flow`, `Armor`: where a message comes from, and what key negotiation sets up.
* `DHKey`: a Diffie-Hellman key with the responses that were made with it.
* `KeyInitiator`: the initiators of the host, to which responses are handed.
* `World`: the host with its responder.
* `Answer`: what the environment decides while a message is processed.
-/

namespace Sst.Respond

open Reg (Bytes)
open Reg.Xdr (writeWord writeBytes)
open Sock (SocketId Channel)

variable {cr : Crypto}

/-! ## Endpoints and flows -/

/-- The address from which a datagram comes. -/
inductive Address
  | ip4 (addr : BitVec 32)
  | ip6 (addr : BitVec 128)
  deriving DecidableEq

structure Endpoint where
  addr : Address
  port : BitVec 16
  deriving DecidableEq

structure SocketEndpoint extends Endpoint where
  sock : SocketId
  deriving DecidableEq

/-- `Ident::fromIpAddress`: `IP` is scheme 2, and the version is in the low bits. -/
def Endpoint.ident (ep : Endpoint) : Bytes :=
  (match ep.addr with
    | .ip4 a => 8 :: Armor.bytesOf 4 a
    | .ip6 a => 9 :: Armor.bytesOf 16 a) ++
  if ep.port = 0 then [] else Armor.bytesOf 2 ep.port

/-- `QHostAddress::toIPv4Address`. -/
def Address.toIPv4Address : Address → BitVec 32
  | ip4 a => a
  | ip6 _ => 0

/-- `ChecksumArmor` and `AESArmor`. -/
inductive Armor
  | checksum (txkey rxkey : BitVec 32) (armorid : Bytes)
  | aes (txenckey txmackey rxenckey rxmackey : Bytes)
  deriving DecidableEq

/-- The constructor of `AESArmor`, with the assertions of its ciphers and keyed hashes. -/
def Armor.newAes (txenckey txmackey rxenckey rxmackey : Bytes) : Option Armor :=
  if AesKeySize txenckey.length ∧ AesKeySize rxenckey.length ∧ txmackey.length = 32 ∧
      rxmackey.length = 32 then
    some (.aes txenckey txmackey rxenckey rxmackey)
  else none

/-- What key negotiation sets in a flow that is bound to a channel. -/
structure Flow where
  localchan : Channel
  remotechan : Channel
  armr : Option Armor
  txchanid : Bytes
  rxchanid : Bytes
  active : Bool
  deriving DecidableEq

namespace Flow

/-- A flow bound to a channel. -/
def bound (chan : Channel) : Flow := ⟨chan, 0, none, [], [], false⟩

/-- `Flow::start`. -/
def start (fl : Flow) : Option Flow :=
  if fl.armr = none ∨ fl.remotechan = 0 then none else some { fl with active := true }

end Flow

/-- `calcChkChanId`. -/
def calcChkChanId (localck remoteck : BitVec 32) : Option Bytes :=
  if localck = remoteck then none else some (writeWord localck ++ writeWord remoteck)

/-! ## The host -/

structure DHKey (cr : Crypto) where
  dh : cr.Dh
  pubkey : Bytes
  hkr : Bytes
  r2cache : List (Bytes × Bytes)
  pubkey_le : pubkey.length ≤ 384

/-- `DHKey::calcKey`; when there is no shared secret, the array is empty. -/
def DHKey.calcKey (hk : DHKey cr) (otherPubKey : Bytes) : Option Bytes :=
  match cr.computeKey hk.dh (ba2bn otherPubKey) with
  | none => some []
  | some secret => if cr.dhSize hk.dh < secret.length then none else some secret

theorem DHKey.exists_calcKey (hk : DHKey cr) (otherPubKey : Bytes) :
    ∃ master, hk.calcKey otherPubKey = some master := by
  unfold calcKey
  split
  · exact ⟨[], rfl⟩
  · rename_i secret hsecret
    exact ⟨secret, if_neg (Nat.not_lt.mpr (cr.computeKey_le _ _ _ hsecret))⟩

inductive State
  | i1
  | i2
  | done
  deriving DecidableEq

/-- What an initiator keeps of an R1 response. -/
structure Round where
  nr : Bytes
  dhr : Bytes
  hhkr : Bytes
  master : Bytes
  nr_length : nr.length = 32
  dhr_le : dhr.length ≤ 384

/-- The groups for which a host makes keys. -/
def KeyGroup (dhgroup : BitVec 8) : Prop := dhgroup = 1 ∨ dhgroup = 2

instance : DecidablePred KeyGroup := fun g => inferInstanceAs (Decidable (g = 1 ∨ g = 2))

/-- `KeyInitiator`; `registered` says that it is in the tables of its host. The constructor has
sent an I1 message, so that there is a method, and a key of its group. -/
structure KeyInitiator where
  fl : Flow
  magic : BitVec 32
  registered : Bool
  sepr : SocketEndpoint
  idr : Bytes
  ulpi : Bytes
  methChk : Bool
  methAes : Bool
  chkkey : BitVec 32
  cookie : Bytes
  dhgroup : BitVec 8
  keylen : BitVec 8
  state : State
  ni : Bytes
  nhi : Bytes
  dhi : Bytes
  round : Option Round
  method : methChk = true ∨ methAes = true
  group : methAes = true → KeyGroup dhgroup
  ni_length : ni.length = 32
  nhi_length : nhi.length = 32
  dhi_le : dhi.length ≤ 384

/-- A host with its responder: the host's identity, the Diffie-Hellman keys by their groups, the
channels that are taken on each socket for each endpoint, the initiators, the flows that the
responder created, and `chkflows`. `sent` is what was sent. -/
structure World (cr : Crypto) where
  magic : BitVec 32
  hostIdent : HostIdent
  dhkeys : BitVec 8 → Option (DHKey cr)
  taken : SocketEndpoint → Channel → Bool
  initors : List KeyInitiator
  flows : List (SocketEndpoint × Flow)
  chkflows : List Bytes
  sent : List (SocketEndpoint × Bytes)

/-- What is decided elsewhere while a message is processed: `checkInitiator`, whether `newFlow`
refuses or what it has for the initiator, `calcChkKey`, the Diffie-Hellman keys that are generated,
and random bytes. -/
structure Answer (cr : Crypto) where
  accept : Bool
  ulpr : Option Bytes
  ck : BitVec 32
  gen : BitVec 8 → DHKey cr
  nonce : Bytes
  ivec : Bytes
  gen_r2cache : ∀ g, (gen g).r2cache = []
  nonce_length : nonce.length = 32

namespace World

variable (w : World cr)

/-- `getDHKey`: the key of a group, generated when there is none. -/
def getDHKey (a : Answer cr) (dhgroup : BitVec 8) : World cr × Option (DHKey cr) :=
  if 3#8 ≤ dhgroup then (w, none)
  else
    match w.dhkeys dhgroup with
    | some hk => (w, some hk)
    | none =>
      if KeyGroup dhgroup then
        ({ w with dhkeys := Function.update w.dhkeys dhgroup (some (a.gen dhgroup)) },
          some (a.gen dhgroup))
      else (w, none)

/-- Send bytes. -/
def post (dst : SocketEndpoint) (pkt : Bytes) : World cr :=
  { w with sent := w.sent ++ [(dst, pkt)] }

/-- `send`: a key message, which is also returned. -/
def send (magic : BitVec 32) (chunks : List Chunk) (dst : SocketEndpoint) :
    Option (World cr × Bytes) :=
  (packet magic chunks).map fun pkt => (w.post dst pkt, pkt)

/-- Replace an initiator. -/
def setInitor (k : ℕ) (i : KeyInitiator) : World cr := { w with initors := w.initors.set k i }

/-- The first initiator in a table of the host. -/
def find (p : KeyInitiator → Bool) : Option (KeyInitiator × ℕ) :=
  w.initors.zipIdx.find? fun x => x.1.registered && p x.1

end World

/-- `calcDhCookie`. -/
def calcDhCookie (hk : DHKey cr) (nr nhi : Bytes) (src : Endpoint) : Bytes :=
  let buf := writeBytes hk.pubkey ++ writeBytes nr ++ writeBytes nhi ++
    writeWord src.addr.toIPv4Address ++ writeWord (src.port.signExtend 32)
  ((Armor.HMAC.new cr.toLibrary hk.hkr).update buf).final Armor.hmacLen

end Sst.Respond
