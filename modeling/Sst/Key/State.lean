import Sst.Lib.Symbolic
import Mathlib.Logic.Function.Basic

/-!
# The key negotiation: its data

* `Chunk`: the key chunks and the identity blocks sealed in them.
* `Flow`: the parameters with which a flow is started.
* `Host`: the Diffie-Hellman keys of a host.
* `KeyInitiator`, `KeyResponder`: the two parties.
* `World`: one initiator, one responder and every message they sent.

Random numbers, keyed hashes of the clock and the answers of the application are choices of the
environment.
-/

namespace Sst.Key

open Symbolic

/-- An opaque field. -/
abbrev Bytes := List UInt8

/-- An IP address and a port. -/
abbrev Endpoint := ℕ

abbrev Channel := UInt8

/-- An endpoint identifier by its scheme: none, an address, or the hash of a public key. -/
inductive Ident
  | null
  | ip (ep : Endpoint)
  | key (k : ℕ)
  deriving DecidableEq

/-- `Ident::setKey`. -/
def Ident.setKey (id : Ident) (k : ℕ) : Bool := id = .key k

/-- A Diffie-Hellman public key. -/
structure PublicKey where
  group : ℕ
  exponent : ℕ
  deriving DecidableEq

abbrev Master := Sym2 PublicKey

/-- `calcDhCookie`: a hash keyed with the responder's secret. -/
structure Cookie where
  hkr : ℕ
  pubkey : PublicKey
  nr : Nonce
  nhi : Nonce
  src : Endpoint
  deriving DecidableEq

/-- `calcKey`: a key derived from the master secret. -/
structure DerivedKey where
  master : Master
  n₁ : Nonce
  n₂ : Nonce
  which : Char
  keylen : ℕ

/-- The derived instance would rewrite along an equality of unordered pairs. -/
instance : DecidableEq DerivedKey := fun a b =>
  decidable_of_iff
    (a.master = b.master ∧ a.n₁ = b.n₁ ∧ a.n₂ = b.n₂ ∧ a.which = b.which ∧ a.keylen = b.keylen)
    (by cases a; cases b; simp only [DerivedKey.mk.injEq])

def calcKey (master : Master) (nhi nr : Nonce) (which : Char) (keylen : ℕ) : DerivedKey :=
  ⟨master, nhi, nr, which, keylen⟩

/-- `calcSigHash`. -/
structure KeyParams where
  group : ℕ
  keylen : ℕ
  nhi : Nonce
  nr : Nonce
  dhi : PublicKey
  dhr : PublicKey
  eid : Ident
  deriving DecidableEq

structure KeyIdentI where
  chani : Channel
  eidi : Ident
  eidr : Ident
  idpki : ℕ
  sigi : Signature ℕ KeyParams
  ulpi : Bytes
  deriving DecidableEq

structure KeyIdentR where
  chanr : Channel
  eidr : Ident
  idpkr : ℕ
  sigr : Signature ℕ KeyParams
  ulpr : Bytes
  deriving DecidableEq

/-- `KeyChunkChkI1Data`; the chunk types below are named in the same way. -/
structure ChkI1 where
  cki : UInt32
  chani : Channel
  cookie : Bytes
  ulpi : Bytes
  deriving DecidableEq

structure ChkR1 where
  cki : UInt32
  ckr : UInt32
  chanr : Channel
  cookie : Bytes
  ulpr : Bytes
  deriving DecidableEq

structure DhI1 where
  group : ℕ
  keymin : ℕ
  nhi : Nonce
  dhi : PublicKey
  deriving DecidableEq

structure DhR1 where
  group : ℕ
  keylen : ℕ
  nhi : Nonce
  nr : Nonce
  dhr : PublicKey
  hhkr : Cookie
  deriving DecidableEq

structure DhI2 where
  group : ℕ
  keylen : ℕ
  ni : Nonce
  nr : Nonce
  dhi : PublicKey
  dhr : PublicKey
  hhkr : Cookie
  idi : Sealed DerivedKey KeyIdentI
  deriving DecidableEq

structure DhR2 where
  nhi : Nonce
  idr : Sealed DerivedKey KeyIdentR
  deriving DecidableEq

/-- `KeyChunk`. -/
inductive Chunk
  | chkI1 (d : ChkI1)
  | chkR1 (d : ChkR1)
  | dhI1 (d : DhI1)
  | dhR1 (d : DhR1)
  | dhI2 (d : DhI2)
  | dhR2 (d : DhR2)
  deriving DecidableEq

/-- `KeyMessage`: its chunks. -/
abbrev Message := List Chunk

/-- What tells a repeated ChkI1: the initiator's address, checksum key and channel. -/
structure ArmorId where
  eidi : Ident
  cki : UInt32
  chani : Channel
  deriving DecidableEq

/-- `ChecksumArmor` and `AESArmor`. -/
inductive Armor
  | checksum (txkey rxkey : UInt32) (armorid : Option ArmorId)
  | aes (txenckey txmackey rxenckey rxmackey : DerivedKey)
  deriving DecidableEq

/-- A channel id: two checksum keys, or a derived key. -/
inductive ChannelId
  | chk (localck remoteck : UInt32)
  | key (k : DerivedKey)
  deriving DecidableEq

/-- What key negotiation sets in a flow. -/
structure Flow where
  localchan : Channel
  remotechan : Channel
  armr : Option Armor
  txchanid : Option ChannelId
  rxchanid : Option ChannelId
  active : Bool
  deriving DecidableEq

/-- A flow bound to a channel. -/
def Flow.bound (chan : Channel) : Flow := ⟨chan, 0, none, none, none, false⟩

/-- Set the armor, the channel ids and the remote channel, and start the flow. -/
def Flow.start (fl : Flow) (armor : Armor) (tx rx : ChannelId) (remotechan : Channel) : Flow :=
  { fl with remotechan, armr := armor, txchanid := tx, rxchanid := rx, active := true }

structure DHKey where
  pubkey : PublicKey
  hkr : ℕ
  r2cache : List (Cookie × Message)
  deriving DecidableEq

def DHKey.calcKey (hk : DHKey) (otherPubKey : PublicKey) : Master := secret hk.pubkey otherPubKey

/-- The randomness of one step. -/
structure Rand where
  exponent : ℕ
  hkr : ℕ
  nonce : ℕ

/-- `hostIdent` is the host's own key. -/
structure Host where
  hostIdent : ℕ
  dhkeys : ℕ → Option DHKey

def keygroupMax : ℕ := 3

namespace Host

/-- `getDHKey`: the key of a group, generated when there is none. -/
def getDHKey (h : Host) (group : ℕ) (r : Rand) : Host × Option DHKey :=
  if keygroupMax ≤ group then (h, none)
  else
    match h.dhkeys group with
    | some hk => (h, some hk)
    | none =>
      if group = 0 then (h, none)
      else
        let hk : DHKey := ⟨⟨group, r.exponent⟩, r.hkr, []⟩
        ({ h with dhkeys := Function.update h.dhkeys group hk }, some hk)

/-- `DHKey::timeout`. -/
def timeout (h : Host) (group : ℕ) : Host :=
  { h with dhkeys := Function.update h.dhkeys group none }

end Host

inductive State
  | i1
  | i2
  | done
  deriving DecidableEq

/-- What the initiator keeps of an R1 response. -/
structure Round where
  nr : Nonce
  dhr : PublicKey
  hhkr : Cookie
  master : Master
  encidi : Sealed DerivedKey KeyIdentI
  deriving DecidableEq

/-- `KeyInitiator`; `registered` says that it is in the tables of its host. `accepted` records the
chunk with which it completed. -/
structure KeyInitiator where
  fl : Flow
  registered : Bool
  sepr : Endpoint
  idr : Ident
  ulpi : Bytes
  methChk : Bool
  methAes : Bool
  chkkey : UInt32
  cookie : Bytes
  dhgroup : ℕ
  keylen : ℕ
  state : State
  early : Bool
  ni : Nonce
  nhi : Nonce
  dhi : Option PublicKey
  round : Option Round
  accepted : Option Chunk
  deriving DecidableEq

/-- A flow that the responder created and the chunk with which it answered. -/
structure Created where
  flow : Flow
  answer : Chunk
  deriving DecidableEq

/-- `KeyResponder`; `created` records the flows created. -/
structure KeyResponder where
  chkflows : List ArmorId
  created : List Created
  deriving DecidableEq

/-- The initiator and the responder with their hosts, and the messages each has sent. -/
structure World where
  h : Host
  i : KeyInitiator
  sentI : List Message
  rh : Host
  r : KeyResponder
  sentR : List Message

namespace World

/-- Send a message from the initiator. -/
def postI (w : World) (m : Message) : World := { w with sentI := w.sentI ++ [m] }

/-- Send a message from the responder. -/
def postR (w : World) (m : Message) : World := { w with sentR := w.sentR ++ [m] }

end World

end Sst.Key
