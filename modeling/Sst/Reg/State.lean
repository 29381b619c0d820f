import Sst.Lib.Inverted
import Sst.Lib.Symbolic
import Sst.Reg.Info

/-!
# The registration server: its data

* `Ident`, `Cookie`, `SigData`: identifiers, challenges and signed data.
* `Request`, `Response`: the messages.
* `RegRecord`, `Database`: the registrations and the tables that find them.
* `RegServer`: the server with everything it received and sent.

Hashes, keyed hashes and signatures are the terms of an ideal cryptography.
-/

namespace Sst.Reg

open Symbolic

abbrev Endpoint := ℕ

/-- A public key. -/
abbrev PubKey := ℕ

/-- `RSA160`: the only scheme of identifiers that the server accepts. -/
def rsa160 : ℕ := 11

/-- An identifier: empty, the fingerprint of a key under a scheme, or any other string. -/
inductive Ident
  | null
  | key (scheme : ℕ) (k : PubKey)
  | other (scheme : ℕ) (data : Bytes)
  deriving DecidableEq

namespace Ident

def scheme : Ident → ℕ
  | null => 0
  | key s _ => s
  | other s _ => s

/-- `Ident::setKey`: the key must have the identifier as its fingerprint. -/
def setKey (id : Ident) (k : PubKey) : Bool := id = .key id.scheme k

end Ident

/-- A challenge cookie: a hash keyed with the server's secret. -/
structure Cookie where
  secret : ℕ
  srcep : Endpoint
  idi : Ident
  nhi : Nonce
  deriving DecidableEq

/-- A challenge in a message: a cookie, or any other string. -/
inductive Chal
  | cookie (c : Cookie)
  | other (data : Bytes)
  deriving DecidableEq

/-- What a client signs. -/
structure SigData where
  idi : Ident
  ni : Nonce
  chal : Chal
  info : Bytes
  deriving DecidableEq

/-- A decoded request; `invalid` is any other datagram. -/
inductive Request
  | insert1 (idi : Ident) (nhi : Nonce)
  | insert2 (idi : Ident) (ni : Nonce) (chal : Chal) (info : Bytes) (key : PubKey)
      (sig : Signature PubKey SigData)
  | lookup (idi : Ident) (nhi : Nonce) (idr : Ident) (notify : Bool)
  | search (idi : Ident) (nhi : Nonce) (search : Text)
  | invalid
  deriving DecidableEq

/-- A message of the server. A `lookup` is a response or, with `notify`, a notification. -/
inductive Response
  | insert1 (nhi : Nonce) (chal : Cookie)
  | insert2 (nhi : Nonce) (lifetime : ℕ) (ep : Endpoint)
  | lookup (notify : Bool) (nhi : Nonce) (idr : Ident) (recr : Option (Endpoint × Bytes))
  | search (nhi : Nonce) (search : Text) (complete : Bool) (nresults : ℕ) (ids : List Ident)
  deriving DecidableEq

/-- `TIMEOUT_SEC`. -/
def timeoutSec : ℕ := 1 * 60 * 60

/-- `MAX_RESULTS`. -/
def maxResults : ℕ := 100

def intMax : ℕ := 2 ^ 31 - 1

structure RegRecord where
  id : Ident
  nhi : Nonce
  ep : Endpoint
  info : Bytes
  deriving DecidableEq

/-- A pointer to a record. -/
abbrev Ptr := ℕ

/-- The records that exist and the tables of the server; `doomed` are the records to be deleted
when control returns to the event loop. -/
structure Database where
  heap : Ptr → Option RegRecord
  next : Ptr
  doomed : Finset Ptr
  idhash : AList fun _ : Ident => Ptr
  kwhash : Inverted Text Ptr
  allrecords : Finset Ptr

/-- What happens at the server. `answered` records the answer to an Insert2 with a valid cookie:
the response for an accepted client, nothing for a rejected one. -/
inductive Event
  | received (src : Endpoint) (req : Request)
  | sent (dst : Endpoint) (resp : Response)
  | answered (chal : Cookie) (resp : Option Response)
  deriving DecidableEq

/-- `RegServer`. A response in `chalhash` that is empty is `none`; the newest event comes first in
the log. -/
structure RegServer extends Database where
  secret : Option ℕ
  chalhash : AList fun _ : Cookie => Option Response
  log : List Event

/-- A server without registrations. -/
def RegServer.new : RegServer where
  heap _ := none
  next := 0
  doomed := ∅
  idhash := ∅
  kwhash := ∅
  allrecords := ∅
  secret := none
  chalhash := ∅
  log := []

end Sst.Reg
