import Sst.Lib.CopyOnWrite
import Sst.Lib.Transition
import Sst.Reg.Info

/-!
# Identities: their data and operations

An `Ident` is an identifier and, if there is one, the key that belongs to it. Copies of an `Ident`
share their data until one of them is changed.

* `KeyLibrary`: the keys of the two schemes and their codec.
* `IdentData.setKey`, `IdentData.copy`: a key is decoded and checked against the identifier.
* `IdentHost`: every `Ident` of a host, the host's own among them.
* `generate`, `hostIdent`, `initHostIdent`: the functions that make identities.
* `identHost`: the runs.

A step is impossible where it would use an `Ident` that is gone, or where an assertion on its
arguments fails.
-/

namespace Sst.Ident

open Transition CopyOnWrite
open Reg (Bytes)

/-! ## Keys -/

/-- The schemes of `Ident::Scheme` that have keys. -/
inductive Scheme
  | dsa160
  | rsa160
  deriving DecidableEq

namespace Scheme

def number : Scheme → UInt8
  | .dsa160 => 10
  | .rsa160 => 11

def ofNumber (n : UInt8) : Option Scheme :=
  if n = 10 then some .dsa160 else if n = 11 then some .rsa160 else none

end Scheme

/-- `SignKey::Type`. -/
inductive KeyType
  | invalid
  | publicKey
  | privateKey
  deriving DecidableEq

/-- The keys of each scheme: `ofBytes` decodes one, which has the type `invalid` if that fails; `id`
is its fingerprint, and `key` its encoding without or with the private part. -/
structure KeyLibrary where
  Key : Scheme → Type
  ofBytes : (sch : Scheme) → Bytes → Key sch
  type : {sch : Scheme} → Key sch → KeyType
  id : {sch : Scheme} → Key sch → Bytes
  key : {sch : Scheme} → Key sch → Bool → Bytes

/-- **The codec round-trips:** a valid key, encoded with its private part if it has one, is decoded
to a key of its type with its fingerprint. -/
structure KeyLibrary.Lawful (lib : KeyLibrary) : Prop where
  type_ofBytes : ∀ {sch} (k : lib.Key sch), lib.type k ≠ .invalid →
    lib.type (lib.ofBytes sch (lib.key k (lib.type k = .privateKey))) = lib.type k
  id_ofBytes : ∀ {sch} (k : lib.Key sch), lib.type k ≠ .invalid →
    lib.id (lib.ofBytes sch (lib.key k (lib.type k = .privateKey))) = lib.id k

variable {lib : KeyLibrary}

/-! ## The shared data -/

/-- A fingerprint with the scheme in its first byte. -/
def withScheme (sch : Scheme) (kid : Bytes) : Bytes := sch.number <<< 2 :: kid.tail

structure IdentData (lib : KeyLibrary) where
  id : Bytes
  k : Option (Σ sch : Scheme, lib.Key sch)

namespace IdentData

def clearKey (dat : IdentData lib) : IdentData lib := { dat with k := none }

/-- `IdentData::setKey`: whether the key was accepted, and the data. -/
def setKey (dat : IdentData lib) (key : Bytes) : Bool × IdentData lib :=
  let dat := dat.clearKey
  match Scheme.ofNumber (dat.id.headD 0 >>> 2) with
  | none => (false, dat)
  | some sch =>
    let k := lib.ofBytes sch key
    if lib.type k = .invalid then (false, dat)
    else if withScheme sch (lib.id k) ≠ dat.id then (false, dat)
    else (true, { dat with k := some ⟨sch, k⟩ })

/-- The copy constructor, which encodes the key and decodes it again. -/
def copy (other : IdentData lib) : IdentData lib :=
  match other.k with
  | none => ⟨other.id, none⟩
  | some ⟨_, k⟩ => (setKey ⟨other.id, none⟩ (lib.key k (lib.type k = .privateKey))).2

/-- `Ident::haveKey`. -/
def haveKey (dat : IdentData lib) : Bool :=
  match dat.k with
  | none => false
  | some ⟨_, k⟩ => lib.type k ≠ .invalid

/-- `Ident::havePrivateKey`. -/
def havePrivateKey (dat : IdentData lib) : Bool :=
  match dat.k with
  | none => false
  | some ⟨_, k⟩ => lib.type k = .privateKey

/-- `Ident::key(true)` of an `Ident` with a key. -/
def privateKey (dat : IdentData lib) : Bytes :=
  match dat.k with
  | none => []
  | some ⟨_, k⟩ => lib.key k true

end IdentData

/-! ## The identities of a host -/

/-- The `Ident` objects: `nullIdent`, the host's `hid`, and those of the application. -/
inductive Handle
  | null
  | host
  | ident (n : ℕ)
  deriving DecidableEq

/-- The data of every `Ident`, and what was last written to the settings. -/
structure IdentHost (lib : KeyLibrary) where
  heap : Heap Handle (IdentData lib)
  saved : Option (Bytes × Bytes)

namespace IdentHost

/-- A new host: `hid` is a null `Ident`. -/
def new (lib : KeyLibrary) : IdentHost lib :=
  ⟨(Heap.empty.make .null ⟨[], none⟩).share .null .host, none⟩

/-- The constructors of an `Ident` without a key. -/
def ofId (s : IdentHost lib) (x : Handle) (id : Bytes) : IdentHost lib :=
  { s with heap := s.heap.make x ⟨id, none⟩ }

/-- A copy of `x`, constructed or assigned. -/
def assign (s : IdentHost lib) (x y : Handle) : IdentHost lib :=
  { s with heap := s.heap.share x y }

/-- What a function does first that is not `const`. -/
def access (s : IdentHost lib) (x : Handle) : IdentHost lib :=
  { s with heap := s.heap.detach IdentData.copy x }

/-- `Ident::setID`. -/
def setID (s : IdentHost lib) (x : Handle) (id : Bytes) : IdentHost lib :=
  { s with heap := s.heap.modify IdentData.copy (fun dat => { dat with id := id }.clearKey) x }

/-- `Ident::setKey` on an identifier that is not empty. -/
def setKey (s : IdentHost lib) (x : Handle) (key : Bytes) : Option (Bool × IdentHost lib) :=
  match (s.access x).heap.get x with
  | none => none
  | some dat =>
    if dat.id = [] then none
    else some ((dat.setKey key).1,
      { s with heap := s.heap.modify IdentData.copy (fun dat => (dat.setKey key).2) x })

/-- `x` is assigned the result of `Ident::generate`, with the key `k` that was generated. -/
def generate (s : IdentHost lib) (x : Handle) {sch : Scheme} (k : lib.Key sch) :
    Option (IdentHost lib) :=
  if lib.type k = .privateKey then
    some { s with heap := s.heap.make x ⟨withScheme sch (lib.id k), some ⟨sch, k⟩⟩ }
  else none

/-- `Ident::havePrivateKey` of `x`. -/
def havePrivateKey (s : IdentHost lib) (x : Handle) : Bool :=
  ((s.heap.get x).map IdentData.havePrivateKey).getD false

/-- `IdentHostState::hostIdent`, whose result is assigned to `x`. -/
def hostIdent (s : IdentHost lib) (x : Handle) (create : Bool) (k : lib.Key .rsa160) :
    Option (IdentHost lib) :=
  if !create || s.havePrivateKey .host then some (s.assign .host x)
  else (s.generate .host k).map fun s => s.assign .host x

/-- `IdentHostState::setHostIdent`. -/
def setHostIdent (s : IdentHost lib) (x : Handle) : IdentHost lib := s.assign x .host

/-- The end of `initHostIdent`: a new identity is generated and saved. -/
def renewHostIdent (s : IdentHost lib) (k : lib.Key .rsa160) : Option (IdentHost lib) :=
  (s.generate .host k).map fun s =>
    { s with saved := (s.heap.get .host).map fun dat => (dat.id, dat.privateKey) }

/-- `IdentHostState::initHostIdent`, with the entries `id` and `key` of the settings if there are
settings. -/
def initHostIdent (s : IdentHost lib) (settings : Option (Bytes × Bytes)) (k : lib.Key .rsa160) :
    Option (IdentHost lib) :=
  if s.havePrivateKey .host then some s
  else
    match settings with
    | none => s.generate .host k
    | some (id, key) =>
      if id ≠ [] ∧ key ≠ [] then
        ((s.setID .host id).setKey .host key).bind fun (ok, s) =>
          if ok && s.havePrivateKey .host then some s else s.renewHostIdent k
      else s.renewHostIdent k

/-! ## Runs -/

/-- The calls. An `Ident` of the application is given by its number; `x` in `assign` and
`setHostIdent` is any `Ident`. The constructor from an identifier and a key is `ofId` and then
`setKey`, and the one without arguments assigns `nullIdent`. -/
inductive Op (lib : KeyLibrary)
  | ofId (n : ℕ) (id : Bytes)
  | assign (x : Handle) (n : ℕ)
  | destroy (n : ℕ)
  | access (n : ℕ)
  | setID (n : ℕ) (id : Bytes)
  | setKey (n : ℕ) (key : Bytes)
  | generate (n : ℕ) (sch : Scheme) (k : lib.Key sch)
  | hostIdent (n : ℕ) (create : Bool) (k : lib.Key .rsa160)
  | setHostIdent (x : Handle)
  | initHostIdent (settings : Option (Bytes × Bytes)) (k : lib.Key .rsa160)

/-- The `Ident` objects that a call changes. -/
def Op.targets : Op lib → List Handle
  | .ofId n _ | .assign _ n | .destroy n | .access n | .setID n _ | .setKey n _
  | .generate n _ _ => [.ident n]
  | .hostIdent n _ _ => [.host, .ident n]
  | .setHostIdent _ | .initHostIdent _ _ => [.host]

def exec (s : IdentHost lib) : Op lib → Option (IdentHost lib)
  | .ofId n id => some (s.ofId (.ident n) id)
  | .assign x n => if (s.heap.get x).isSome then some (s.assign x (.ident n)) else none
  | .destroy n => some { s with heap := s.heap.drop (.ident n) }
  | .access n => if (s.heap.get (.ident n)).isSome then some (s.access (.ident n)) else none
  | .setID n id => if (s.heap.get (.ident n)).isSome then some (s.setID (.ident n) id) else none
  | .setKey n key => (s.setKey (.ident n) key).map Prod.snd
  | .generate n _ k => s.generate (.ident n) k
  | .hostIdent n create k => s.hostIdent (.ident n) create k
  | .setHostIdent x => if (s.heap.get x).isSome then some (s.setHostIdent x) else none
  | .initHostIdent settings k => s.initHostIdent settings k

end IdentHost

/-- The runs of a host's identities. -/
def identHost (lib : KeyLibrary) : Machine (IdentHost lib) (IdentHost.Op lib) :=
  ⟨.new lib, IdentHost.exec⟩

end Sst.Ident
