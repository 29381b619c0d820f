import Mathlib.Data.Nat.Digits.Defs
import Sst.Armor.Aes
import Sst.Ident.State
import Sst.Respond.Wire

/-!
# Identities, derived keys and sealed identity blocks

What the handlers of key messages call with data from the network. `none` is a failed assertion.

* `RSAKey`, `DSAKey`: the keys of identities, decoded from any bytes; `signKeys`.
* `setKeyOf`, `verify`: the key of an `Ident`; **`setKeyOf_eq`**: only the empty identifier fails.
* `calcKey`, `calcSigHash`: the derived keys, and the hash that is signed.
* `cbcEncrypt`, `cbcDecrypt`: cipher block chaining.
* `sealIdent`, `openIdent`: identity blocks; **`exists_openIdent`**: none of them fails.
-/

namespace Sst.Respond

open Reg (Bytes)
open Reg.Xdr (writeBytes)
open Xdr (XdrStream)
open Armor (Library HMAC hmacLen)
open Ident (Scheme KeyType KeyLibrary IdentData withScheme)

/-! ## Keys -/

/-- `ba2bn`. -/
def ba2bn (ba : Bytes) : ℕ := ba.foldl (fun n b => 256 * n + b.toNat) 0

/-- `bn2ba`. -/
def bn2ba (n : ℕ) : Bytes := (Nat.digits 256 n).reverse.map UInt8.ofNat

/-- `operator>>` for a `BIGNUM`. -/
def Reader.bignum : Reader ℕ := do
  let ba ← bytes
  return ba2bn ba

def Item.bignum (n : ℕ) : Item := .bytes (bn2ba n)

/-- The private part is zero in a public key. -/
structure RSAKey where
  type : KeyType
  n : ℕ
  e : ℕ
  d : ℕ
  p : ℕ
  q : ℕ
  dmp1 : ℕ
  dmq1 : ℕ
  iqmp : ℕ
  deriving DecidableEq

namespace RSAKey

def read : Reader RSAKey := do
  let n ← .bignum
  let e ← .bignum
  let hasPrivateKey ← .bool
  if hasPrivateKey then
    let d ← .bignum
    let p ← .bignum
    let q ← .bignum
    let dmp1 ← .bignum
    let dmq1 ← .bignum
    let iqmp ← .bignum
    return ⟨.privateKey, n, e, d, p, q, dmp1, dmq1, iqmp⟩
  else return ⟨.publicKey, n, e, 0, 0, 0, 0, 0, 0⟩

/-- The constructor from an encoded key. -/
def ofBytes (key : Bytes) : RSAKey :=
  (read.decode key).getD ⟨.invalid, 0, 0, 0, 0, 0, 0, 0, 0⟩

def items (k : RSAKey) (getPrivateKey : Bool) : List Item :=
  [.bignum k.n, .bignum k.e] ++
    if getPrivateKey then
      [.word 1#32, .bignum k.d, .bignum k.p, .bignum k.q, .bignum k.dmp1, .bignum k.dmq1,
        .bignum k.iqmp]
    else [.word 0#32]

end RSAKey

/-- The private part is zero in a public key. -/
structure DSAKey where
  type : KeyType
  p : ℕ
  q : ℕ
  g : ℕ
  pubKey : ℕ
  privKey : ℕ
  deriving DecidableEq

namespace DSAKey

def read : Reader DSAKey := do
  let p ← .bignum
  let q ← .bignum
  let g ← .bignum
  let pubKey ← .bignum
  let privKey ← .bignum
  return ⟨if privKey = 0 then .publicKey else .privateKey, p, q, g, pubKey, privKey⟩

/-- The constructor from an encoded key. -/
def ofBytes (key : Bytes) : DSAKey := (read.decode key).getD ⟨.invalid, 0, 0, 0, 0, 0⟩

def items (k : DSAKey) (getPrivateKey : Bool) : List Item :=
  [.bignum k.p, .bignum k.q, .bignum k.g, .bignum k.pubKey,
    if getPrivateKey then .bignum k.privKey else .bytes []]

end DSAKey

/-- What the cryptographic library supplies besides the cipher and the hash of packets: the inverse
of the cipher, signatures, and the shared secret of a Diffie-Hellman key, which is no longer than
`DH_size`. -/
structure Crypto extends Library where
  decrypt : AesKey → BitVec 128 → Fin 16 → UInt8
  rsaSign : RSAKey → Bytes → Bytes
  rsaVerify : RSAKey → Bytes → Bytes → Bool
  dsaSign : DSAKey → Bytes → ℕ × ℕ
  dsaVerify : DSAKey → Bytes → ℕ × ℕ → Bool
  Dh : Type
  dhSize : Dh → ℕ
  computeKey : Dh → ℕ → Option Bytes
  computeKey_le : ∀ dh n secret, computeKey dh n = some secret → secret.length ≤ dhSize dh

variable {cr : Crypto}

/-- `Sha256::hash`. -/
def sha256 (cr : Crypto) (data : Bytes) : Bytes :=
  List.ofFn (cr.final (cr.update cr.init data))

@[simp] theorem length_sha256 (data : Bytes) : (sha256 cr data).length = 32 := by
  rw [sha256, List.length_ofFn]

/-- The keys of a scheme. -/
def SignKey : Scheme → Type
  | .dsa160 => DSAKey
  | .rsa160 => RSAKey

namespace SignKey

def ofBytes : (sch : Scheme) → Bytes → SignKey sch
  | .dsa160 => DSAKey.ofBytes
  | .rsa160 => RSAKey.ofBytes

def type : {sch : Scheme} → SignKey sch → KeyType
  | .dsa160 => DSAKey.type
  | .rsa160 => RSAKey.type

def items : {sch : Scheme} → SignKey sch → Bool → List Item
  | .dsa160 => DSAKey.items
  | .rsa160 => RSAKey.items

/-- `SignKey::key`. -/
def key {sch : Scheme} (k : SignKey sch) (getPrivateKey : Bool) : Bytes :=
  (k.items getPrivateKey).flatMap Item.encode

/-- `SignKey::id`: 160 bits of the hash of the public key. -/
def id (cr : Crypto) {sch : Scheme} (k : SignKey sch) : Bytes := (sha256 cr (k.key false)).take 20

/-- `SignKey::sign`. -/
def sign (cr : Crypto) : {sch : Scheme} → SignKey sch → Bytes → Bytes
  | .dsa160, k, digest =>
    let (r, s) := cr.dsaSign k (digest.take (160 / 8))
    writeBytes (bn2ba r) ++ writeBytes (bn2ba s)
  | .rsa160, k, digest => cr.rsaSign k digest

/-- `SignKey::verify`; a DSA signature is a pair with nothing after it. -/
def verify (cr : Crypto) : {sch : Scheme} → SignKey sch → Bytes → Bytes → Bool
  | .dsa160, k, digest, sig =>
    let (r, s) := Reader.bignum (.new sig fun _ => 0)
    let (t, s) := Reader.bignum s
    if s.st ≠ .ok ∨ s.pos < sig.length then false
    else cr.dsaVerify k (digest.take (160 / 8)) (r, t)
  | .rsa160, k, digest, sig => cr.rsaVerify k digest sig

theorem length_id {sch : Scheme} (k : SignKey sch) : (k.id cr).length = 20 := by
  rw [id, List.length_take, length_sha256]
  rfl

end SignKey

/-- The two schemes with their keys. -/
def signKeys (cr : Crypto) : KeyLibrary where
  Key := SignKey
  ofBytes := SignKey.ofBytes
  type := SignKey.type
  id := SignKey.id cr
  key := SignKey.key

/-! ## Identities -/

/-- `Ident(id)`. -/
def newIdent (cr : Crypto) (id : Bytes) : IdentData (signKeys cr) := ⟨id, none⟩

/-- `IdentData::setKey` with its assertions. -/
def setKeyOf (dat : IdentData (signKeys cr)) (key : Bytes) :
    Option (Bool × IdentData (signKeys cr)) :=
  let dat := dat.clearKey
  if dat.id = [] then none
  else
    match Scheme.ofNumber (dat.id.headD 0 >>> 2) with
    | none => some (false, dat)
    | some sch =>
      let k := (signKeys cr).ofBytes sch key
      if (signKeys cr).type k = .invalid then some (false, dat)
      else if (signKeys cr).id k = [] then none
      else if withScheme sch ((signKeys cr).id k) ≠ dat.id then some (false, dat)
      else some (true, { dat with k := some ⟨sch, k⟩ })

/-- `Ident::verify`: there is a valid key, and the digest has its length. -/
def verify (dat : IdentData (signKeys cr)) (digest sig : Bytes) : Option Bool :=
  match dat.k with
  | none => none
  | some ⟨_, k⟩ =>
    if SignKey.type k = .invalid ∨ digest.length ≠ 32 then none
    else some (SignKey.verify cr k digest sig)

theorem id_ne_nil {sch : Scheme} (k : (signKeys cr).Key sch) : (signKeys cr).id k ≠ [] := by
  intro hk
  have hlen : ((signKeys cr).id k).length = 20 := SignKey.length_id k
  rw [hk] at hlen
  cases hlen

/-- **A key is set, or rejected,** unless the identifier is empty. -/
theorem setKeyOf_eq {dat : IdentData (signKeys cr)} (h : dat.id ≠ []) (key : Bytes) :
    setKeyOf dat key = some (dat.setKey key) := by
  have hclear : dat.clearKey.id ≠ [] := h
  simp only [setKeyOf, IdentData.setKey, if_neg hclear, if_neg (id_ne_nil _)]
  cases Scheme.ofNumber (dat.clearKey.id.headD 0 >>> 2) with
  | none => rfl
  | some sch =>
    dsimp only
    split_ifs <;> rfl

theorem valid_of_setKey {dat dat' : IdentData (signKeys cr)} {key : Bytes}
    (h : dat.setKey key = (true, dat')) :
    ∃ sch k, dat'.k = some ⟨sch, k⟩ ∧ (signKeys cr).type k ≠ .invalid := by
  unfold IdentData.setKey at h
  dsimp only at h
  split at h
  · cases h
  · rename_i sch _
    split_ifs at h with hinv hid
    · cases (Prod.mk.inj h).1
    · cases (Prod.mk.inj h).1
    · obtain rfl := (Prod.mk.inj h).2
      exact ⟨sch, _, rfl, hinv⟩

/-- **An identity is checked:** if its key is accepted, any signature is verified or rejected. -/
theorem exists_setKeyOf (cr : Crypto) {id : Bytes} (h : id ≠ []) (key : Bytes) :
    ∃ ok ident, setKeyOf (newIdent cr id) key = some (ok, ident) ∧
      (ok = true → ∀ digest sig : Bytes, digest.length = 32 →
        ∃ ok, verify ident digest sig = some ok) := by
  obtain ⟨⟨ok, ident⟩, hset⟩ : ∃ r, (newIdent cr id).setKey key = r := ⟨_, rfl⟩
  refine ⟨ok, ident, (setKeyOf_eq h key).trans (congrArg some hset), ?_⟩
  rintro rfl digest sig hdigest
  obtain ⟨sch, k, hk, hvalid⟩ := valid_of_setKey hset
  have hnot : ¬(SignKey.type k = .invalid ∨ digest.length ≠ 32) := by
    rintro (hinv | hne)
    · exact hvalid hinv
    · exact hne hdigest
  refine ⟨SignKey.verify cr k digest sig, ?_⟩
  unfold verify
  rw [hk]
  exact if_neg hnot

/-- The host's identity, which has a private key. -/
structure HostIdent where
  sch : Scheme
  k : SignKey sch
  type_eq : k.type = .privateKey

namespace HostIdent

def id (cr : Crypto) (hi : HostIdent) : Bytes := withScheme hi.sch (hi.k.id cr)

/-- `Ident::sign`. -/
def sign (cr : Crypto) (hi : HostIdent) (digest : Bytes) : Option Bytes :=
  if digest.length ≠ 32 then none else some (hi.k.sign cr digest)

theorem length_id (cr : Crypto) (hi : HostIdent) : (hi.id cr).length = 20 := by
  rw [id, withScheme, List.length_cons, List.length_tail, SignKey.length_id]

theorem length_id_le (cr : Crypto) (hi : HostIdent) : (hi.id cr).length ≤ 256 := by
  rw [hi.length_id]
  decide

end HostIdent

/-! ## Derived keys -/

/-- A key derived from the master secret. -/
def calcKey (cr : Crypto) (master nhi nr : Bytes) (which : Char) (keylen : ℕ) : Bytes :=
  ((((HMAC.new cr.toLibrary (sha256 cr master)).update nhi).update nr).update
    [UInt8.ofNat which.toNat]).final keylen

theorem length_calcKey (master nhi nr : Bytes) (which : Char) {keylen : ℕ} (h : keylen ≤ 32) :
    (calcKey cr master nhi nr which keylen).length = keylen := by
  rw [calcKey, HMAC.final, List.length_take, List.length_ofFn]
  exact Nat.min_eq_left h

/-- The hash of the parameters that is signed. -/
def calcSigHash (cr : Crypto) (kp : KeyParams) : Option Bytes :=
  (write kp.items).map (sha256 cr)

theorem exists_calcSigHash (cr : Crypto) {kp : KeyParams} (h : Fit kp.items) :
    ∃ sighash, calcSigHash cr kp = some sighash ∧ sighash.length = 32 :=
  ⟨_, by rw [calcSigHash, write, if_pos h, Option.map_some], length_sha256 _⟩

theorem HostIdent.exists_sign (cr : Crypto) (hi : HostIdent) {digest : Bytes}
    (h : digest.length = 32) : ∃ sig, hi.sign cr digest = some sig := ⟨_, if_neg (not_not_intro h)⟩

/-- The constructor of `HMAC`. -/
def newMac (cr : Crypto) (key : Bytes) : Option (HMAC cr.toLibrary) :=
  if key.length = 32 then some (.new cr.toLibrary key) else none

/-- The sizes of AES keys in bytes. -/
def AesKeySize (n : ℕ) : Prop := n = 128 / 8 ∨ n = 192 / 8 ∨ n = 256 / 8

instance : DecidablePred AesKeySize := fun n =>
  inferInstanceAs (Decidable (n = 128 / 8 ∨ n = 192 / 8 ∨ n = 256 / 8))

/-- `AES::setEncryptKey`. -/
def setEncryptKey (cr : Crypto) (key : Bytes) : Option cr.AesKey :=
  if AesKeySize key.length then some (cr.setEncryptKey key) else none

/-- `AES::setDecryptKey`. -/
def setDecryptKey (cr : Crypto) (key : Bytes) : Option cr.AesKey :=
  if AesKeySize key.length then some (cr.setDecryptKey key) else none

/-! ## Cipher block chaining -/

/-- The block of 16 bytes. -/
def block (b : Bytes) : BitVec 128 :=
  b.foldl (fun w x => w <<< 8 ||| x.toBitVec.setWidth 128) 0#128

/-- Zero bytes up to the next multiple of 16. -/
def padBlock (b : Bytes) : Bytes := b ++ List.replicate ((b.length + 15) / 16 * 16 - b.length) 0

def xorBytes (a b : Bytes) : Bytes := List.zipWith (· ^^^ ·) a b

/-- `AES_cbc_encrypt`, encrypting so many blocks. -/
def encryptBlocks (key : cr.AesKey) : ℕ → Bytes → Bytes → Bytes
  | 0, _, _ => []
  | n + 1, ivec, data =>
    let c := List.ofFn (cr.encrypt key (block (xorBytes (data.take 16) ivec)))
    c ++ encryptBlocks key n c (data.drop 16)

/-- `AES_cbc_encrypt`, decrypting so many blocks. -/
def decryptBlocks (key : cr.AesKey) : ℕ → Bytes → Bytes → Bytes
  | 0, _, _ => []
  | n + 1, ivec, data =>
    let c := data.take 16
    xorBytes (List.ofFn (cr.decrypt key (block c))) ivec ++ decryptBlocks key n c (data.drop 16)

/-- `AES::cbcEncrypt` with a random initialization vector. -/
def cbcEncrypt (key : cr.AesKey) (ivec inp : Bytes) : Bytes :=
  ivec ++ encryptBlocks key ((inp.length + 15) / 16) ivec (padBlock inp)

/-- `AES::cbcDecrypt`. -/
def cbcDecrypt (key : cr.AesKey) (inp : Bytes) : Bytes :=
  let padsize : ℤ := inp.length - 16
  if padsize ≤ 0 ∨ padsize % 16 ≠ 0 then []
  else decryptBlocks key (padsize.toNat / 16) (inp.take 16) (inp.drop 16)

/-! ## Sealed identity blocks -/

/-- Encrypt an identity block and append its keyed hash. The bytes that pad it are zero here; the
code does not set them. -/
def sealIdent (cr : Crypto) (master nhi nr ivec plain : Bytes) : Option Bytes := do
  let mac ← newMac cr (calcKey cr master nhi nr '2' (256 / 8))
  let key ← setEncryptKey cr (calcKey cr master nhi nr '1' (256 / 8))
  return mac.finalAppend (cbcEncrypt key ivec (padBlock plain))

/-- Check and strip the keyed hash and decrypt; the inner `none` is a wrong hash. -/
def openIdent (cr : Crypto) (master nhi nr enc : Bytes) : Option (Option Bytes) := do
  let mac ← newMac cr (calcKey cr master nhi nr '2' (256 / 8))
  let (ok, enc) := mac.finalVerify enc
  if !ok then return none
  let key ← setDecryptKey cr (calcKey cr master nhi nr '1' (256 / 8))
  return some (cbcDecrypt key enc)

theorem newMac_calcKey (master nhi nr : Bytes) (which : Char) :
    newMac cr (calcKey cr master nhi nr which (256 / 8)) =
      some (.new cr.toLibrary (calcKey cr master nhi nr which (256 / 8))) :=
  if_pos (length_calcKey master nhi nr which (by decide))

theorem aesKeySize_calcKey (master nhi nr : Bytes) (which : Char) {keylen : ℕ}
    (h : AesKeySize keylen) : AesKeySize (calcKey cr master nhi nr which keylen).length := by
  have hle : keylen ≤ 32 := by
    rcases h with rfl | rfl | rfl <;> decide
  rw [length_calcKey master nhi nr which hle]
  exact h

theorem exists_sealIdent (cr : Crypto) (master nhi nr ivec plain : Bytes) :
    ∃ enc, sealIdent cr master nhi nr ivec plain = some enc := by
  have hkey : setEncryptKey cr (calcKey cr master nhi nr '1' (256 / 8)) = some _ :=
    if_pos (aesKeySize_calcKey master nhi nr '1' (.inr (.inr rfl)))
  exact ⟨_, by simp only [sealIdent, newMac_calcKey, hkey]; rfl⟩

/-- **Opening an identity block**, whatever it holds. -/
theorem exists_openIdent (cr : Crypto) (master nhi nr enc : Bytes) :
    ∃ plain, openIdent cr master nhi nr enc = some plain := by
  have hkey : setDecryptKey cr (calcKey cr master nhi nr '1' (256 / 8)) = some _ :=
    if_pos (aesKeySize_calcKey master nhi nr '1' (.inr (.inr rfl)))
  simp only [openIdent, newMac_calcKey, hkey, Option.bind_eq_bind, Option.bind_some]
  split_ifs
  · exact ⟨_, rfl⟩
  · exact ⟨_, rfl⟩

end Sst.Respond
