import Mathlib.Algebra.Order.Group.Nat
import Sst.Armor.Checksum

/-!
# Encrypted packets

A packet's body is encrypted in counter mode, and a keyed hash of the sequence number and the
packet is attached.

* `Library`: the block cipher and the hash function.
* `HMAC`: the keyed hash, computed from pieces.
* `AES.ctr`: counter mode, which leaves the counter changed in the initialization vector.
* `AESArmor.txenc`, `AESArmor.rxdec`: sealing a packet and opening it.
* **`armor_round_trip`**: both armors restore what the peer sealed.
-/

namespace Sst.Armor

open Sealing
open Reg (Bytes)

/-- What the cryptographic library supplies: AES with its two key schedules, as a function from a
block to a block, and SHA-256, computed from pieces. -/
structure Library where
  AesKey : Type
  setEncryptKey : Bytes → AesKey
  setDecryptKey : Bytes → AesKey
  encrypt : AesKey → BitVec 128 → Fin 16 → UInt8
  Ctx : Type
  init : Ctx
  update : Ctx → Bytes → Ctx
  final : Ctx → Fin 32 → UInt8

/-- An array whose size is an `int`. -/
structure QByteArray where
  data : Bytes
  size_lt : data.length < 2 ^ 31

variable {lib : Library}

/-! ## The keyed hash -/

/-- `SHA256_CBLOCK`. -/
def sha256Cblock : ℕ := 64

/-- `HMACLEN`: the hash is truncated to 128 bits. -/
def hmacLen : ℕ := 16

def ipad : UInt8 := 0x36

def opad : UInt8 := 0x5c

/-- `hmac_initpad`. -/
def initpad (lib : Library) (hkey : Bytes) (pad : UInt8) : lib.Ctx :=
  lib.update lib.init
    (hkey.map (· ^^^ pad) ++ List.replicate (sha256Cblock - hkey.length) pad)

/-- The contexts of the inner and of the outer hash. -/
structure HMAC (lib : Library) where
  ictx : lib.Ctx
  octx : lib.Ctx

namespace HMAC

def new (lib : Library) (key : Bytes) : HMAC lib := ⟨initpad lib key ipad, initpad lib key opad⟩

/-- `HMAC::writeData`. -/
def update (h : HMAC lib) (data : Bytes) : HMAC lib := { h with ictx := lib.update h.ictx data }

/-- `HMAC::final`. -/
def final (h : HMAC lib) (macsize : ℕ) : Bytes :=
  (List.ofFn (lib.final (lib.update h.octx (List.ofFn (lib.final h.ictx))))).take macsize

/-- `HMAC::finalAppend`. -/
def finalAppend (h : HMAC lib) (msg : Bytes) : Bytes := msg ++ (h.update msg).final hmacLen

/-- `HMAC::finalVerify`: whether the trailer is right, and the message without it. -/
def finalVerify (h : HMAC lib) (msg : Bytes) : Bool × Bytes :=
  let msgsize : ℤ := msg.length - hmacLen
  if msgsize < 0 then (false, msg)
  else
    let msgsize := msgsize.toNat
    (((h.update (msg.take msgsize)).final hmacLen).isSuffixOf msg, msg.take msgsize)

theorem length_final (h : HMAC lib) : (h.final hmacLen).length = hmacLen := by
  rw [final, List.length_take, List.length_ofFn]
  rfl

theorem finalVerify_finalAppend (h : HMAC lib) (msg : Bytes) :
    h.finalVerify (h.finalAppend msg) = (true, msg) := by
  obtain ⟨h1, -⟩ := take_append_trailer (q := msg) (length_final (h.update msg))
  have hlen : (h.finalAppend msg).length = msg.length + hmacLen := by
    rw [finalAppend, List.length_append, length_final]
  have hnonneg : ¬((h.finalAppend msg).length : ℤ) - hmacLen < 0 := by omega
  have htoNat : (((h.finalAppend msg).length : ℤ) - hmacLen).toNat =
      (h.finalAppend msg).length - hmacLen := by omega
  have htake : (h.finalAppend msg).take ((h.finalAppend msg).length - hmacLen) = msg := h1
  unfold finalVerify
  dsimp only
  rw [if_neg hnonneg, htoNat, htake]
  have hsuffix : ((h.update msg).final hmacLen).isSuffixOf (h.finalAppend msg) = true :=
    List.isSuffixOf_iff_suffix.mpr (List.suffix_append _ _)
  rw [hsuffix]

end HMAC

/-! ## Counter mode -/

/-- `AES::CtrEncrypt` and `AES::CtrDecrypt` are both `CbcEncrypt`. -/
inductive Mode
  | cbcEncrypt
  | cbcDecrypt

def ctrEncrypt : Mode := .cbcEncrypt

def ctrDecrypt : Mode := .cbcEncrypt

namespace AES

def new (lib : Library) (key : Bytes) : Mode → lib.AesKey
  | .cbcEncrypt => lib.setEncryptKey key
  | .cbcDecrypt => lib.setDecryptKey key

/-- The keystream under a key, from an initial counter. -/
def keystream (key : lib.AesKey) (ivec : BitVec 128) (i : ℕ) : UInt8 :=
  lib.encrypt key (ivec + .ofNat 128 (i / 16)) ⟨i % 16, Nat.mod_lt i (by decide)⟩

/-- `AES::ctrEncrypt` and `AES::ctrDecrypt`: the result, and the counter after it. -/
def ctr (key : lib.AesKey) (ivec : BitVec 128) (data : Bytes) : Bytes × BitVec 128 :=
  (xorStream (keystream key ivec) data, ivec + .ofNat 128 ((data.length + 15) / 16))

end AES

/-! ## The armor -/

/-- `FlowArmor::encofs`. -/
def encofs : ℕ := 4

structure AESArmor (lib : Library) where
  txaes : lib.AesKey
  rxaes : lib.AesKey
  txmac : HMAC lib
  rxmac : HMAC lib
  ivec : BitVec 128

namespace AESArmor

/-- The constructor leaves `ivec` uninitialised. -/
def new (lib : Library) (txenckey txmackey rxenckey rxmackey : Bytes) (ivec : BitVec 128) :
    AESArmor lib :=
  ⟨AES.new lib txenckey ctrEncrypt, AES.new lib rxenckey ctrDecrypt, HMAC.new lib txmackey,
    HMAC.new lib rxmackey, ivec⟩

/-- The initialization vector of a packet: the sequence number, `VXAf`, and the block counter. -/
def ivecOf (pktseq : BitVec 64) : BitVec 128 := (pktseq ++ 0x56584166#32) ++ 0#32

/-- The first 8 bytes of the initialization vector. -/
def pseudoHeader (ivec : BitVec 128) : Bytes := bytesOf 8 (ivec.extractLsb' 64 64)

/-- `AESArmor::txenc`: the packet for the wire. -/
def txenc (armr : AESArmor lib) (pktseq : BitVec 64) (pkt : Bytes) : Bytes × AESArmor lib :=
  let ivec := ivecOf pktseq
  let (enc, ivec) := AES.ctr armr.txaes ivec (pkt.drop encofs)
  let epkt := pkt.take encofs ++ enc
  let hmac := (armr.txmac.update (pseudoHeader ivec)).update epkt
  (hmac.finalAppend epkt, { armr with ivec := ivec })

/-- `AESArmor::rxdec`: whether the packet is accepted, and what is left of it. -/
def rxdec (armr : AESArmor lib) (pktseq : BitVec 64) (pkt : Bytes) :
    Bool × Bytes × AESArmor lib :=
  let size : ℤ := pkt.length - hmacLen
  if size < hdrlen then (false, pkt, armr)
  else
    let size := size.toNat
    let ivec := ivecOf pktseq
    let hmac := (armr.rxmac.update (pseudoHeader ivec)).update (pkt.take size)
    let (ok, pkt) := hmac.finalVerify pkt
    if ok then
      let (dec, ivec) := AES.ctr armr.rxaes ivec (pkt.drop encofs)
      (true, pkt.take encofs ++ dec, { armr with ivec := ivec })
    else (false, pkt, { armr with ivec := ivec })

/-- The counter does not reach the sequence number. -/
theorem pseudoHeader_add (pktseq : BitVec 64) {n : ℕ} (hn : n < 2 ^ 32) :
    pseudoHeader (ivecOf pktseq + .ofNat 128 n) = pseudoHeader (ivecOf pktseq) := by
  have hiv : (ivecOf pktseq).toNat = (pktseq ++ 0x56584166#32).toNat * 2 ^ 32 := by
    rw [ivecOf, BitVec.toNat_append, BitVec.toNat_ofNat, Nat.zero_mod, Nat.or_zero,
      Nat.shiftLeft_eq]
  have hlt := (pktseq ++ 0x56584166#32).isLt
  have hadd : (ivecOf pktseq + .ofNat 128 n).toNat = (ivecOf pktseq).toNat + n := by
    rw [BitVec.toNat_add, BitVec.toNat_ofNat, hiv]
    omega
  have hdiv : (ivecOf pktseq + .ofNat 128 n).toNat / 2 ^ 64 = (ivecOf pktseq).toNat / 2 ^ 64 := by
    rw [hadd, hiv]
    omega
  have hext : (ivecOf pktseq + .ofNat 128 n).extractLsb' 64 64 =
      (ivecOf pktseq).extractLsb' 64 64 := by
    refine BitVec.eq_of_toNat_eq ?_
    rw [BitVec.extractLsb'_toNat, BitVec.extractLsb'_toNat, Nat.shiftRight_eq_div_pow,
      Nat.shiftRight_eq_div_pow, hdiv]
  rw [pseudoHeader, hext, pseudoHeader]

theorem txenc_eq (armr : AESArmor lib) (pktseq : BitVec 64) (p : QByteArray) :
    (armr.txenc pktseq p.data).1 =
      ((armr.txmac.update (pseudoHeader (ivecOf pktseq))).update
        (p.data.take encofs ++
          xorStream (AES.keystream armr.txaes (ivecOf pktseq)) (p.data.drop encofs))).finalAppend
        (p.data.take encofs ++
          xorStream (AES.keystream armr.txaes (ivecOf pktseq)) (p.data.drop encofs)) := by
  have hsize := p.size_lt
  have hblocks : ((p.data.drop encofs).length + 15) / 16 < 2 ^ 32 := by
    rw [List.length_drop]
    omega
  simp only [txenc, AES.ctr, pseudoHeader_add pktseq hblocks]

/-- **The round trip.** The armors share the keys of one direction. -/
theorem rxdec_txenc {tx rx : AESArmor lib} (haes : rx.rxaes = tx.txaes)
    (hmac : rx.rxmac = tx.txmac) (pktseq : BitVec 64) (p : QByteArray)
    (hp : hdrlen ≤ p.data.length) :
    ∃ rx', rx.rxdec pktseq (tx.txenc pktseq p.data).1 = (true, p.data, rx') := by
  rw [txenc_eq]
  have hhdr : (p.data.take encofs).length = encofs := by
    rw [List.length_take]
    exact Nat.min_eq_left (Nat.le_trans (by decide) hp)
  -- the sealed packet
  obtain ⟨epkt, hepkt⟩ : ∃ epkt, epkt = p.data.take encofs ++
    xorStream (AES.keystream tx.txaes (ivecOf pktseq)) (p.data.drop encofs) := ⟨_, rfl⟩
  have hlen : epkt.length = p.data.length := by
    rw [hepkt, List.length_append, length_xorStream, ← List.length_append, List.take_append_drop]
  have htake : epkt.take encofs = p.data.take encofs := by
    rw [hepkt, List.take_left' hhdr]
  have hdrop : xorStream (AES.keystream tx.txaes (ivecOf pktseq)) (epkt.drop encofs) =
      p.data.drop encofs := by
    rw [hepkt, List.drop_left' hhdr, xorStream_xorStream]
  rw [← hepkt]
  obtain ⟨h, hh⟩ : ∃ h, h = (tx.txmac.update (pseudoHeader (ivecOf pktseq))).update epkt := ⟨_, rfl⟩
  have hmsg : (h.finalAppend epkt).length = epkt.length + hmacLen := by
    rw [HMAC.finalAppend, List.length_append, HMAC.length_final]
  have hsize : ¬((h.finalAppend epkt).length : ℤ) - hmacLen < hdrlen := by omega
  have htoNat : (((h.finalAppend epkt).length : ℤ) - hmacLen).toNat = epkt.length := by omega
  have hbody : (h.finalAppend epkt).take epkt.length = epkt := List.take_left
  rw [← hh]
  unfold rxdec
  dsimp only
  rw [if_neg hsize, htoNat, hbody, hmac, ← hh, HMAC.finalVerify_finalAppend]
  simp only [if_true, AES.ctr, haes, hdrop, htake, List.take_append_drop]
  exact ⟨_, rfl⟩

end AESArmor

/-- **Packet armor.** Armors with mirrored keys, whatever else they did before: what one of them
makes of a packet of at least 8 bytes, the other accepts, and it restores the packet. An armor with
checksums accepts nothing else. -/
theorem armor_round_trip :
    (∀ (lib : Library) (enckey mackey enckey' mackey' : Bytes) (ivec ivec' : BitVec 128)
      (pktseq : BitVec 64) (p : QByteArray), hdrlen ≤ p.data.length →
      ∃ armr, (AESArmor.new lib enckey' mackey' enckey mackey ivec').rxdec pktseq
        ((AESArmor.new lib enckey mackey enckey' mackey' ivec).txenc pktseq p.data).1 =
          (true, p.data, armr)) ∧
    (∀ (key key' : BitVec 32) (armorid armorid' : Bytes) (pktseq : BitVec 64) (p : Bytes),
      hdrlen ≤ p.length → (ChecksumArmor.mk key' key armorid').rxdec pktseq
        ((ChecksumArmor.mk key key' armorid).txenc pktseq p) = (true, p)) ∧
    ∀ (key key' : BitVec 32) (armorid armorid' : Bytes) (pktseq : BitVec 64) (m : Bytes),
      ((ChecksumArmor.mk key' key armorid').rxdec pktseq m).1 = true ↔
        ∃ q, hdrlen ≤ q.length ∧ m = (ChecksumArmor.mk key key' armorid).txenc pktseq q := by
  refine ⟨fun lib enckey mackey enckey' mackey' ivec ivec' pktseq p hp => ?_,
    fun key key' armorid armorid' pktseq p hp => ?_,
    fun key key' armorid armorid' pktseq m => ?_⟩
  · exact AESArmor.rxdec_txenc rfl rfl pktseq p hp
  · exact (ChecksumArmor.rxdec_iff rfl pktseq _ p).mpr ⟨hp, rfl⟩
  · constructor
    · intro h
      refine ⟨_, (ChecksumArmor.rxdec_iff rfl pktseq m _).mp (Prod.ext h rfl)⟩
    · rintro ⟨q, hq⟩
      exact congrArg Prod.fst ((ChecksumArmor.rxdec_iff rfl pktseq m q).mpr hq)

/-- A block cipher and a hash that add up bytes. -/
def addingLibrary : Library where
  AesKey := UInt8
  setEncryptKey key := .ofNat (key.foldl (fun s b => s + b.toNat) 0)
  setDecryptKey key := .ofNat (key.foldl (fun s b => s + b.toNat) 0)
  encrypt key block i := key + .ofNat (block >>> (8 * i.val)).toNat + .ofNat i.val
  Ctx := Bytes
  init := []
  update ctx data := ctx ++ data
  final ctx i := .ofNat (ctx.foldl (fun s b => s + b.toNat) i.val)

/-- A packet of 40 bytes, of which three blocks are encrypted. -/
def fortyBytes : QByteArray := ⟨(List.range 40).map UInt8.ofNat, by decide⟩

/-- The packet under mirrored keys; it does not go in plain text. -/
theorem armor_round_trip_forty :
    (∃ armr, (AESArmor.new addingLibrary [3] [4] [1] [2] 0#128).rxdec 5#64
      ((AESArmor.new addingLibrary [1] [2] [3] [4] 9#128).txenc 5#64 fortyBytes.data).1 =
        (true, fortyBytes.data, armr)) ∧
    ((AESArmor.new addingLibrary [1] [2] [3] [4] 9#128).txenc 5#64 fortyBytes.data).1.take 40 ≠
      fortyBytes.data ∧
    (ChecksumArmor.mk 5#32 3#32 []).rxdec 1#64
      ((ChecksumArmor.mk 3#32 5#32 []).txenc 1#64 fortyBytes.data) = (true, fortyBytes.data) :=
  ⟨armor_round_trip.1 addingLibrary [1] [2] [3] [4] 9#128 0#128 5#64 fortyBytes (by decide),
    by decide +kernel, armor_round_trip.2.1 3#32 5#32 [] [] 1#64 _ (by decide)⟩

end Sst.Armor
