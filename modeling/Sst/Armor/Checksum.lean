import Sst.Lib.Sealing
import Sst.Reg.Info

/-!
# Packets with a checksum

* `Chk32`: the checksum, computed from a byte stream in pieces.
* `ChecksumArmor.txenc`, `ChecksumArmor.rxdec`: a packet with its checksum, and the check.
* **`ChecksumArmor.rxdec_iff`**: what is accepted is what the peer made.
-/

namespace Sst.Armor

open Sealing
open Reg (Bytes)

/-- The bytes of an integer, the most significant first. -/
def bytesOf (n : ℕ) {w : ℕ} (x : BitVec w) : Bytes :=
  (List.range n).map fun i => .ofBitVec (x.extractLsb' (8 * (n - 1 - i)) 8)

@[simp] theorem length_bytesOf (n : ℕ) {w : ℕ} (x : BitVec w) : (bytesOf n x).length = n := by
  rw [bytesOf, List.length_map, List.length_range]

/-- `Flow::hdrlen`. -/
def hdrlen : ℕ := 8

/-! ## The checksum -/

/-- The state of a checksum; `oddbuf` is the first byte of a word, if there is one. -/
structure Chk32 where
  a : UInt64
  b : UInt64
  run : ℕ
  oddbuf : Option UInt8
  deriving DecidableEq

namespace Chk32

def modulus : UInt64 := 65537

def maxRun : ℕ := 23726740

def new : Chk32 := ⟨0, 0, maxRun, none⟩

/-- Both counters modulo `modulus`. -/
def reduce (c : Chk32) : Chk32 := { c with a := c.a % modulus, b := c.b % modulus }

/-- `Chk32::update16` for one word: counters are reduced before the first word after a run. -/
def update16 (c : Chk32) (w : UInt16) : Chk32 :=
  let c := if c.run = 0 then { c.reduce with run := maxRun } else c
  let a := c.a + w.toUInt64
  { c with a := a, b := c.b + a, run := c.run - 1 }

/-- A word in network byte order. -/
def word (x y : UInt8) : UInt16 := x.toUInt16 <<< 8 ||| y.toUInt16

/-- `Chk32::update` for one byte. -/
def updateByte (c : Chk32) (y : UInt8) : Chk32 :=
  match c.oddbuf with
  | none => { c with oddbuf := some y }
  | some x => { c.update16 (word x y) with oddbuf := none }

/-- `Chk32::update`. -/
def update (c : Chk32) (bytes : Bytes) : Chk32 := bytes.foldl updateByte c

/-- `Chk32::final`: the stream is padded with a byte `0x80` or a word `0x8000`. -/
def final (c : Chk32) : BitVec 32 :=
  let c := match c.oddbuf with
    | some x => c.update16 (word x 0x80)
    | none => c.update16 (word 0x80 0)
  let c := c.reduce
  (c.a &&& (0xffff : UInt64) ||| c.b <<< (16 : UInt64)).toUInt32.toBitVec

end Chk32

/-! ## The armor -/

structure ChecksumArmor where
  txkey : BitVec 32
  rxkey : BitVec 32
  armorid : Bytes

namespace ChecksumArmor

/-- The checksum of a packet under a key, after the sequence number as a pseudo-header. -/
def sum (key : BitVec 32) (pktseq : BitVec 64) (pkt : Bytes) : Bytes :=
  bytesOf 4 (((Chk32.new.update (bytesOf 8 pktseq)).update pkt).final + key)

/-- `ChecksumArmor::txenc`. -/
def txenc (armr : ChecksumArmor) (pktseq : BitVec 64) (pkt : Bytes) : Bytes :=
  pkt ++ sum armr.txkey pktseq pkt

/-- `ChecksumArmor::rxdec`: whether the packet is accepted, and what is left of it. -/
def rxdec (armr : ChecksumArmor) (pktseq : BitVec 64) (pkt : Bytes) : Bool × Bytes :=
  let size : ℤ := pkt.length - 4
  if size < hdrlen then (false, pkt)
  else
    let size := size.toNat
    if pkt.drop size ≠ sum armr.rxkey pktseq (pkt.take size) then (false, pkt)
    else (true, pkt.take size)

/-- **The armor accepts what the peer made,** and restores its packet. -/
theorem rxdec_iff {tx rx : ChecksumArmor} (hkey : rx.rxkey = tx.txkey) (pktseq : BitVec 64)
    (m q : Bytes) :
    rx.rxdec pktseq m = (true, q) ↔ hdrlen ≤ q.length ∧ m = tx.txenc pktseq q := by
  have hlen : ∀ q, (sum tx.txkey pktseq q).length = 4 := fun q => length_bytesOf 4 _
  rw [txenc, ← sealed_iff hlen]
  unfold rxdec
  rw [hkey]
  dsimp only
  by_cases hsize : ((m.length : ℤ) - 4 < hdrlen)
  · rw [if_pos hsize]
    refine iff_of_false (fun h => Bool.noConfusion (Prod.mk.inj h).1) ?_
    rintro ⟨h1, h2, h3, -⟩
    rw [← h3, List.length_take] at h1
    omega
  · have htoNat : ((m.length : ℤ) - 4).toNat = m.length - 4 := by omega
    rw [if_neg hsize, htoNat]
    by_cases hsum : m.drop (m.length - 4) = sum tx.txkey pktseq (m.take (m.length - 4))
    · rw [if_neg (not_not_intro hsum)]
      constructor
      · intro h
        obtain rfl := (Prod.mk.inj h).2
        refine ⟨?_, by omega, rfl, hsum⟩
        rw [List.length_take]
        omega
      · rintro ⟨-, -, h3, -⟩
        rw [h3]
    · rw [if_pos hsum]
      refine iff_of_false (fun h => Bool.noConfusion (Prod.mk.inj h).1) ?_
      rintro ⟨-, -, rfl, h4⟩
      exact hsum h4

end ChecksumArmor

end Sst.Armor
