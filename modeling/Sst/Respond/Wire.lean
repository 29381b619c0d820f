import Sst.Xdr.KeyMessage

/-!
# Key messages: the fields of their chunks

The operators that the protocol compiler generates read and write the fields of a structure one
after the other. Reading bounds the length of a field through the status of the stream; writing
asserts the bound.

* `Reader`: the operators `>>`; **`Reads.bind`**: what is known of the value if the status is `Ok`.
* `Item`: what the operators `<<` write, with the bound that is asserted.
* `Chunk`, `KeyIdentI`, `KeyIdentR`, `KeyParams`: the structures of the protocol.
* **`fit_of_mem_decode`**: the fields of the chunks that were read are within their bounds.
-/

namespace Sst.Respond

open Reg (Bytes)
open Reg.Xdr (writeWord writeBytes)
open Xdr (XdrStream Codec KeyMessage)

/-! ## Reading -/

/-- An operator `>>`. -/
def Reader (α : Type) := XdrStream → α × XdrStream

instance : Monad Reader where
  pure a := fun s => (a, s)
  bind r f := fun s => f (r s).1 (r s).2

variable {α β : Type}

namespace Reader

def word : Reader (BitVec 32) := XdrStream.readInt

/-- An 8-bit integer is the end of a word. -/
def byte : Reader UInt8 := do
  let v ← word
  return .ofBitVec (v.setWidth 8)

def bool : Reader Bool := do
  let v ← word
  return v ≠ 0#32

/-- A `QByteArray` without a bound. -/
def bytes : Reader Bytes := XdrStream.readBytes

/-- `xdrDecodeVector`. -/
def vector (len : ℕ) : Reader Bytes := fun s => s.readRawData len

/-- `xdrDecodeArray` of bytes. -/
def array (maxlen : ℕ) : Reader Bytes := fun s =>
  let (v, s) := s.readBytes
  (v, if maxlen < v.length then s.setStatus .readCorruptData else s)

/-- What is read from a buffer, if the status is `Ok` then. What fresh memory holds could be seen
only otherwise. -/
def decode (r : Reader α) (buf : Bytes) : Option α :=
  let (v, s) := r (.new buf fun _ => 0)
  if s.st = .ok then some v else none

end Reader

/-- If the status is `Ok` after reading, the value meets `P`. -/
structure Reads (r : Reader α) (P : α → Prop) : Prop where
  later : ∀ s : XdrStream, s.Later (r s).2
  ok : ∀ s : XdrStream, (r s).2.st = .ok → P (r s).1

namespace Reads

variable {P : α → Prop} {Q : β → Prop}

theorem pure {a : α} (h : P a) : Reads (Pure.pure a : Reader α) P :=
  ⟨fun s => .refl s, fun _ _ => h⟩

/-- **What is read first is known when the rest is read.** -/
theorem bind {r : Reader α} {f : α → Reader β} (hr : Reads r P)
    (hf : ∀ a, Reads (f a) fun b => P a → Q b) : Reads (r >>= f) Q := by
  refine ⟨fun s => (hr.later s).trans ((hf _).later _), fun s hs => ?_⟩
  have hmid : (r s).2.st = .ok := ((hf (r s).1).later (r s).2).ok hs
  exact (hf (r s).1).ok (r s).2 hs (hr.ok s hmid)

theorem word : Reads Reader.word fun _ => True := ⟨XdrStream.Later.readInt, fun _ _ => trivial⟩

theorem byte : Reads Reader.byte fun _ => True := word.bind fun _ => pure fun _ => trivial

theorem bytes : Reads Reader.bytes fun _ => True :=
  ⟨XdrStream.Later.readBytes, fun _ _ => trivial⟩

theorem vector (len : ℕ) : Reads (Reader.vector len) fun v => v.length = len := by
  refine ⟨fun s => XdrStream.Later.readRawData s len, fun s hs => ?_⟩
  obtain ⟨h1, h2⟩ := XdrStream.readRawData_ok hs
  have hv : (Reader.vector len s).1 = s.unread.take len := congrArg Prod.fst h2
  rw [hv, List.length_take]
  exact Nat.min_eq_left h1

theorem array (maxlen : ℕ) : Reads (Reader.array maxlen) fun v => v.length ≤ maxlen := by
  refine ⟨fun s => ?_, fun s hs => ?_⟩
  · have h := XdrStream.Later.readBytes s
    simp only [Reader.array]
    split_ifs
    · exact h.trans (.setStatus _ Xdr.Status.noConfusion)
    · exact h
  · simp only [Reader.array] at hs ⊢
    split_ifs at hs with hlong
    · cases hs
    · exact Nat.le_of_not_lt hlong

theorem decode {r : Reader α} (hr : Reads r P) {buf : Bytes} {a : α}
    (h : r.decode buf = some a) : P a := by
  simp only [Reader.decode] at h
  split_ifs at h with hst
  cases h
  exact hr.ok _ hst

end Reads

/-! ## Writing -/

/-- What an operator `<<` writes: a word, and bytes with their bound. -/
inductive Item
  | word (w : BitVec 32)
  | bytes (v : Bytes)
  | vector (v : Bytes) (len : ℕ)
  | array (v : Bytes) (maxlen : ℕ)

namespace Item

/-- An 8-bit integer is written as a signed one. -/
def byte (v : UInt8) : Item := .word (v.toBitVec.signExtend 32)

/-- The assertions of `xdrEncodeVector` and `xdrEncodeArray`. -/
def Fits : Item → Prop
  | word _ | bytes _ => True
  | vector v len => v.length = len
  | array v maxlen => v.length ≤ maxlen

instance : DecidablePred Fits := fun it => by
  cases it <;> simp only [Fits] <;> infer_instance

def encode : Item → Bytes
  | word w => writeWord w
  | bytes v => writeBytes v
  | vector v _ => v
  | array v _ => writeBytes v

end Item

/-- Every field is within its bounds. -/
def Fit (l : List Item) : Prop := ∀ it ∈ l, it.Fits

instance : DecidablePred Fit := fun l => inferInstanceAs (Decidable (∀ it ∈ l, it.Fits))

namespace Fit

theorem nil : Fit [] := fun _ h => absurd h List.not_mem_nil

theorem cons {it : Item} {l : List Item} (h : it.Fits) (hl : Fit l) : Fit (it :: l) :=
  List.forall_mem_cons.mpr ⟨h, hl⟩

theorem word {w : BitVec 32} {l : List Item} (hl : Fit l) : Fit (.word w :: l) := cons trivial hl

theorem bytes {v : Bytes} {l : List Item} (hl : Fit l) : Fit (.bytes v :: l) := cons trivial hl

end Fit

/-- The bytes of a structure; writing to a buffer leaves the status `Ok`. -/
def write (l : List Item) : Option Bytes :=
  if Fit l then some (l.flatMap Item.encode) else none

theorem write_eq {l : List Item} (h : Fit l) : write l = some (l.flatMap Item.encode) := if_pos h

/-- The next step of a function after one that did not fail. -/
theorem bind_of_eq {x : Option α} {a : α} (h : x = some a) (f : α → Option β) :
    x >>= f = f a := by
  rw [h]
  rfl

/-! ## The chunks -/

/-- `KeyChunkChkI1Data`; the chunk types below are named in the same way. -/
structure ChkI1 where
  cki : BitVec 32
  chani : UInt8
  cookie : Bytes
  ulpi : Bytes
  cpkt : Bytes
  deriving DecidableEq

structure ChkR1 where
  cki : BitVec 32
  ckr : BitVec 32
  chanr : UInt8
  cookie : Bytes
  ulpr : Bytes
  cpkt : Bytes
  deriving DecidableEq

structure DhI1 where
  group : BitVec 32
  keymin : BitVec 32
  nhi : Bytes
  dhi : Bytes
  eidr : Bytes
  deriving DecidableEq

structure DhR1 where
  group : BitVec 32
  keylen : BitVec 32
  nhi : Bytes
  nr : Bytes
  dhr : Bytes
  hhkr : Bytes
  eidr : Bytes
  pkr : Bytes
  sr : Bytes
  deriving DecidableEq

structure DhI2 where
  group : BitVec 32
  keylen : BitVec 32
  ni : Bytes
  nr : Bytes
  dhi : Bytes
  dhr : Bytes
  hhkr : Bytes
  idi : Bytes
  deriving DecidableEq

structure DhR2 where
  nhi : Bytes
  idr : Bytes
  deriving DecidableEq

/-- `KeyChunkUnion`; `other` has a type that no case of the union has. -/
inductive Chunk
  | packet (v : Bytes)
  | chkI1 (d : ChkI1)
  | chkR1 (d : ChkR1)
  | dhI1 (d : DhI1)
  | dhR1 (d : DhR1)
  | dhI2 (d : DhI2)
  | dhR2 (d : DhR2)
  | other (type : BitVec 32)
  deriving DecidableEq

namespace ChkI1

def read : Reader ChkI1 := do
  let cki ← .word
  let chani ← .byte
  let cookie ← .bytes
  let ulpi ← .bytes
  let cpkt ← .bytes
  return ⟨cki, chani, cookie, ulpi, cpkt⟩

def items (d : ChkI1) : List Item :=
  [.word d.cki, .byte d.chani, .bytes d.cookie, .bytes d.ulpi, .bytes d.cpkt]

end ChkI1

namespace ChkR1

def read : Reader ChkR1 := do
  let cki ← .word
  let ckr ← .word
  let chanr ← .byte
  let cookie ← .bytes
  let ulpr ← .bytes
  let cpkt ← .bytes
  return ⟨cki, ckr, chanr, cookie, ulpr, cpkt⟩

def items (d : ChkR1) : List Item :=
  [.word d.cki, .word d.ckr, .byte d.chanr, .bytes d.cookie, .bytes d.ulpr, .bytes d.cpkt]

end ChkR1

namespace DhI1

def read : Reader DhI1 := do
  let group ← .word
  let keymin ← .word
  let nhi ← .vector 32
  let dhi ← .array 384
  let eidr ← .array 256
  return ⟨group, keymin, nhi, dhi, eidr⟩

def items (d : DhI1) : List Item :=
  [.word d.group, .word d.keymin, .vector d.nhi 32, .array d.dhi 384, .array d.eidr 256]

end DhI1

namespace DhR1

def read : Reader DhR1 := do
  let group ← .word
  let keylen ← .word
  let nhi ← .vector 32
  let nr ← .vector 32
  let dhr ← .array 384
  let hhkr ← .array 256
  let eidr ← .array 256
  let pkr ← .bytes
  let sr ← .bytes
  return ⟨group, keylen, nhi, nr, dhr, hhkr, eidr, pkr, sr⟩

def items (d : DhR1) : List Item :=
  [.word d.group, .word d.keylen, .vector d.nhi 32, .vector d.nr 32, .array d.dhr 384,
    .array d.hhkr 256, .array d.eidr 256, .bytes d.pkr, .bytes d.sr]

end DhR1

namespace DhI2

def read : Reader DhI2 := do
  let group ← .word
  let keylen ← .word
  let ni ← .vector 32
  let nr ← .vector 32
  let dhi ← .array 384
  let dhr ← .array 384
  let hhkr ← .array 256
  let idi ← .bytes
  return ⟨group, keylen, ni, nr, dhi, dhr, hhkr, idi⟩

def items (d : DhI2) : List Item :=
  [.word d.group, .word d.keylen, .vector d.ni 32, .vector d.nr 32, .array d.dhi 384,
    .array d.dhr 384, .array d.hhkr 256, .bytes d.idi]

end DhI2

namespace DhR2

def read : Reader DhR2 := do
  let nhi ← .vector 32
  let idr ← .bytes
  return ⟨nhi, idr⟩

def items (d : DhR2) : List Item := [.vector d.nhi 32, .bytes d.idr]

end DhR2

namespace Chunk

/-- `operator>>` for `KeyChunkUnion`. -/
def read : Reader Chunk := do
  let type ← .word
  if type = 0x0001#32 then return .packet (← .bytes)
  else if type = 0x0011#32 then return .chkI1 (← ChkI1.read)
  else if type = 0x0012#32 then return .chkR1 (← ChkR1.read)
  else if type = 0x0021#32 then return .dhI1 (← DhI1.read)
  else if type = 0x0022#32 then return .dhR1 (← DhR1.read)
  else if type = 0x0023#32 then return .dhI2 (← DhI2.read)
  else if type = 0x0024#32 then return .dhR2 (← DhR2.read)
  else return .other type

/-- `operator<<` for `KeyChunkUnion`. -/
def items : Chunk → List Item
  | packet v => [.word 0x0001#32, .bytes v]
  | chkI1 d => .word 0x0011#32 :: d.items
  | chkR1 d => .word 0x0012#32 :: d.items
  | dhI1 d => .word 0x0021#32 :: d.items
  | dhR1 d => .word 0x0022#32 :: d.items
  | dhI2 d => .word 0x0023#32 :: d.items
  | dhR2 d => .word 0x0024#32 :: d.items
  | other type => [.word type]

/-- The content of a `KeyChunk`. -/
def codec : Codec Chunk := ⟨fun c => c.items.flatMap Item.encode, read.decode⟩

end Chunk

/-- The bytes of a key message, which is written chunk by chunk. -/
def packet (magic : BitVec 32) (chunks : List Chunk) : Option Bytes :=
  if ∀ c ∈ chunks, Fit c.items then
    some (KeyMessage.encode Chunk.codec ⟨magic, chunks.map fun c => ⟨some c, []⟩⟩)
  else none

/-! ## The identity blocks -/

structure KeyIdentI where
  chani : UInt8
  eidi : Bytes
  eidr : Bytes
  idpki : Bytes
  sigi : Bytes
  ulpi : Bytes
  deriving DecidableEq

structure KeyIdentR where
  chanr : UInt8
  eidr : Bytes
  idpkr : Bytes
  sigr : Bytes
  ulpr : Bytes
  deriving DecidableEq

/-- What is signed. -/
structure KeyParams where
  group : BitVec 32
  keylen : BitVec 32
  nhi : Bytes
  nr : Bytes
  dhi : Bytes
  dhr : Bytes
  eid : Bytes

namespace KeyIdentI

def read : Reader KeyIdentI := do
  let chani ← .byte
  let eidi ← .array 256
  let eidr ← .array 256
  let idpki ← .bytes
  let sigi ← .bytes
  let ulpi ← .bytes
  return ⟨chani, eidi, eidr, idpki, sigi, ulpi⟩

def items (d : KeyIdentI) : List Item :=
  [.byte d.chani, .array d.eidi 256, .array d.eidr 256, .bytes d.idpki, .bytes d.sigi,
    .bytes d.ulpi]

end KeyIdentI

namespace KeyIdentR

def read : Reader KeyIdentR := do
  let chanr ← .byte
  let eidr ← .array 256
  let idpkr ← .bytes
  let sigr ← .bytes
  let ulpr ← .bytes
  return ⟨chanr, eidr, idpkr, sigr, ulpr⟩

def items (d : KeyIdentR) : List Item :=
  [.byte d.chanr, .array d.eidr 256, .bytes d.idpkr, .bytes d.sigr, .bytes d.ulpr]

end KeyIdentR

def KeyParams.items (d : KeyParams) : List Item :=
  [.word d.group, .word d.keylen, .vector d.nhi 32, .vector d.nr 32, .array d.dhi 384,
    .array d.dhr 384, .array d.eid 256]

/-! ## What was read is within its bounds -/

theorem ChkI1.reads : Reads ChkI1.read fun d => Fit d.items :=
  Reads.word.bind fun _ => Reads.byte.bind fun _ => Reads.bytes.bind fun _ =>
    Reads.bytes.bind fun _ => Reads.bytes.bind fun _ => Reads.pure fun _ _ _ _ _ =>
      .word (.word (.bytes (.bytes (.bytes .nil))))

theorem ChkR1.reads : Reads ChkR1.read fun d => Fit d.items :=
  Reads.word.bind fun _ => Reads.word.bind fun _ => Reads.byte.bind fun _ =>
    Reads.bytes.bind fun _ => Reads.bytes.bind fun _ => Reads.bytes.bind fun _ =>
    Reads.pure fun _ _ _ _ _ _ => .word (.word (.word (.bytes (.bytes (.bytes .nil)))))

theorem DhI1.reads : Reads DhI1.read fun d => Fit d.items :=
  Reads.word.bind fun _ => Reads.word.bind fun _ => (Reads.vector 32).bind fun _ =>
    (Reads.array 384).bind fun _ => (Reads.array 256).bind fun _ =>
    Reads.pure fun heidr hdhi hnhi _ _ =>
      .word (.word (.cons hnhi (.cons hdhi (.cons heidr .nil))))

theorem DhR1.reads : Reads DhR1.read fun d => Fit d.items :=
  Reads.word.bind fun _ => Reads.word.bind fun _ => (Reads.vector 32).bind fun _ =>
    (Reads.vector 32).bind fun _ => (Reads.array 384).bind fun _ => (Reads.array 256).bind fun _ =>
    (Reads.array 256).bind fun _ => Reads.bytes.bind fun _ => Reads.bytes.bind fun _ =>
    Reads.pure fun _ _ heidr hhkr hdhr hnr hnhi _ _ =>
      .word (.word (.cons hnhi (.cons hnr (.cons hdhr (.cons hhkr (.cons heidr
        (.bytes (.bytes .nil))))))))

theorem DhI2.reads : Reads DhI2.read fun d => Fit d.items :=
  Reads.word.bind fun _ => Reads.word.bind fun _ => (Reads.vector 32).bind fun _ =>
    (Reads.vector 32).bind fun _ => (Reads.array 384).bind fun _ => (Reads.array 384).bind fun _ =>
    (Reads.array 256).bind fun _ => Reads.bytes.bind fun _ =>
    Reads.pure fun _ hhkr hdhr hdhi hnr hni _ _ =>
      .word (.word (.cons hni (.cons hnr (.cons hdhi (.cons hdhr (.cons hhkr (.bytes .nil)))))))

theorem DhR2.reads : Reads DhR2.read fun d => Fit d.items :=
  (Reads.vector 32).bind fun _ => Reads.bytes.bind fun _ =>
    Reads.pure fun _ hnhi => .cons hnhi (.bytes .nil)

theorem KeyIdentI.reads : Reads KeyIdentI.read fun d => Fit d.items :=
  Reads.byte.bind fun _ => (Reads.array 256).bind fun _ => (Reads.array 256).bind fun _ =>
    Reads.bytes.bind fun _ => Reads.bytes.bind fun _ => Reads.bytes.bind fun _ =>
    Reads.pure fun _ _ _ heidr heidi _ =>
      .word (.cons heidi (.cons heidr (.bytes (.bytes (.bytes .nil)))))

theorem Chunk.reads : Reads Chunk.read fun c => Fit c.items := by
  refine Reads.word.bind fun type => ?_
  split_ifs
  · exact Reads.bytes.bind fun _ => Reads.pure fun _ _ => .word (.bytes .nil)
  · exact ChkI1.reads.bind fun _ => Reads.pure fun hd _ => .word hd
  · exact ChkR1.reads.bind fun _ => Reads.pure fun hd _ => .word hd
  · exact DhI1.reads.bind fun _ => Reads.pure fun hd _ => .word hd
  · exact DhR1.reads.bind fun _ => Reads.pure fun hd _ => .word hd
  · exact DhI2.reads.bind fun _ => Reads.pure fun hd _ => .word hd
  · exact DhR2.reads.bind fun _ => Reads.pure fun hd _ => .word hd
  · exact Reads.pure fun _ => .word .nil

/-- **The fields of a chunk that was read are within their bounds.** -/
theorem Chunk.fit_of_decode {buf : Bytes} {c : Chunk} (h : Chunk.codec.decode buf = some c) :
    Fit c.items := Chunk.reads.decode h

theorem fit_of_decodeOption {s : XdrStream} {c : Chunk}
    (h : (Xdr.XdrOption.decode Chunk.codec s).1.i = some c) : Fit c.items := by
  simp only [Xdr.XdrOption.decode] at h
  split at h
  · cases h
  · split at h
    · rename_i hv
      cases h
      exact Chunk.fit_of_decode hv
    · cases h

theorem forall_mem_decodeItems {item : XdrStream → α × XdrStream} {P : α → Prop}
    (h : ∀ s, P (item s).1) (len : ℕ) (s : XdrStream) :
    ∀ v ∈ (Xdr.decodeItems item len s).1, P v := by
  induction len generalizing s with
  | zero => exact fun v hv => absurd hv List.not_mem_nil
  | succ len ih =>
    simp only [Xdr.decodeItems]
    split_ifs
    · exact fun v hv => absurd hv List.not_mem_nil
    · exact List.forall_mem_cons.mpr ⟨h s, ih _⟩

/-- **The chunks of a message that was read are within their bounds.** -/
theorem fit_of_mem_decode {s : XdrStream} {o : Xdr.XdrOption Chunk} {c : Chunk}
    (ho : o ∈ (KeyMessage.decode Chunk.codec s).1.chunks) (hc : o.i = some c) : Fit c.items := by
  simp only [KeyMessage.decode, Xdr.decodeArray] at ho
  split_ifs at ho
  · exact absurd ho List.not_mem_nil
  · exact forall_mem_decodeItems (P := fun o => ∀ c, o.i = some c → Fit c.items)
      (fun _ _ => fit_of_decodeOption) _ _ o ho c hc

end Sst.Respond
