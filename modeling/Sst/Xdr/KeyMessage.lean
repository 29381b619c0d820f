import Sst.Xdr.Stream

/-!
# Key messages

A key message is a list of chunks. Each chunk is an option with its length before it, so that a
reader that does not understand it can step over it and keep its bytes.

* `Codec`: the generated operators for the content of a chunk.
* `XdrOption`: a chunk, decoded or as bytes; `XdrOption.encode`, `XdrOption.decode`.
* `decodeArray`: a counted list of items.
* `KeyMessage.encode`, `KeyMessage.decode`: the whole message.
* **`key_message_codec`**: the round trip, chunks kept as bytes, and the status of a stream.
-/

namespace Sst.Xdr

open Reg (Bytes)
open Reg.Xdr (writeWord writeBytes)

variable {T α : Type*}

/-! ## Definitions -/

/-- The operators for the content of a chunk: what `<<` writes to an empty buffer, and the value
that `>>` reads from the start of a buffer, if the status is `Ok` then. -/
structure Codec (T : Type*) where
  encode : T → Bytes
  decode : Bytes → Option T

/-- The codec reads what it wrote, which is a `QByteArray` with at least one byte. -/
structure Codec.Lawful (codec : Codec T) : Prop where
  decode_encode : ∀ v, codec.decode (codec.encode v) = some v
  encode_ne_nil : ∀ v, codec.encode v ≠ []
  size_lt : ∀ v, (codec.encode v).length < 2 ^ 31

/-- An option: the decoded value, if there is one, and the encoded value. -/
structure XdrOption (T : Type*) where
  i : Option T
  enc : Bytes
  deriving DecidableEq

namespace XdrOption

/-- `XdrOption::clear`. -/
def clear : XdrOption T := ⟨none, []⟩

/-- `XdrOption::setEncoded`. -/
def setEncoded (e : Bytes) : XdrOption T := ⟨none, e⟩

/-- `operator<<`. -/
def encode (codec : Codec T) (o : XdrOption T) : Bytes :=
  match o.i with
  | some v => writeBytes (codec.encode v)
  | none => writeBytes o.enc

/-- `operator>>`: the content is decoded from a stream of its own. -/
def decode (codec : Codec T) (s : XdrStream) : XdrOption T × XdrStream :=
  let (buf, s) := s.readBytes
  if buf = [] then (clear, s)
  else
    match codec.decode buf with
    | some v => (⟨some v, []⟩, s)
    | none => (setEncoded buf, s)

/-- A decoded value, or the bytes of a chunk that cannot be decoded. -/
def Valid (codec : Codec T) (o : XdrOption T) : Prop :=
  (∃ v, o = ⟨some v, []⟩) ∨
    ∃ e, o = ⟨none, e⟩ ∧ e ≠ [] ∧ e.length < 2 ^ 31 ∧ codec.decode e = none

end XdrOption

/-- `xdrEncodeArray`. -/
def encodeArray (item : α → Bytes) (l : List α) : Bytes :=
  writeWord (.ofNat 32 l.length) ++ l.flatMap item

/-- The loop of `xdrDecodeArray` for `len` items. -/
def decodeItems (item : XdrStream → α × XdrStream) : ℕ → XdrStream → List α × XdrStream
  | 0, s => ([], s)
  | len + 1, s =>
    if s.st ≠ .ok then ([], s)
    else
      let (v, s) := item s
      let (l, s) := decodeItems item len s
      (v :: l, s)

/-- `xdrDecodeArray` into an empty list. -/
def decodeArray (item : XdrStream → α × XdrStream) (maxlen : ℕ) (s : XdrStream) :
    List α × XdrStream :=
  let (len, s) := s.readInt
  if maxlen < len.toNat then ([], s.setStatus .readCorruptData)
  else decodeItems item len.toNat s

structure KeyMessage (T : Type*) where
  magic : BitVec 32
  chunks : List (XdrOption T)
  deriving DecidableEq

namespace KeyMessage

/-- The bound of `chunks<>`. -/
def maxChunks : ℕ := 0xffffffff

def encode (codec : Codec T) (msg : KeyMessage T) : Bytes :=
  writeWord msg.magic ++ encodeArray (XdrOption.encode codec) msg.chunks

def decode (codec : Codec T) (s : XdrStream) : KeyMessage T × XdrStream :=
  let (magic, s) := s.readInt
  let (chunks, s) := decodeArray (XdrOption.decode codec) maxChunks s
  (⟨magic, chunks⟩, s)

end KeyMessage

/-! ## The round trip -/

section RoundTrip

variable {codec : Codec T} {s : XdrStream} {rest : Bytes}

/-- **A chunk is read as it was written.** -/
theorem XdrOption.decode_eq (hc : codec.Lawful) {o : XdrOption T} (ho : o.Valid codec)
    (hs : s.st = .ok) (h : s.unread = o.encode codec ++ rest) :
    XdrOption.decode codec s = (o, s.advance (o.encode codec).length) := by
  rcases ho with ⟨v, rfl⟩ | ⟨e, rfl, he, hlen, hfail⟩
  · have hread := s.readBytes_eq hs (hc.size_lt v) h
    simp only [XdrOption.decode, hread, if_neg (hc.encode_ne_nil v), hc.decode_encode v]
    rfl
  · have hread := s.readBytes_eq hs hlen h
    simp only [XdrOption.decode, hread, if_neg he, hfail]
    rfl

theorem decodeItems_eq (item : XdrStream → α × XdrStream) (enc : α → Bytes) {l : List α}
    (hitem : ∀ v ∈ l, ∀ (s : XdrStream) (rest : Bytes), s.st = .ok →
      s.unread = enc v ++ rest → item s = (v, s.advance (enc v).length))
    (hs : s.st = .ok) (h : s.unread = l.flatMap enc ++ rest) :
    decodeItems item l.length s = (l, s.advance (l.flatMap enc).length) := by
  induction l generalizing s with
  | nil => rfl
  | cons v l ih =>
    rw [List.flatMap_cons, List.append_assoc] at h
    have hv := hitem v List.mem_cons_self s _ hs h
    have hl := ih (fun w hw => hitem w (List.mem_cons_of_mem v hw))
      (s := s.advance (enc v).length) hs (XdrStream.unread_advance_append h)
    simp only [List.length_cons, decodeItems, if_neg (not_not_intro hs), hv, hl]
    rw [List.flatMap_cons, List.length_append, XdrStream.advance_advance]

/-- **A message is read as it was written.** -/
theorem KeyMessage.decode_eq (hc : codec.Lawful) {msg : KeyMessage T}
    (hlen : msg.chunks.length ≤ maxChunks) (hv : ∀ o ∈ msg.chunks, o.Valid codec)
    (hs : s.st = .ok) (h : s.unread = msg.encode codec ++ rest) :
    KeyMessage.decode codec s = (msg, s.advance (msg.encode codec).length) := by
  rw [KeyMessage.encode, encodeArray, List.append_assoc, List.append_assoc] at h
  have hmagic := XdrStream.readInt_eq h
  have h1 : (s.advance 4).unread = _ := XdrStream.unread_advance_append h
  have hcount := XdrStream.readInt_eq h1
  have h2 : ((s.advance 4).advance 4).unread = _ := XdrStream.unread_advance_append h1
  have hitems := decodeItems_eq (XdrOption.decode codec) (XdrOption.encode codec)
    (fun o ho t rest ht hrest => XdrOption.decode_eq hc (hv o ho) ht hrest)
    (s := (s.advance 4).advance 4) hs h2
  have hnum : (BitVec.ofNat 32 msg.chunks.length).toNat = msg.chunks.length := by
    rw [BitVec.toNat_ofNat]
    exact Nat.mod_eq_of_lt (Nat.lt_succ_of_le hlen)
  simp only [KeyMessage.decode, hmagic, decodeArray, hcount, hnum, if_neg (Nat.not_lt.mpr hlen),
    hitems]
  rw [XdrStream.advance_advance, XdrStream.advance_advance, KeyMessage.encode, encodeArray,
    List.length_append, List.length_append]
  rfl

end RoundTrip

/-! ## Decoding anything -/

section Anything

variable (codec : Codec T) (s : XdrStream)

theorem XdrOption.decode_later : s.Later (XdrOption.decode codec s).2 := by
  have h := XdrStream.Later.readBytes s
  simp only [XdrOption.decode]
  split
  · exact h
  · split <;> exact h

/-- Without an error, the length of a chunk was read at least. -/
theorem XdrOption.decode_pos (h : (XdrOption.decode codec s).2.st = .ok) :
    s.pos + 4 ≤ (XdrOption.decode codec s).2.pos := by
  have hstream : (XdrOption.decode codec s).2 = s.readBytes.2 := by
    simp only [XdrOption.decode]
    split
    · rfl
    · split <;> rfl
  rw [hstream] at h ⊢
  obtain ⟨-, h2⟩ := XdrStream.readBytes_ok h
  rw [h2, XdrStream.length_writeBytes]
  exact Nat.add_le_add_left (Nat.le_add_right 4 _) s.pos

/-- **A chunk that is kept as bytes** is written as it was read, but for its padding. -/
theorem XdrOption.encode_decode {o : XdrOption T} {t : XdrStream}
    (h : XdrOption.decode codec s = (o, t)) (ht : t.st = .ok) (hi : o.i = none) (he : o.enc ≠ []) :
    s.unread.take (4 + o.enc.length) = (o.encode codec).take (4 + o.enc.length) ∧
      t = s.advance (o.encode codec).length := by
  have hraw : o = ⟨none, s.readBytes.1⟩ ∧ t = s.readBytes.2 := by
    simp only [XdrOption.decode] at h
    split at h
    · cases h
      exact absurd rfl he
    · split at h
      · cases h
        cases hi
      · cases h
        exact ⟨rfl, rfl⟩
  obtain ⟨rfl, rfl⟩ := hraw
  exact XdrStream.readBytes_ok ht

variable {item : XdrStream → α × XdrStream} (hitem : ∀ s, XdrStream.Later s (item s).2)
include hitem

theorem decodeItems_later (len : ℕ) : s.Later (decodeItems item len s).2 := by
  induction len generalizing s with
  | zero => exact .refl s
  | succ len ih =>
    simp only [decodeItems]
    split_ifs
    · exact .refl s
    · exact (hitem s).trans (ih _)

theorem length_decodeItems (hpos : ∀ s, (item s).2.st = .ok → s.pos + 4 ≤ (item s).2.pos)
    (hs : s.pos ≤ s.buf.length) (len : ℕ) :
    (decodeItems item len s).1.length ≤ (s.buf.length - s.pos) / 4 + 1 := by
  induction len generalizing s with
  | zero => exact Nat.zero_le _
  | succ len ih =>
    simp only [decodeItems]
    split_ifs with hst
    · exact Nat.zero_le _
    · have hin := (hitem s).inside hs
      have hbuf := (hitem s).buf
      by_cases hok : (item s).2.st = .ok
      · have h := ih _ hin
        have hp := hpos s hok
        rw [List.length_cons]
        rw [hbuf] at h hin
        omega
      · have hnil : decodeItems item len (item s).2 = ([], (item s).2) := by
          cases len with
          | zero => rfl
          | succ len => rw [decodeItems, if_pos hok]
        rw [hnil, List.length_singleton]
        omega

omit hitem

theorem decodeArray_later (maxlen : ℕ) :
    s.Later (decodeArray (XdrOption.decode codec) maxlen s).2 := by
  simp only [decodeArray]
  split_ifs
  · exact (XdrStream.Later.readInt s).trans (.setStatus _ Status.noConfusion)
  · exact (XdrStream.Later.readInt s).trans
      (decodeItems_later _ (XdrOption.decode_later codec) _)

theorem KeyMessage.decode_later : s.Later (KeyMessage.decode codec s).2 :=
  (XdrStream.Later.readInt s).trans (decodeArray_later codec _ _)

/-- A message has at most one chunk for each four bytes, and one that was cut off. -/
theorem KeyMessage.length_chunks (hs : s.pos ≤ s.buf.length) :
    (KeyMessage.decode codec s).1.chunks.length ≤ (s.buf.length - s.pos) / 4 + 1 := by
  have h1 := XdrStream.Later.readInt s
  have h2 := h1.trans (XdrStream.Later.readInt s.readInt.2)
  simp only [KeyMessage.decode, decodeArray]
  split_ifs
  · exact Nat.zero_le _
  · have h := length_decodeItems s.readInt.2.readInt.2 (XdrOption.decode_later codec)
      (XdrOption.decode_pos codec) (h2.inside hs) s.readInt.2.readInt.1.toNat
    have hpos := h2.pos
    rw [h2.buf] at h
    omega

end Anything

/-- **Key message codec.** Under a lawful codec for the content of chunks:

* a message of decoded chunks and of chunks that cannot be decoded is read as it was written,
  whatever bytes follow, and the stream stands at its end;
* a chunk that is kept as bytes, and read without an error, is written as it was read;
* decoding any bytes ends with at most one chunk for each four bytes, and one more;
* the status is `Ok` at its end exactly if there was no error. -/
theorem key_message_codec (codec : Codec T) (hc : codec.Lawful) :
    (∀ (msg : KeyMessage T) (s : XdrStream) (rest : Bytes),
      msg.chunks.length ≤ KeyMessage.maxChunks → (∀ o ∈ msg.chunks, o.Valid codec) →
      s.st = .ok → s.unread = msg.encode codec ++ rest →
      KeyMessage.decode codec s = (msg, s.advance (msg.encode codec).length)) ∧
    (∀ (s t : XdrStream) (o : XdrOption T), XdrOption.decode codec s = (o, t) → t.st = .ok →
      o.i = none → o.enc ≠ [] →
      s.unread.take (4 + o.enc.length) = (o.encode codec).take (4 + o.enc.length) ∧
        t = s.advance (o.encode codec).length) ∧
    (∀ (buf : Bytes) (mem : ℕ → UInt8),
      (KeyMessage.decode codec (.new buf mem)).1.chunks.length ≤ buf.length / 4 + 1) ∧
    (∀ (buf : Bytes) (mem : ℕ → UInt8),
      (KeyMessage.decode codec (.new buf mem)).2.st = .ok ↔
        (KeyMessage.decode codec (.new buf mem)).2.errors = []) ∧
    ∀ s : XdrStream, s.st ≠ .ok → (KeyMessage.decode codec s).2.st ≠ .ok := by
  refine ⟨fun msg s rest hlen hv hs h => KeyMessage.decode_eq hc hlen hv hs h,
    fun s t o h ht hi he => XdrOption.encode_decode codec s h ht hi he,
    fun buf mem => ?_, fun buf mem => ?_, fun s hs => (KeyMessage.decode_later codec s).sticky hs⟩
  · exact KeyMessage.length_chunks codec (.new buf mem) (Nat.zero_le _)
  · exact (KeyMessage.decode_later codec (.new buf mem)).marked (iff_of_true rfl rfl)

/-- The codec of chunks that hold a piggybacked packet of one byte. -/
def packetCodec : Codec UInt8 where
  encode x := writeWord 1#32 ++ writeBytes [x]
  decode buf :=
    let (type, s) := (XdrStream.new buf fun _ => 0).readInt
    let (packet, s) := s.readBytes
    if s.st = .ok ∧ type = 1#32 then packet.head? else none

theorem packetCodec_lawful : packetCodec.Lawful := by
  refine ⟨fun x => ?_, fun x => List.cons_ne_nil _ _, fun x => ?_⟩
  · have hunread : (XdrStream.new (packetCodec.encode x) fun _ => 0).unread =
        writeWord 1#32 ++ (writeBytes [x] ++ []) := by
      rw [List.append_nil]
      rfl
    have htype := XdrStream.readInt_eq hunread
    have hsize : [x].length < 2 ^ 31 := by
      rw [List.length_singleton]
      decide
    have hpacket := XdrStream.readBytes_eq (s := (XdrStream.new (packetCodec.encode x) fun _ =>
      0).advance 4) rfl hsize (XdrStream.unread_advance_append hunread)
    simp only [packetCodec] at htype hpacket ⊢
    rw [htype]
    simp only [hpacket]
    rfl
  · simp only [packetCodec, List.length_append, XdrStream.length_writeWord,
      XdrStream.length_writeBytes, List.length_singleton]
    decide

/-- A packet, and a chunk of a single byte, which cannot be decoded; one more byte follows. -/
theorem key_message_codec_two :
    KeyMessage.decode packetCodec (.new (KeyMessage.encode packetCodec
      ⟨5#32, [⟨some 7, []⟩, ⟨none, [1]⟩]⟩ ++ [9]) fun _ => 0) =
      (⟨5#32, [⟨some 7, []⟩, ⟨none, [1]⟩]⟩, (XdrStream.new (KeyMessage.encode packetCodec
        ⟨5#32, [⟨some 7, []⟩, ⟨none, [1]⟩]⟩ ++ [9]) fun _ => 0).advance 32) := by
  refine (key_message_codec packetCodec packetCodec_lawful).1 _ _ [9] (by decide) ?_ rfl rfl
  intro o ho
  rcases ho with _ | ⟨_, _ | ⟨_, ho⟩⟩
  · exact .inl ⟨7, rfl⟩
  · exact .inr ⟨[1], rfl, List.cons_ne_nil _ _, by decide, by decide⟩
  · exact absurd ho List.not_mem_nil

end Sst.Xdr
