import Sst.Reg.Codec

/-!
# Endpoints in registration metadata

A client registers a list of endpoints as one attribute: a count, and the endpoints one after the
other. The reader goes by the count, whatever the state of its stream.

* `Endpoint.encode`, `Endpoint.read`: an endpoint on a stream.
* `setEndpoints`, `endpoints`: the list in the attribute.
* **`result_read`**: `Endpoint.decode`, which the client uses, is reading without an error.
* `decodeMany`: so many endpoints, if all of them can be decoded.
* **`endpoints_attribute`**: the round trip, and when only decoded endpoints are returned.
-/

namespace Sst.RegCli

open Reg Sst.Xdr

/-! ## Endpoints on a stream -/

/-- `Endpoint::encode`; the port is converted by way of a signed number. An address of another kind
is left out. -/
def Endpoint.encode (ep : Endpoint) : Bytes :=
  (match ep.addr with
    | .ip4 a => Xdr.writeWord 1#32 ++ Xdr.writeWord a
    | .ip6 a => Xdr.writeWord 2#32 ++ a
    | .null => []) ++ Xdr.writeWord (ep.port.signExtend 32)

/-- `Endpoint::decode` into a new endpoint. -/
def Endpoint.read (s : XdrStream) : Endpoint × XdrStream :=
  let (type, s) := s.readInt
  let (addr, s) :=
    if type.toInt = 1 then
      let (a, s) := s.readInt
      (HostAddress.ip4 a, s)
    else if type.toInt = 2 then
      let (a, s) := s.readRawData 16
      (HostAddress.ip6 a, s)
    else (HostAddress.null, s.setStatus .ioError)
  let (port, s) := s.readInt
  (⟨addr, port.setWidth 16⟩, s)

/-- `RegInfo::Endpoints`. -/
def endpointsTag : BitVec 32 := 1#32

/-- What `RegInfo::setEndpoints` writes. -/
def writeEndpoints (eps : List Endpoint) : Bytes :=
  Xdr.writeWord (.ofNat 32 eps.length) ++ eps.flatMap Endpoint.encode

/-- `RegInfo::setEndpoints`. -/
def setEndpoints (info : RegInfo) (eps : List Endpoint) : RegInfo :=
  info.insert endpointsTag (writeEndpoints eps)

/-- The loop of `RegInfo::endpoints`, with an endpoint for each turn. -/
def readEndpoints : ℕ → XdrStream → List Endpoint
  | 0, _ => []
  | n + 1, s => (Endpoint.read s).1 :: readEndpoints n (Endpoint.read s).2

/-- `RegInfo::endpoints` of the attribute's value. -/
def endpointsOf (value : Bytes) (mem : ℕ → UInt8) : List Endpoint :=
  let (neps, s) := (XdrStream.new value mem).readInt
  if neps.toInt ≤ 0 ∨ s.st ≠ .ok then [] else readEndpoints neps.toInt.toNat s

/-- `RegInfo::endpoints`; `mem` is what uninitialised variables hold. -/
def endpoints (info : RegInfo) (mem : ℕ → UInt8) : List Endpoint :=
  endpointsOf ((info.lookup endpointsTag).getD []) mem

/-! ## Decoding -/

/-- So many endpoints, if all of them can be decoded. -/
def decodeMany : ℕ → Bytes → Option (List Endpoint × Bytes)
  | 0, l => some ([], l)
  | n + 1, l => do
    let (ep, l) ← Endpoint.decode l
    let (eps, l) ← decodeMany n l
    some (ep :: eps, l)

/-- The count that the attribute announces. -/
def announced (value : Bytes) : ℕ :=
  match Xdr.readInt value with
  | none => 0
  | some (neps, _) => neps.toNat

/-- What `endpoints` may return: endpoints that were decoded one after the other, at most one for
each 12 bytes. -/
structure Decoded (value : Bytes) (eps : List Endpoint) : Prop where
  decoded : ∃ rest, decodeMany eps.length (value.drop 4) = some (eps, rest)
  bound : 12 * eps.length ≤ value.length

theorem length_readEndpoints (n : ℕ) (s : XdrStream) : (readEndpoints n s).length = n := by
  induction n generalizing s with
  | zero => rfl
  | succ n ih => rw [readEndpoints, List.length_cons, ih]

section

variable {s : XdrStream} {l rest : Bytes} {w : BitVec 32} {ep : Endpoint} {n : ℕ}

/-- **What is decoded** as an endpoint: a tag, an address of that kind, and a port. -/
theorem decode_cases (h : Endpoint.decode l = some (ep, rest)) :
    ∃ w p l₁ l₂, Xdr.readWord l = some (w, l₁) ∧ Xdr.readWord l₂ = some (p, rest) ∧
      ((w.toInt = 1 ∧ ∃ a, Xdr.readWord l₁ = some (a, l₂) ∧ ep = ⟨.ip4 a, p.setWidth 16⟩) ∨
        (w.toInt = 2 ∧ ∃ a, Xdr.readRaw 16 l₁ = some (a, l₂) ∧ ep = ⟨.ip6 a, p.setWidth 16⟩)) := by
  obtain ⟨⟨type, l₁⟩, h1, h⟩ := Option.bind_eq_some_iff.mp h
  obtain ⟨⟨w, l₁'⟩, hw, heq⟩ := Option.map_eq_some_iff.mp h1
  cases heq
  dsimp only at h
  split_ifs at h with ht1 ht2
  · obtain ⟨⟨addr, l₂⟩, h2, h⟩ := Option.bind_eq_some_iff.mp h
    obtain ⟨⟨a, l'⟩, ha, heq⟩ := Option.map_eq_some_iff.mp h2
    cases heq
    obtain ⟨⟨p, l₃⟩, h3, h⟩ := Option.bind_eq_some_iff.mp h
    cases h
    exact ⟨w, p, _, _, hw, h3, .inl ⟨ht1, a, ha, rfl⟩⟩
  · obtain ⟨⟨addr, l₂⟩, h2, h⟩ := Option.bind_eq_some_iff.mp h
    obtain ⟨⟨a, l'⟩, ha, heq⟩ := Option.map_eq_some_iff.mp h2
    cases heq
    obtain ⟨⟨p, l₃⟩, h3, h⟩ := Option.bind_eq_some_iff.mp h
    cases h
    exact ⟨w, p, _, _, hw, h3, .inr ⟨ht2, a, ha, rfl⟩⟩
  · cases h

/-- **An endpoint** is read from a stream as it is decoded. -/
theorem read_of_decode (hs : s.unread = l) (h : Endpoint.decode l = some (ep, rest)) :
    ∃ t, Endpoint.read s = (ep, t) ∧ t.unread = rest := by
  obtain ⟨w, p, l₁, l₂, hw, hp, haddr⟩ := decode_cases h
  obtain ⟨t₁, hr1, hu1, -⟩ := XdrStream.readInt_of_readWord hs hw
  rcases haddr with ⟨htype, a, ha, rfl⟩ | ⟨htype, a, ha, rfl⟩
  · obtain ⟨t₂, hr2, hu2, -⟩ := XdrStream.readInt_of_readWord hu1 ha
    obtain ⟨t₃, hr3, hu3, -⟩ := XdrStream.readInt_of_readWord hu2 hp
    refine ⟨t₃, ?_, hu3⟩
    simp only [Endpoint.read, hr1, htype, if_true, hr2, hr3]
  · obtain ⟨t₂, hr2, hu2, -⟩ := XdrStream.readRawData_of_readRaw hu1 ha
    obtain ⟨t₃, hr3, hu3, -⟩ := XdrStream.readInt_of_readWord hu2 hp
    have hne : ¬(2 : ℤ) = 1 := by decide
    refine ⟨t₃, ?_, hu3⟩
    simp only [Endpoint.read, hr1, htype, if_neg hne, if_true, hr2, hr3]

/-- **An endpoint is decoded** if and only if it is read without an error. -/
theorem result_read (hs : s.st = .ok) :
    XdrStream.result (Endpoint.read s) = Endpoint.decode s.unread := by
  -- the port is read last, whatever the address
  have hport : ∀ (addr : HostAddress) {t : XdrStream}, t.st = .ok →
      XdrStream.result ((⟨addr, t.readInt.1.setWidth 16⟩ : Endpoint), t.readInt.2) =
        (Xdr.readWord t.unread).bind fun p => some (⟨addr, p.1.setWidth 16⟩, p.2) := by
    intro addr t ht
    rw [← XdrStream.result_readInt ht]
    exact XdrStream.result_bind (.refl _) fun hok => if_pos hok
  change _ = (Xdr.readInt s.unread).bind _
  rw [Xdr.readInt, ← XdrStream.result_readInt hs, Option.bind_map]
  refine XdrStream.result_bind ?_ fun hok => ?_
  · simp only [Endpoint.read]
    split_ifs
    · exact (XdrStream.Later.readInt _).trans (.readInt _)
    · exact (XdrStream.Later.readRawData _ _).trans (.readInt _)
    · exact (XdrStream.Later.setStatus _ Status.noConfusion).trans (.readInt _)
  · simp only [Endpoint.read, Function.comp_apply]
    split_ifs
    · change _ = (Option.map _ _).bind _
      rw [← XdrStream.result_readInt hok, Option.bind_map]
      exact XdrStream.result_bind (.readInt _) fun h => hport _ h
    · change _ = (Option.map _ _).bind _
      rw [← XdrStream.result_readRawData hok, Option.bind_map]
      generalize s.readInt.2.readRawData 16 = p
      exact XdrStream.result_bind (.readInt _) fun h => hport _ h
    · have hl := XdrStream.Later.readInt (s.readInt.2.setStatus .ioError)
      exact if_neg fun h => Status.noConfusion (hl.ok h)

theorem readEndpoints_of_decodeMany {eps : List Endpoint} (hs : s.unread = l)
    (h : decodeMany n l = some (eps, rest)) : readEndpoints n s = eps := by
  induction n generalizing s l eps with
  | zero =>
    cases h
    rfl
  | succ n ih =>
    obtain ⟨⟨ep, l₁⟩, h1, h⟩ := Option.bind_eq_some_iff.mp h
    obtain ⟨⟨eps₁, l₂⟩, h2, h⟩ := Option.bind_eq_some_iff.mp h
    cases h
    obtain ⟨t, hread, hu⟩ := read_of_decode hs h1
    rw [readEndpoints, hread]
    exact congrArg (ep :: ·) (ih hu h2)

end

/-! ## Lengths -/

theorem length_of_decode {l rest : Bytes} {ep : Endpoint}
    (h : Endpoint.decode l = some (ep, rest)) : 12 + rest.length ≤ l.length := by
  have hword : ∀ {l rest : Bytes} {w : BitVec 32}, Xdr.readWord l = some (w, rest) →
      4 + rest.length = l.length := by
    intro l rest w h
    rw [XdrStream.readWord_eq h, List.length_append, XdrStream.length_writeWord]
  obtain ⟨w, p, l₁, l₂, hw, hp, haddr⟩ := decode_cases h
  have hl₂ : 4 + l₂.length ≤ l₁.length := by
    rcases haddr with ⟨-, a, ha, -⟩ | ⟨-, a, ha, -⟩
    · exact (hword ha).le
    · unfold Xdr.readRaw at ha
      split_ifs at ha with hlen
      cases ha
      rw [List.length_drop]
      omega
  have h1 := hword hw
  have h3 := hword hp
  omega

theorem length_of_decodeMany {n : ℕ} {l rest : Bytes} {eps : List Endpoint}
    (h : decodeMany n l = some (eps, rest)) : eps.length = n ∧ 12 * n + rest.length ≤ l.length := by
  induction n generalizing l eps with
  | zero =>
    cases h
    exact ⟨rfl, by omega⟩
  | succ n ih =>
    obtain ⟨⟨ep, l₁⟩, h1, h⟩ := Option.bind_eq_some_iff.mp h
    obtain ⟨⟨eps₁, l₂⟩, h2, h⟩ := Option.bind_eq_some_iff.mp h
    cases h
    obtain ⟨h3, h4⟩ := ih h2
    have := length_of_decode h1
    exact ⟨congrArg (· + 1) h3, by omega⟩

/-! ## The attribute -/

theorem endpointsOf_eq (value : Bytes) (mem : ℕ → UInt8) :
    ∃ s, endpointsOf value mem = readEndpoints (announced value) s ∧
      (announced value ≠ 0 → s.unread = value.drop 4) := by
  unfold endpointsOf announced Xdr.readInt
  cases hword : Xdr.readWord value with
  | none =>
    refine ⟨.new value mem, ?_, fun h => absurd rfl h⟩
    have hshort : ¬4 ≤ value.length := by
      intro hlen
      match value, hword, hlen with
      | a :: b :: c :: d :: l, hword, _ => cases hword
    have hst : (XdrStream.new value mem).readInt.2.st ≠ .ok := by
      intro hok
      exact hshort (XdrStream.readRawData_ok hok).1
    exact if_pos (.inr hst)
  | some r =>
    obtain ⟨w, rest⟩ := r
    obtain ⟨t, hread, hunread, hst⟩ := XdrStream.readInt_of_readWord (s := .new value mem) rfl hword
    have hrest : rest = value.drop 4 := by
      have hdrop : (Xdr.writeWord w ++ rest).drop (Xdr.writeWord w).length = rest :=
        List.drop_left
      rw [XdrStream.readWord_eq hword]
      exact hdrop.symm
    refine ⟨t, ?_, fun _ => hunread.trans hrest⟩
    rw [hread, Option.map_some]
    dsimp only
    by_cases hneg : w.toInt ≤ 0
    · rw [if_pos (.inl hneg), Int.toNat_of_nonpos hneg]
      rfl
    · have hok : t.st = .ok := hst
      rw [if_neg (not_or.mpr ⟨hneg, not_not.mpr hok⟩)]

/-- **The endpoints returned** were all decoded exactly if as many as announced can be. -/
theorem endpointsOf_decoded (value : Bytes) (mem : ℕ → UInt8) :
    Decoded value (endpointsOf value mem) ↔
      (decodeMany (announced value) (value.drop 4)).isSome = true := by
  obtain ⟨s, heq, hs⟩ := endpointsOf_eq value mem
  have hlen : (endpointsOf value mem).length = announced value := by
    rw [heq, length_readEndpoints]
  constructor
  · intro h
    obtain ⟨rest, hrest⟩ := h.decoded
    rw [hlen] at hrest
    rw [hrest]
    rfl
  · intro h
    obtain ⟨⟨eps, rest⟩, hdec⟩ := Option.isSome_iff_exists.mp h
    obtain ⟨heps, hbound⟩ := length_of_decodeMany hdec
    have hresult : endpointsOf value mem = eps := by
      rw [heq]
      by_cases h0 : announced value = 0
      · rw [h0] at hdec ⊢
        cases hdec
        rfl
      · exact readEndpoints_of_decodeMany (hs h0) hdec
    rw [hresult]
    refine ⟨⟨rest, heps.symm ▸ hdec⟩, ?_⟩
    rw [List.length_drop] at hbound
    omega

/-- An IPv4 or IPv6 address. -/
def HostAddress.IsIp : HostAddress → Prop
  | .null => False
  | .ip4 _ => True
  | .ip6 a => a.length = 16

theorem setWidth_signExtend (port : BitVec 16) : (port.signExtend 32).setWidth 16 = port := by
  refine BitVec.eq_of_getLsbD_eq fun i hi => ?_
  rw [BitVec.getLsbD_setWidth, BitVec.getLsbD_signExtend]
  simp only [hi, decide_true, Bool.true_and, if_true, (by omega : i < 32)]

/-- **An endpoint is decoded as it was encoded.** -/
theorem decode_encode {ep : Endpoint} (h : ep.addr.IsIp) (rest : Bytes) :
    Endpoint.decode (ep.encode ++ rest) = some (ep, rest) := by
  obtain ⟨addr, port⟩ := ep
  have hport := setWidth_signExtend port
  cases addr with
  | null => exact h.elim
  | ip4 a =>
    have h1 : (1#32 : BitVec 32).toInt = 1 := rfl
    simp only [Endpoint.encode, Endpoint.decode, Xdr.readInt, List.append_assoc,
      Xdr.readWord_writeWord, Option.map_some, Option.bind_eq_bind, Option.bind_some, h1, if_true,
      hport]
  | ip6 a =>
    have h2 : (2#32 : BitVec 32).toInt = 2 := rfl
    have hlen : a.length = 16 := h
    have hraw : ∀ l : Bytes, Xdr.readRaw 16 (a ++ l) = some (a, l) := by
      intro l
      rw [Xdr.readRaw, if_neg, ← hlen, List.take_left, List.drop_left]
      rw [List.length_append]
      omega
    simp only [Endpoint.encode, Endpoint.decode, Xdr.readInt, List.append_assoc,
      Xdr.readWord_writeWord, Option.map_some, Option.bind_eq_bind, Option.bind_some, h2, if_true,
      hraw, hport, (by decide : ¬(2 : ℤ) = 1), if_false]

theorem decodeMany_encode {eps : List Endpoint} (h : ∀ ep ∈ eps, ep.addr.IsIp) (rest : Bytes) :
    decodeMany eps.length (eps.flatMap Endpoint.encode ++ rest) = some (eps, rest) := by
  induction eps with
  | nil => rfl
  | cons ep eps ih =>
    rw [List.flatMap_cons, List.length_cons, List.append_assoc, decodeMany,
      decode_encode (h ep List.mem_cons_self)]
    change (decodeMany eps.length _ >>= _) = _
    rw [ih fun ep' hep => h ep' (List.mem_cons_of_mem _ hep)]
    rfl

/-- **What is set is returned**, if it fits into an array. -/
theorem endpoints_setEndpoints (info : RegInfo) (mem : ℕ → UInt8) {eps : List Endpoint}
    (h : ∀ ep ∈ eps, ep.addr.IsIp) (hlen : (writeEndpoints eps).length < 2 ^ 31) :
    endpoints (setEndpoints info eps) mem = eps := by
  have hdec := decodeMany_encode h []
  rw [List.append_nil] at hdec
  have hcount : eps.length < 2 ^ 31 := by
    have hbound := (length_of_decodeMany hdec).2
    rw [writeEndpoints, List.length_append, XdrStream.length_writeWord] at hlen
    omega
  have hann : announced (writeEndpoints eps) = eps.length := by
    rw [announced, writeEndpoints, Xdr.readInt_ofNat hcount]
    exact Int.toNat_natCast _
  obtain ⟨s, heq, hs⟩ := endpointsOf_eq (writeEndpoints eps) mem
  rw [endpoints, setEndpoints, AList.lookup_insert, Option.getD_some, heq, hann]
  by_cases h0 : eps.length = 0
  · rw [h0, List.length_eq_zero_iff.mp h0]
    rfl
  · have hmany : decodeMany eps.length ((writeEndpoints eps).drop 4) = some (eps, []) := hdec
    exact readEndpoints_of_decodeMany (hs (hann.symm ▸ h0)) hmany

/-- **The endpoints attribute.** A list of IPv4 and IPv6 endpoints is returned as it was set. Of any
other value, the endpoints returned were all decoded, at most one for each 12 bytes, exactly if as
many endpoints as are announced can be decoded from it. -/
theorem endpoints_attribute (info : RegInfo) (eps : List Endpoint) (value : Bytes)
    (mem : ℕ → UInt8) :
    ((∀ ep ∈ eps, HostAddress.IsIp (Endpoint.addr ep)) → (writeEndpoints eps).length < 2 ^ 31 →
      endpoints (setEndpoints info eps) mem = eps) ∧
    (Decoded value (endpointsOf value mem) ↔
      (decodeMany (announced value) (value.drop 4)).isSome = true) :=
  ⟨fun h hlen => endpoints_setEndpoints info mem h hlen, endpointsOf_decoded value mem⟩

/-- An IPv4 and an IPv6 endpoint. -/
def twoEndpoints : List Endpoint := [⟨.ip4 0x7f000001, 40000⟩, ⟨.ip6 (List.replicate 16 1), 80⟩]

theorem endpoints_attribute_two :
    endpoints (setEndpoints ∅ twoEndpoints) (fun _ => 0) = twoEndpoints := by
  refine (endpoints_attribute ∅ twoEndpoints [] fun _ => 0).1 (fun ep hep => ?_) (by decide)
  rcases List.mem_cons.mp hep with rfl | hep
  · trivial
  · rw [List.mem_singleton.mp hep]
    rfl

/-- A count of three and nothing else: three endpoints are returned, and there is room for none. -/
theorem endpoints_attribute_announced :
    (endpointsOf [0, 0, 0, 3] fun _ => 0).length = 3 ∧
      ¬Decoded [0, 0, 0, 3] (endpointsOf [0, 0, 0, 3] fun _ => 0) := by
  have hlen : (endpointsOf [0, 0, 0, 3] fun _ => 0).length = 3 := by decide
  refine ⟨hlen, fun h => ?_⟩
  have := h.bound
  rw [hlen] at this
  exact absurd this (by decide)

end Sst.RegCli
