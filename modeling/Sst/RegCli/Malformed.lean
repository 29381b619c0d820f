import Sst.RegCli.Dispatch

/-!
# Malformed replies

A reply that cannot be decoded leaves a client as it is, unless it is a challenge: that is decoded
straight into the client's field.

* `Reply.Malformed`: the reply cannot be decoded as the message that its code announces.
* `Agrees`: what arrives of a challenge agrees with the one that the client has.
* **`malformed_reply`**: a malformed reply is ignored exactly if it is no challenge with other bytes
  than the client has.
-/

namespace Sst.RegCli

open Reg

/-- The identifiers of a search reply, and what comes before them, can be decoded. -/
def searchDecodes (lib : Library) (rs : Bytes) : Bool :=
  (RegHost.decodeSearch lib rs).any fun (_, _, nresults, rs) =>
    0 ≤ nresults && (RegHost.readIds nresults.toNat rs).isSome

/-- The rest of the reply cannot be decoded as the message that the code announces. -/
def Reply.Malformed (lib : Library) (r : Reply) : Prop :=
  (r.code = regResponse ||| regInsert1 → Xdr.readBytes r.rs = none) ∧
  (r.code = regResponse ||| regInsert2 → RegHost.decodeInsert2 r.rs = none) ∧
  (r.code = regResponse ||| regLookup ∨ r.code = regNotify ||| regLookup →
    RegHost.decodeLookup r.rs = none) ∧
  (r.code = regResponse ||| regSearch → searchDecodes lib r.rs = false)

/-- If the length of a challenge can be read, the client has a challenge of this length that begins
with what arrives of it. -/
def Agrees (chal rs : Bytes) : Prop :=
  ∀ len l, Xdr.readInt rs = some (len, l) → 0 ≤ len →
    chal.length = len.toNat ∧ l.take len.toNat <+: chal

variable {lib : Library} {h : RegHost} {c : Ptr}

/-! ## Reading into a variable -/

theorem readInto_snd_of_none (old junk : Bytes) {l : Bytes} (h : Xdr.readBytes l = none) :
    (Xdr.readInto old junk l).2 = none := by
  unfold Xdr.readBytes at h
  unfold Xdr.readInto
  cases hint : Xdr.readInt l with
  | none => rfl
  | some r =>
    obtain ⟨len, l'⟩ := r
    rw [hint, Option.bind_some] at h
    dsimp only at h ⊢
    split_ifs at h ⊢ with hneg hlen
    · rfl
    · rfl

/-- **A failed read** leaves the variable alone exactly if what arrives agrees with it. -/
theorem readInto_fst_eq_iff (old junk : Bytes) {rs : Bytes} :
    (Xdr.readInto old junk rs).1 = old ↔ Agrees old rs := by
  unfold Xdr.readInto Agrees
  cases hint : Xdr.readInt rs with
  | none => exact iff_of_true rfl fun _ _ hr => nomatch hr
  | some r =>
    obtain ⟨len, l⟩ := r
    dsimp only
    by_cases hneg : len < 0
    · rw [if_pos hneg]
      refine iff_of_true rfl fun len' l' hr hpos => ?_
      cases hr
      exact absurd hneg hpos.not_gt
    rw [if_neg hneg]
    dsimp only
    obtain ⟨n, hn⟩ : ∃ n, len.toNat = n := ⟨_, rfl⟩
    rw [hn]
    have hfill : ((old ++ junk ++ List.replicate n 0).take n).length = n := by
      rw [List.length_take, List.length_append, List.length_replicate]
      omega
    have hiff : l.take n ++ ((old ++ junk ++ List.replicate n 0).take n).drop l.length = old ↔
        old.length = n ∧ l.take n <+: old := by
      constructor
      · intro heq
        refine ⟨?_, ⟨_, heq⟩⟩
        have hlen := congrArg List.length heq
        rw [List.length_append, List.length_take, List.length_drop, hfill] at hlen
        omega
      · rintro ⟨rfl, hpre⟩
        obtain ⟨rest, hrest⟩ := hpre
        rw [List.append_assoc, List.take_left]
        rcases le_total l.length old.length with hle | hle
        · rw [List.take_of_length_le hle] at hrest ⊢
          rw [← hrest, List.drop_left]
        · rw [List.drop_eq_nil_of_le hle, List.append_nil]
          have hlen := congrArg List.length hrest
          rw [List.length_append, List.length_take, Nat.min_eq_left hle] at hlen
          rw [List.length_eq_zero_iff.mp (by omega : rest.length = 0), List.append_nil] at hrest
          exact hrest
    rw [hiff]
    constructor
    · intro hold len' l' hr _
      cases hr
      rw [hn]
      exact hold
    · intro hold
      rw [← hn]
      exact hold len l rfl (not_lt.mp hneg)

/-! ## Replies -/

theorem modify_eq_self_iff {f : RegClient → RegClient} :
    h.modify c f = h ↔ f (h.client c) = h.client c := by
  constructor
  · intro heq
    have := congrArg (fun k => RegHost.client k c) heq
    rwa [RegHost.modify_client_self] at this
  · intro heq
    rw [RegHost.modify, heq, Function.update_eq_self]

theorem gotInsert1Reply_eq_self_iff {rs junk : Bytes} (hrs : Xdr.readBytes rs = none) :
    h.gotInsert1Reply lib c rs junk = h ↔ Agrees (h.client c).chal rs := by
  have hsnd := readInto_snd_of_none (h.client c).chal junk hrs
  rw [← readInto_fst_eq_iff _ junk]
  unfold RegHost.gotInsert1Reply
  dsimp only
  rw [hsnd]
  refine modify_eq_self_iff.trans ?_
  generalize h.client c = cli
  cases cli
  simp only [RegClient.mk.injEq, true_and, and_true]

theorem gotSearchReply_eq_self {rs : Bytes} (hrs : searchDecodes lib rs = false) :
    h.gotSearchReply lib c rs = h := by
  unfold RegHost.gotSearchReply
  unfold searchDecodes at hrs
  cases hdec : RegHost.decodeSearch lib rs with
  | none => rfl
  | some r =>
    obtain ⟨text, complete, nresults, rs'⟩ := r
    rw [hdec, Option.any_some] at hrs
    dsimp only at hrs ⊢
    split_ifs with hneg hmem
    · rfl
    · have hpos : decide (0 ≤ nresults) = true := decide_eq_true (not_lt.mp hneg)
      rw [hpos, Bool.true_and] at hrs
      rw [Option.isNone_iff_eq_none.mp (Option.isSome_eq_false_iff.mp hrs)]
    · rfl

/-- **A malformed reply** leaves everything as it is exactly if what it brings of a challenge agrees
with the client's. -/
theorem dispatch_eq_self_iff {r : Reply} (hr : r.Malformed lib) (junk : Bytes) :
    h.dispatch lib c r.code r.rs junk = h ↔
      (r.code = regResponse ||| regInsert1 → Agrees (h.client c).chal r.rs) := by
  obtain ⟨h1, h2, h3, h4⟩ := hr
  unfold RegHost.dispatch
  split_ifs with hc1 hc2 hc3 hc4 hc5
  · rw [gotInsert1Reply_eq_self_iff (h1 hc1)]
    exact ⟨fun hh _ => hh, fun hh => hh hc1⟩
  · refine iff_of_true ?_ fun hc => absurd hc hc1
    rw [RegHost.gotInsert2Reply, h2 hc2]
  · refine iff_of_true ?_ fun hc => absurd hc hc1
    rw [RegHost.gotLookupReply, h3 (.inl hc3)]
  · exact iff_of_true (gotSearchReply_eq_self (h4 hc4)) fun hc => absurd hc hc1
  · refine iff_of_true ?_ fun hc => absurd hc hc1
    rw [RegHost.gotLookupReply, h3 (.inr hc5)]
  · exact iff_of_true rfl fun hc => absurd hc hc1

/-- **Malformed replies.** A datagram from the server of a client, with the client's nonce, the rest
of which cannot be decoded as the message that its code announces, changes nothing and emits nothing
exactly if it is not a challenge of which other bytes arrive than the client has. -/
theorem malformed_reply (lib : Library) {h : RegHost} {c : Ptr} {msg junk : Bytes} {src : Endpoint}
    {r : Reply} (hmsg : Reply.decode msg = some r) (hc : h.nhihash.lookup r.nhi = some c)
    (halive : h.alive c = true) (haddr : src.addr ∈ (h.client c).addrs)
    (hport : src.port = (h.client c).srvport) (hr : r.Malformed lib) :
    h.receive lib msg src junk = h ↔
      (r.code = regResponse ||| regInsert1 → Agrees (h.client c).chal r.rs) := by
  have hreceive : h.receive lib msg src junk = h.dispatch lib c r.code r.rs junk := by
    unfold RegHost.receive
    rw [hmsg]
    dsimp only
    rw [hc]
    dsimp only
    rw [halive, if_neg (by decide), if_neg]
    exact not_or.mpr ⟨not_not.mpr haddr, not_not.mpr hport⟩
  rw [hreceive]
  exact dispatch_eq_self_iff hr junk

/-- What follows the magic word in a reply to the first nonce. -/
def replyBytes (code : BitVec 32) (rs : Bytes) : Bytes :=
  Xdr.writeWord code ++ Xdr.writeBytes (nonce 1) ++ rs

/-- An Insert2 reply without its endpoint comes to a client that registers. -/
theorem malformed_reply_insert2 : ∃ h,
    (regHost plainLibrary).run (.new plainLibrary) registering = some h ∧
    h.receive plainLibrary (replyBytes (regResponse ||| regInsert2) (Xdr.writeWord 3600#32))
      ⟨.ip4 1#32, 80#16⟩ [] = h := by
  have hrun : ∃ h, (regHost plainLibrary).run (.new plainLibrary) registering = some h ∧
      h.nhihash.lookup (nonce 1) = some 0 ∧ h.alive 0 = true ∧
      HostAddress.ip4 1#32 ∈ (h.client 0).addrs ∧ 80#16 = (h.client 0).srvport :=
    ⟨_, rfl, rfl, rfl, by decide, rfl⟩
  obtain ⟨h, hrun, hc, halive, haddr, hport⟩ := hrun
  have hmsg : Reply.decode (replyBytes (regResponse ||| regInsert2) (Xdr.writeWord 3600#32)) =
      some ⟨regResponse ||| regInsert2, nonce 1, Xdr.writeWord 3600#32⟩ := by decide
  have hr : Reply.Malformed plainLibrary
      ⟨regResponse ||| regInsert2, nonce 1, Xdr.writeWord 3600#32⟩ :=
    ⟨by decide, fun _ => by decide, by decide, by decide⟩
  refine ⟨h, hrun, (malformed_reply plainLibrary hmsg hc halive haddr hport hr).mpr ?_⟩
  exact fun hcode => absurd hcode (by decide)

/-- The length of a challenge comes without the challenge: it is the client's challenge then, of
bytes that nobody sent. -/
theorem malformed_reply_challenge : ∃ h,
    (regHost plainLibrary).run (.new plainLibrary) registering = some h ∧
    (h.client 0).chal = [] ∧
    Xdr.readBytes (Xdr.writeWord 4#32) = none ∧
    ((h.receive plainLibrary (replyBytes (regResponse ||| regInsert1) (Xdr.writeWord 4#32))
      ⟨.ip4 1#32, 80#16⟩ [7, 7, 7, 7]).client 0).chal = [7, 7, 7, 7] :=
  ⟨_, rfl, rfl, by decide, rfl⟩

end Sst.RegCli
