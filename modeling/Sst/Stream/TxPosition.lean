import Sst.Stream.TxOrder

/-!
# Positions on the wire

A Data packet carries 32 bits of the position of its segment, an Init or Reply packet 16. `transmit`
takes the short form if the position, as a signed number, is at most `0xffff`.

* `TxWire.position`: the position that the receiver hands to `rxData`.
* `setWidth_ofInt_wrap_iff`: which positions the short form holds.
* **`position_received_iff`**: whenever a segment is sent, the receiver gets its position if and
  only if the attachment is acknowledged or the position is in the lower half of the 32-bit range.
* **`position_truncated`**: a segment sent in a Reply packet beyond `2 ^ 31` bytes.
-/

namespace Sst

open Word Transition

/-- The position that `rxInitPacket`, `rxReplyPacket` and `rxDataPacket` hand to `rxData`. -/
def TxWire.position : TxWire → BitVec 32
  | .init tsn | .reply tsn => tsn.setWidth 32
  | .data tsn => tsn

/-- The test of `transmit` lets the upper half of the range pass, where the position is negative. -/
theorem wrap_le_iff (n : ℕ) : wrap 32 n ≤ 0xffff ↔ n % 2 ^ 32 < 2 ^ 16 ∨ 2 ^ 31 ≤ n % 2 ^ 32 := by
  unfold wrap Int.bmod
  dsimp only
  split_ifs <;> omega

/-- The short form holds the position if it is less than `2 ^ 16`. -/
theorem setWidth_ofInt_wrap_iff (n : ℕ) :
    (BitVec.ofInt 16 (wrap 32 n)).setWidth 32 = BitVec.ofNat 32 n ↔ n % 2 ^ 32 < 2 ^ 16 := by
  rw [ofInt_wrap (by omega), ← BitVec.toNat_inj, BitVec.toNat_setWidth, BitVec.toNat_ofNat,
    BitVec.ofInt_natCast, BitVec.toNat_ofNat]
  omega

namespace TxStream

variable {s t : TxStream} {p : TxPacket} {wire : TxWire} {link : TxLink} {op : Op}

/-- **One segment**, of the position `n`. -/
theorem segment_position_iff {n : ℕ} (h : link.segment p = some wire) (hp : p.tsn = wrap 32 n) :
    wire.position = BitVec.ofNat 32 n ↔ link = .acked ∨ n % 2 ^ 32 < 2 ^ 31 := by
  have hshort : p.tsn ≤ 0xffff → ((BitVec.ofInt 16 p.tsn).setWidth 32 = BitVec.ofNat 32 n ↔
      n % 2 ^ 32 < 2 ^ 31) := by
    intro hle
    rw [hp] at hle ⊢
    rw [setWidth_ofInt_wrap_iff]
    rw [wrap_le_iff] at hle
    omega
  cases link with
  | acked =>
    cases h
    refine iff_of_true ?_ (.inl rfl)
    rw [TxWire.position, hp, ofInt_wrap le_rfl, BitVec.ofInt_natCast]
  | init =>
    obtain ⟨hle, hw⟩ := Option.ite_none_right_eq_some.mp h
    cases hw
    exact (hshort hle).trans (or_iff_right TxLink.noConfusion).symm
  | reply =>
    obtain ⟨hle, hw⟩ := Option.ite_none_right_eq_some.mp h
    cases hw
    exact (hshort hle).trans (or_iff_right TxLink.noConfusion).symm
  | attaching => cases h

/-! ## What is sent -/

theorem writeLoop_sent (s : TxStream) (data : List UInt8) (endflags : Flags) :
    (s.writeLoop data endflags).sent = s.sent := by
  fun_induction TxStream.writeLoop s data endflags with
  | case1 s data hlen => rfl
  | case2 s data hlen ih => exact ih

theorem writeFragments_sent (s : TxStream) (first : Bool) (data : List UInt8) :
    (s.writeFragments first data).sent = s.sent := by
  fun_induction TxStream.writeFragments s first data with
  | case1 s first data hlen => rfl
  | case2 s first data hlen ih => exact ih

/-- **A step** sends no segment, or one from the queue. -/
theorem step_sent (h : s.step op = some t) : t.sent = s.sent ∨
    ∃ link p wire, op = .transmit link ∧ p ∈ s.tqueue ∧ link.segment p = some wire ∧
      t.sent = (p, wire) :: s.sent := by
  cases op with
  | writeData x =>
    obtain ⟨-, ht⟩ := Option.ite_none_left_eq_some.mp h
    cases ht
    exact .inl (writeLoop_sent s _ _)
  | writeDatagram data reliable =>
    cases h
    rw [writeDatagram]
    split_ifs
    · exact .inl rfl
    · exact .inl (writeFragments_sent s _ _)
  | transmit link =>
    rcases transmit_cases h with ⟨l, -, rfl⟩ | ⟨p, l, wire, hl, hw, rfl⟩
    · exact .inl rfl
    · exact .inr ⟨link, p, wire, rfl, hl.subset List.mem_cons_self, hw, rfl⟩
  | acked i | expire i =>
    obtain ⟨r, -, rfl⟩ := Option.map_eq_some_iff.mp h
    exact .inl rfl
  | missed i =>
    obtain ⟨⟨p, late⟩, -, rfl⟩ := Option.map_eq_some_iff.mp h
    dsimp only
    split_ifs <;> exact .inl rfl

/-- A run after which one segment is queued, at a position beyond `2 ^ 31`. -/
theorem exists_distant : ∃ (s : TxStream) (p : TxPacket), txMachine.Reach Machine.always s ∧
    s.tqueue = [p] ∧ s.isStale p = false ∧ p.isDatagram = false ∧ p.pos = 2147484000 ∧
    p.tsn = wrap 32 2147484000 := by
  obtain ⟨s, hr, hq, -, he, hw⟩ := exists_idle 1789570
  obtain ⟨t, h1, hq1, hp, -, -, -, -⟩ := step_oneSegment hq he
  have hrt : txMachine.Reach Machine.always t := .step (i := oneSegment) hr trivial h1
  refine ⟨t, nextPacket s, hrt, hq1, hp, rfl, hw, ?_⟩
  change s.tasn = _
  rw [(tracked_of_reach hr).tasn, hw]
  rfl

end TxStream

open TxStream

/-- **The receiver gets the position** of a segment sent if and only if the attachment is
acknowledged, or the position is in the lower half of the 32-bit range. -/
theorem position_received_iff {s t : TxStream} {op : Op} (h : txMachine.Reach Machine.always s)
    (ht : s.step op = some t) : t.sent = s.sent ∨
      ∃ (link : TxLink) (p : TxPacket) (wire : TxWire), op = .transmit link ∧
        t.sent = (p, wire) :: s.sent ∧
        (wire.position = BitVec.ofNat 32 p.pos ↔ link = .acked ∨ p.pos % 2 ^ 32 < 2 ^ 31) := by
  refine (step_sent ht).imp_right ?_
  rintro ⟨link, p, wire, hop, hp, hw, hs⟩
  have htsn := (tracked_of_reach h).tsn p (mem_packets.mpr (.inl hp))
  exact ⟨link, p, wire, hop, hs, segment_position_iff hw htsn⟩

/-- **A segment beyond `2 ^ 31` bytes** goes in a Data packet, and its position arrives although it
is negative. -/
theorem position_received_negative : ∃ (s t : TxStream) (p : TxPacket),
    txMachine.Reach Machine.always s ∧ s.step (.transmit .acked) = some t ∧
      p.tsn < 0 ∧ p.pos = 2147484000 ∧ t.sent = (p, .data 2147484000#32) :: s.sent ∧
      TxWire.position (.data 2147484000#32) = BitVec.ofNat 32 p.pos := by
  obtain ⟨s, p, hr, hq, hp, hd, hpos, htsn⟩ := exists_distant
  have hwire : TxLink.acked.segment p = some (.data 2147484000#32) := by
    change some (TxWire.data (BitVec.ofInt 32 p.tsn)) = _
    rw [htsn]
    decide +kernel
  have h2 := step_transmit_one .acked hq hp hd hwire
  have hsent : (s.txData p [] (.data 2147484000#32)).sent =
      (p, .data 2147484000#32) :: s.sent := rfl
  refine ⟨s, _, p, hr, h2, by rw [htsn]; decide +kernel, hpos, hsent, ?_⟩
  rcases position_received_iff hr h2 with h | ⟨link, q, wire, hop, h, hiff⟩
  · exact absurd (hsent.symm.trans h) (List.cons_ne_self _ _)
  · rw [hsent] at h
    cases h
    cases hop
    exact hiff.mpr (.inl rfl)

/-- **A segment loses its position**: it is sent in a Reply packet beyond `2 ^ 31` bytes. -/
theorem position_truncated : ∃ s t : TxStream, txMachine.Reach Machine.always s ∧
    s.step (.transmit .reply) = some t ∧ ∃ p : TxPacket, p.isDatagram = false ∧
      p.pos = 2147484000 ∧ t.sent = (p, .reply 352#16) :: s.sent ∧
      TxWire.position (.reply 352#16) ≠ BitVec.ofNat 32 p.pos := by
  obtain ⟨s, p, hr, hq, hp, hd, hpos, htsn⟩ := exists_distant
  have hwire : TxLink.reply.segment p = some (.reply 352#16) := by
    change (if p.tsn ≤ 0xffff then some (TxWire.reply (BitVec.ofInt 16 p.tsn)) else none) = _
    rw [htsn]
    decide +kernel
  have h2 := step_transmit_one .reply hq hp hd hwire
  refine ⟨s, _, hr, h2, p, hd, hpos, rfl, ?_⟩
  rw [hpos]
  decide

end Sst
