import Sst.Sock.State
import Sst.Lib.Registry

/-!
# Channel demultiplexing

* `freeChannel_spec`: the search finds the first free channel, if there is one.
* `bindTo_spec`, `bind_spec`, `undo_spec`: what binding and unbinding do to the tables.
* `Sound`: the tables agree with the flows, no flow was bound automatically to channel 0, and
  magic values have 24 bits.
* **`demultiplexing`**: flows and channels, automatic binding, and what datagrams reach.
-/

namespace Sst.Sock

open Transition Registry
open Reg (Bytes)
open RegCli (Endpoint)

namespace SocketHost

/-! ## The search for a free channel -/

theorem toNat_succ {chan : Channel} (h : chan + 1 ≠ 0) : (chan + 1).toNat = chan.toNat + 1 := by
  have hlt := chan.toNat_lt
  have hne : chan.toNat + 1 ≠ 256 := fun he => h (UInt8.toNat_inj.mp (by
    rw [UInt8.toNat_add, UInt8.toNat_one, he]
    rfl))
  rw [UInt8.toNat_add, UInt8.toNat_one]
  exact Nat.mod_eq_of_lt (by omega)

/-- The search from `chan` on ends at a free channel, or all these channels are taken. -/
theorem freeChannel_spec (taken : Channel → Bool) {fuel : ℕ} {chan : Channel} (h0 : chan ≠ 0)
    (hf : 256 ≤ fuel + chan.toNat) :
    (freeChannel taken fuel chan = 0 ∧ ∀ c, chan.toNat ≤ c.toNat → taken c = true) ∨
      (freeChannel taken fuel chan ≠ 0 ∧ taken (freeChannel taken fuel chan) = false) := by
  induction fuel generalizing chan with
  | zero =>
    have := chan.toNat_lt
    omega
  | succ fuel ih =>
    rw [freeChannel]
    by_cases ht : taken chan = true
    · rw [if_pos ht]
      by_cases hw : chan + 1 = 0
      · rw [if_pos hw]
        refine .inl ⟨rfl, fun c hc => ?_⟩
        -- `chan` is the last channel
        have hlast : chan.toNat = 255 := by
          have h1 := congrArg UInt8.toNat hw
          have h2 := chan.toNat_lt
          rw [UInt8.toNat_add, UInt8.toNat_one, UInt8.toNat_zero] at h1
          omega
        have hc' := c.toNat_lt
        have heq : c = chan := UInt8.toNat_inj.mp (by omega)
        rw [heq, ht]
      · rw [if_neg hw]
        have hsucc := toNat_succ hw
        rcases ih hw (by omega) with ⟨h1, h2⟩ | h
        · refine .inl ⟨h1, fun c hc => ?_⟩
          by_cases heq : c = chan
          · rw [heq, ht]
          · have hne : c.toNat ≠ chan.toNat := fun he => heq (UInt8.toNat_inj.mp he)
            exact h2 c (by omega)
        · exact .inr h
    · rw [if_neg ht]
      exact .inr ⟨h0, Bool.eq_false_iff.mpr ht⟩

/-! ## Keys -/

/-- Where a flow is entered. -/
def key (s : SocketHost) (f : FlowId) : Option (SocketId × Endpoint × Channel) :=
  (s.flow f).bind SocketFlow.key

theorem key_setFlow (s : SocketHost) (f : FlowId) (fl : SocketFlow) :
    (s.setFlow f fl).key = Function.update s.key f fl.key := by
  funext g
  by_cases h : g = f
  · subst h
    simp only [key, setFlow, Function.update_self, Option.bind_some]
  · simp only [key, setFlow, Function.update_of_ne h]

theorem key_setFlow_same {s : SocketHost} {f : FlowId} {fl fl' : SocketFlow}
    (h : s.flow f = some fl) (hk : fl'.key = fl.key) : (s.setFlow f fl').key = s.key := by
  rw [key_setFlow, hk]
  have : s.key f = fl.key := by rw [key, h, Option.bind_some]
  rw [← this, Function.update_eq_self]

/-! ## Binding and unbinding -/

/-- `t` is `s` with the flow `f` entered under the key `k`. -/
structure Entered (s t : SocketHost) (f : FlowId) (k : SocketId × Endpoint × Channel)
    (automatic : Bool) : Prop where
  vacant : s.flows k = none
  unbound : s.key f = none
  flows : t.flows = Function.update s.flows k (some f)
  key : t.key = Function.update s.key f (some k)
  automatic : t.automatic = Function.update s.automatic f automatic
  receivers : t.receivers = s.receivers

theorem key_eq_none {s : SocketHost} {f : FlowId} {fl : SocketFlow} (h : s.flow f = some fl)
    (hs : fl.sock = none) : s.key f = none := by
  rw [key, h, Option.bind_some, SocketFlow.key, hs, Option.map_none]

/-- Binding to a channel fails if it is in use. -/
theorem bindTo_spec {s : SocketHost} {f : FlowId} {fl : SocketFlow} (sock : SocketId)
    (dst : Endpoint) (chan : Channel) (h : s.flow f = some fl) (ha : fl.active = false)
    (hs : fl.sock = none) :
    (s.bindTo f sock dst chan = some (false, s) ∧ s.flows (sock, dst, chan) ≠ none) ∨
      ∃ t, s.bindTo f sock dst chan = some (true, t) ∧
        Entered s t f (sock, dst, chan) false := by
  have hready : ¬(fl.active = true ∨ fl.sock ≠ none) := by
    rw [ha, hs]
    rintro (h | h)
    · cases h
    · exact h rfl
  by_cases hfree : s.flows (sock, dst, chan) = none
  · refine .inr ⟨?t, ?run, ?entered⟩
    case run =>
      simp only [bindTo, h, bindFlow]
      rw [if_neg hready, if_neg (not_not_intro hfree), if_pos hfree, Option.map_some]
    case entered => exact ⟨hfree, key_eq_none h hs, rfl, key_setFlow _ f _, rfl, rfl⟩
  · refine .inl ⟨?_, hfree⟩
    simp only [bindTo, h]
    rw [if_neg hready, if_pos hfree]

/-- **Automatic binding** finds a channel other than 0 that is free, or there is none. -/
theorem bind_spec {s : SocketHost} {f : FlowId} {fl : SocketFlow} (sock : SocketId)
    (dst : Endpoint) (h : s.flow f = some fl) (ha : fl.active = false) (hs : fl.sock = none) :
    (s.bind f sock dst = some (0, s) ∧ ∀ c, c ≠ 0 → s.flows (sock, dst, c) ≠ none) ∨
      ∃ chan t, s.bind f sock dst = some (chan, t) ∧ chan ≠ 0 ∧
        Entered s t f (sock, dst, chan) true := by
  have hready : ¬(fl.active = true ∨ fl.sock ≠ none) := by
    rw [ha, hs]
    rintro (h | h)
    · cases h
    · exact h rfl
  unfold bind
  simp only [h]
  rw [if_neg hready]
  have hone : (1 : Channel) ≠ 0 := by decide
  have hfuel : 256 ≤ 255 + (1 : Channel).toNat := by decide
  rcases freeChannel_spec (fun c => (s.flows (sock, dst, c)).isSome) hone hfuel with
    ⟨h1, h2⟩ | ⟨h1, h2⟩
  · rw [if_pos h1]
    refine .inl ⟨rfl, fun c hc => Option.isSome_iff_ne_none.mp (h2 c ?_)⟩
    have hne : c.toNat ≠ 0 := fun he => hc (UInt8.toNat_inj.mp he)
    exact Nat.pos_of_ne_zero hne
  · rw [if_neg h1]
    rcases bindTo_spec sock dst (freeChannel (fun c => (s.flows (sock, dst, c)).isSome) 255 1)
      h ha hs with ⟨-, h3⟩ | ⟨t, h3, h4⟩
    · exact absurd (Option.not_isSome_iff_eq_none.mp (Bool.eq_false_iff.mp h2)) h3
    · rw [h3, Option.map_some, if_pos rfl]
      refine .inr ⟨_, _, rfl, h1, h4.vacant, h4.unbound, h4.flows, h4.key, ?_, h4.receivers⟩
      simp only [h4.automatic, Function.update_idem]

theorem bind_ready {s t : SocketHost} {f : FlowId} {sock : SocketId} {dst : Endpoint}
    {chan : Channel} (h : s.bind f sock dst = some (chan, t)) :
    ∃ fl, s.flow f = some fl ∧ fl.active = false ∧ fl.sock = none := by
  unfold bind at h
  split at h
  · cases h
  · rename_i fl hfl
    refine ⟨fl, hfl, ?_⟩
    split at h
    · cases h
    · rename_i hready
      rw [not_or, not_not, Bool.not_eq_true] at hready
      exact hready

theorem bindTo_ready {s t : SocketHost} {f : FlowId} {sock : SocketId} {dst : Endpoint}
    {chan : Channel} {b : Bool} (h : s.bindTo f sock dst chan = some (b, t)) :
    ∃ fl, s.flow f = some fl ∧ fl.active = false ∧ fl.sock = none := by
  unfold bindTo at h
  split at h
  · cases h
  · rename_i fl hfl
    refine ⟨fl, hfl, ?_⟩
    split at h
    · cases h
    · rename_i hready
      rw [not_or, not_not, Bool.not_eq_true] at hready
      exact hready

/-- The rest of `unbind` takes out the flow, if it is bound, under its own key. -/
theorem undo_spec {s t : SocketHost} {f : FlowId} (h : s.undo f = some t) :
    t.automatic = s.automatic ∧ t.receivers = s.receivers ∧
      (t.flows = s.flows ∧ t.key = s.key ∧ s.key f = none ∨
        ∃ k, s.key f = some k ∧ t.flows = Function.update s.flows k none ∧
          t.key = Function.update s.key f none) := by
  unfold undo at h
  split at h
  · cases h
  rename_i fl hfl
  split at h
  · cases h
  split at h
  · rename_i hs
    cases h
    exact ⟨rfl, rfl, .inl ⟨rfl, rfl, key_eq_none hfl hs⟩⟩
  · rename_i sock hs
    dsimp only at h
    split at h
    · cases h
      refine ⟨rfl, rfl, .inr ⟨(sock, fl.remoteep, fl.localchan), ?_, rfl, ?_⟩⟩
      · rw [key, hfl, Option.bind_some, SocketFlow.key, hs, Option.map_some]
      · exact key_setFlow _ f _
    · cases h

/-! ## The invariant -/

/-- The tables agree with the flows, automatic binding never chose channel 0, and the magic values
of receivers leave the upper byte 0. -/
structure Sound (s : SocketHost) : Prop where
  paired : Paired s.flows s.key
  automatic : ∀ f k, s.key f = some k → s.automatic f = true → k.2.2 ≠ 0
  magic : ∀ m r, s.receivers m = some r → m ≤ 0xffffff#32

theorem sound_new : Sound new :=
  ⟨Paired.empty, fun _ _ h => absurd h (Option.some_ne_none _).symm,
    fun _ _ h => absurd h (Option.some_ne_none _).symm⟩

namespace Sound

variable {s t : SocketHost}

theorem of_eq (h : Sound s) (hf : t.flows = s.flows) (hk : t.key = s.key)
    (ha : t.automatic = s.automatic) (hr : t.receivers = s.receivers) : Sound t := by
  refine ⟨?_, ?_, ?_⟩
  · rw [hf, hk]
    exact h.paired
  · rw [hk, ha]
    exact h.automatic
  · rw [hr]
    exact h.magic

theorem enter (h : Sound s) {f : FlowId} {k : SocketId × Endpoint × Channel} {automatic : Bool}
    (he : Entered s t f k automatic) (h0 : automatic = true → k.2.2 ≠ 0) : Sound t := by
  refine ⟨?_, fun g k' hk ha => ?_, ?_⟩
  · rw [he.flows, he.key]
    exact h.paired.insert he.vacant he.unbound
  · rw [he.key] at hk
    rw [he.automatic] at ha
    by_cases hg : g = f
    · subst hg
      rw [Function.update_self] at hk ha
      cases hk
      exact h0 ha
    · rw [Function.update_of_ne hg] at hk ha
      exact h.automatic g k' hk ha
  · rw [he.receivers]
    exact h.magic

theorem undo (h : Sound s) {f : FlowId} (hu : s.undo f = some t) : Sound t := by
  obtain ⟨ha, hr, ⟨h1, h2, -⟩ | ⟨k, hk, h1, h2⟩⟩ := undo_spec hu
  · exact h.of_eq h1 h2 ha hr
  · refine ⟨?_, fun g k' hk' hg => ?_, ?_⟩
    · rw [h1, h2]
      exact h.paired.erase hk
    · rw [h2] at hk'
      rw [ha] at hg
      by_cases hgf : g = f
      · subst hgf
        rw [Function.update_self] at hk'
        cases hk'
      · rw [Function.update_of_ne hgf] at hk'
        exact h.automatic g k' hk' hg
    · rw [hr]
      exact h.magic

theorem setFlow (h : Sound s) {f : FlowId} {fl fl' : SocketFlow} (hf : s.flow f = some fl)
    (hk : fl'.key = fl.key) : Sound (s.setFlow f fl') :=
  h.of_eq rfl (key_setFlow_same hf hk) rfl rfl

theorem replace (h : Sound s) {f : FlowId} {o : Option SocketFlow} (hf : s.key f = none)
    (ho : o.bind SocketFlow.key = none) :
    Sound { s with flow := Function.update s.flow f o } := by
  refine h.of_eq rfl ?_ rfl rfl
  funext g
  by_cases hg : g = f
  · subst hg
    rw [hf]
    simp only [key, Function.update_self, ho]
  · simp only [key, Function.update_of_ne hg]

theorem unbindReceiver (h : Sound s) {r : ReceiverId} (hu : s.unbindReceiver r = some t) :
    Sound t := by
  unfold SocketHost.unbindReceiver at hu
  split at hu
  · cases hu
  rename_i mag hmag
  split at hu
  · cases hu
    exact h
  split at hu
  · cases hu
    refine ⟨h.paired, h.automatic, fun m r' hr => ?_⟩
    by_cases hm : m = mag
    · subst hm
      simp only [Function.update_self] at hr
      cases hr
    · simp only [Function.update_of_ne hm] at hr
      exact h.magic m r' hr
  · cases hu

/-- **One call keeps the tables sound.** -/
theorem exec (h : Sound s) {op : Op} (ht : s.exec op = some t) : Sound t := by
  cases op with
  | newFlow f localchan =>
    simp only [SocketHost.exec, newFlow] at ht
    split at ht
    · rename_i hf
      cases ht
      exact h.replace (by rw [key, hf, Option.bind_none]) rfl
    · cases ht
  | deleteFlow f =>
    simp only [SocketHost.exec, deleteFlow] at ht
    split at ht
    · cases ht
    obtain ⟨u, hu, ht⟩ := Option.bind_eq_some_iff.mp ht
    obtain ⟨v, hv, rfl⟩ := Option.map_eq_some_iff.mp ht
    obtain ⟨fl, hfl, rfl⟩ := Option.map_eq_some_iff.mp hu
    have hstop : Sound (s.setFlow f { fl with active := false }) := h.setFlow hfl rfl
    refine (hstop.undo hv).replace ?_ rfl
    obtain ⟨-, -, ⟨-, h2, h3⟩ | ⟨k, -, -, h2⟩⟩ := undo_spec hv
    · rw [h2, h3]
    · rw [h2, Function.update_self]
  | bind f sock dst =>
    obtain ⟨⟨chan, u⟩, hu, rfl⟩ := Option.map_eq_some_iff.mp ht
    obtain ⟨fl, hfl, ha, hs⟩ := bind_ready hu
    rcases bind_spec sock dst hfl ha hs with ⟨h1, -⟩ | ⟨chan', v, h1, h2, h3⟩
    · cases hu.symm.trans h1
      exact h
    · cases hu.symm.trans h1
      exact h.enter h3 fun _ => h2
  | bindTo f sock dst chan =>
    obtain ⟨⟨b, u⟩, hu, rfl⟩ := Option.map_eq_some_iff.mp ht
    obtain ⟨fl, hfl, ha, hs⟩ := bindTo_ready hu
    rcases bindTo_spec sock dst chan hfl ha hs with ⟨h1, -⟩ | ⟨v, h1, h2⟩
    · cases hu.symm.trans h1
      exact h
    · cases hu.symm.trans h1
      exact h.enter h2 Bool.noConfusion
  | setRemoteChannel f chan =>
    obtain ⟨fl, hfl, rfl⟩ := Option.map_eq_some_iff.mp ht
    exact h.setFlow hfl rfl
  | start f =>
    obtain ⟨fl, hfl, ht⟩ := Option.bind_eq_some_iff.mp ht
    split at ht
    · cases ht
    · cases ht
      exact h.setFlow hfl rfl
  | stop f =>
    obtain ⟨fl, hfl, rfl⟩ := Option.map_eq_some_iff.mp ht
    exact h.setFlow hfl rfl
  | unbind f =>
    obtain ⟨fl, hfl, rfl⟩ := Option.map_eq_some_iff.mp ht
    exact h.of_eq rfl rfl rfl rfl
  | unbound =>
    simp only [SocketHost.exec, unbound] at ht
    split at ht
    · cases ht
    · refine Sound.undo ?_ ht
      exact h.of_eq rfl rfl rfl rfl
  | newReceiver r =>
    simp only [SocketHost.exec, newReceiver] at ht
    split at ht
    · cases ht
      exact h.of_eq rfl rfl rfl rfl
    · cases ht
  | deleteReceiver r =>
    obtain ⟨u, hu, rfl⟩ := Option.map_eq_some_iff.mp ht
    exact (h.unbindReceiver hu).of_eq rfl rfl rfl rfl
  | bindReceiver r magic =>
    simp only [SocketHost.exec, bindReceiver] at ht
    split at ht
    · rename_i hm
      cases ht
      refine ⟨h.paired, h.automatic, fun m r' hr => ?_⟩
      by_cases hmm : m = magic
      · rw [hmm]
        exact hm.2.1
      · simp only [Function.update_of_ne hmm] at hr
        exact h.magic m r' hr
    · cases ht
  | unbindReceiver r => exact h.unbindReceiver ht

end Sound

/-! ## Datagrams -/

theorem head_of_magic {a b c d : UInt8} (h : Reg.Xdr.word a b c d ≤ 0xffffff#32) : a = 0 := by
  have hle : a.toNat * 2 ^ 24 ≤ (Reg.Xdr.word a b c d).toNat := by
    have hshift : ∀ {w : ℕ} (x : BitVec w) (y : UInt8),
        x.toNat * 2 ^ 8 ≤ (x ++ y.toBitVec).toNat := by
      intro w x y
      rw [BitVec.toNat_append, ← Nat.shiftLeft_eq]
      exact Nat.left_le_or
    calc a.toNat * 2 ^ 24
        = a.toBitVec.toNat * 2 ^ 8 * 2 ^ 8 * 2 ^ 8 := by rw [Nat.mul_assoc, Nat.mul_assoc]; rfl
      _ ≤ (a.toBitVec ++ b.toBitVec).toNat * 2 ^ 8 * 2 ^ 8 :=
          Nat.mul_le_mul_right _ (Nat.mul_le_mul_right _ (hshift _ b))
      _ ≤ (a.toBitVec ++ b.toBitVec ++ c.toBitVec).toNat * 2 ^ 8 :=
          Nat.mul_le_mul_right _ (hshift _ c)
      _ ≤ (Reg.Xdr.word a b c d).toNat := hshift _ d
  have hm : (Reg.Xdr.word a b c d).toNat ≤ 0xffffff := h
  exact UInt8.toNat_inj.mp (by rw [UInt8.toNat_zero]; omega)

theorem receive_flow {s : SocketHost} {sock : SocketId} {src : Endpoint} {msg : Bytes} {f : FlowId}
    (h : s.receive sock src msg = .flow f) :
    ∃ chan rest, msg = chan :: rest ∧ s.flows (sock, src, chan) = some f := by
  unfold receive at h
  split at h
  · split at h
    · rename_i hf
      cases h
      exact ⟨_, _, rfl, hf⟩
    · dsimp only at h
      split at h <;> cases h
  · cases h

theorem receive_receiver {s : SocketHost} {sock : SocketId} {src : Endpoint} {msg rs : Bytes}
    {r : ReceiverId} (h : s.receive sock src msg = .receiver r rs) :
    ∃ a b c d, msg = a :: b :: c :: d :: rs ∧ s.receivers (Reg.Xdr.word a b c d) = some r := by
  unfold receive at h
  split at h
  · split at h
    · cases h
    · dsimp only at h
      split at h
      · rename_i hr
        cases h
        exact ⟨_, _, _, _, rfl, hr⟩
      · cases h
  · cases h

end SocketHost

open SocketHost

theorem sound_reach {s : SocketHost} (h : socketHost.Reach Machine.always s) : s.Sound :=
  h.invariant sound_new fun _ _ _ _ hs _ ht => hs.exec ht

/-- **Channel demultiplexing.** In every state reached by binding, unbinding and registering:

* a bound flow is in the tables under one key, and a key leads to a flow that is bound to it;
* automatic binding of a flow that is neither active nor bound fails exactly if no channel other
  than 0 is free; otherwise it enters the flow under a free channel other than 0, and leaves
  everyone else where they are;
* a datagram whose first byte is 0 reaches no flow that was bound automatically;
* a datagram whose first byte is not 0 reaches no receiver. -/
theorem demultiplexing {s : SocketHost} (h : socketHost.Reach Machine.always s) :
    (∀ f fl sock, s.flow f = some fl → fl.sock = some sock → ∃! k, s.flows k = some f) ∧
    (∀ k f, s.flows k = some f → ∃ fl, s.flow f = some fl ∧ fl.key = some k) ∧
    (∀ f g fl gl k, s.flow f = some fl → s.flow g = some gl → fl.key = some k →
      gl.key = some k → f = g) ∧
    (∀ f fl sock dst, s.flow f = some fl → fl.active = false → fl.sock = none →
      ∃ chan t, s.bind f sock dst = some (chan, t) ∧
        (chan = 0 ↔ ∀ c, c ≠ 0 → s.flows (sock, dst, c) ≠ none) ∧
        (chan = 0 → t = s) ∧
        (chan ≠ 0 → s.flows (sock, dst, chan) = none ∧
          t.flows = Function.update s.flows (sock, dst, chan) (some f))) ∧
    (∀ sock src msg f, s.receive sock src msg = .flow f → msg.head? = some 0 →
      s.automatic f = false) ∧
    ∀ sock src msg r rs, s.receive sock src msg = .receiver r rs → msg.head? = some 0 := by
  have hs := sound_reach h
  have hkey : ∀ {f fl k}, s.flow f = some fl → fl.key = some k → s.key f = some k := by
    intro f fl k hf hk
    rw [key, hf, Option.bind_some, hk]
  refine ⟨fun f fl sock hf hsock => ?_, fun k f hk => ?_, fun f g fl gl k hf hg hfk hgk => ?_,
    fun f fl sock dst hf ha hsock => ?_, fun sock src msg f hr h0 => ?_,
    fun sock src msg r rs hr => ?_⟩
  · have hk : fl.key = some (sock, fl.remoteep, fl.localchan) := by
      rw [SocketFlow.key, hsock, Option.map_some]
    exact hs.paired.existsUnique (hkey hf hk)
  · exact Option.bind_eq_some_iff.mp ((hs.paired k f).mp hk)
  · exact hs.paired.owner_unique (hkey hf hfk) (hkey hg hgk)
  · rcases bind_spec sock dst hf ha hsock with ⟨h1, h2⟩ | ⟨chan, t, h1, h2, h3⟩
    · exact ⟨0, s, h1, iff_of_true rfl h2, fun _ => rfl, fun hne => absurd rfl hne⟩
    · refine ⟨chan, t, h1, iff_of_false h2 fun hall => hall chan h2 h3.vacant,
        fun h0 => absurd h0 h2, fun _ => ⟨h3.vacant, h3.flows⟩⟩
  · obtain ⟨chan, rest, rfl, hf⟩ := receive_flow hr
    cases h0
    refine Bool.eq_false_iff.mpr fun hauto => ?_
    exact hs.automatic f _ ((hs.paired _ f).mp hf) hauto rfl
  · obtain ⟨a, b, c, d, rfl, hmag⟩ := receive_receiver hr
    rw [head_of_magic (hs.magic _ _ hmag)]
    rfl

/-- Two flows bound automatically to one endpoint: the second has channel 2. -/
theorem demultiplexing_two : ∃ s, socketHost.run socketHost.init
    [.newFlow 0 7, .bind 0 1 .null, .newFlow 1 7, .bind 1 1 .null] = some s ∧
      (∃! k, s.flows k = some 1) ∧ s.receive 1 .null [2, 0, 0, 0] = .flow 1 := by
  have hrun : ∃ s, socketHost.run socketHost.init
      [.newFlow 0 7, .bind 0 1 .null, .newFlow 1 7, .bind 1 1 .null] = some s ∧
        s.flow 1 = some ⟨some 1, .null, 2, 0, false⟩ ∧
        s.receive 1 .null [2, 0, 0, 0] = .flow 1 := ⟨_, rfl, rfl, rfl⟩
  obtain ⟨s, hs, hf, hr⟩ := hrun
  exact ⟨s, hs, (demultiplexing (Machine.reach_of_run hs)).1 1 _ 1 hf rfl, hr⟩

end Sst.Sock
