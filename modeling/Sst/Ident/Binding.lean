import Sst.Ident.State

/-!
# Identity binding

* `IdentData.Bound`: a key is valid and its fingerprint is the identifier.
* `IdentData.bound_setKey`, `IdentData.bound_copy`: setting a key and copying the data keep it so.
* `IdentHost.sound_exec`, `IdentHost.get_exec`: what one call keeps, and what it leaves alone.
* **`identity_binding`**: keys and identifiers over all runs.
-/

namespace Sst.Ident

open Transition CopyOnWrite
open Reg (Bytes)

variable {lib : KeyLibrary}

/-! ## The shared data -/

namespace IdentData

/-- A key is valid, and its fingerprint with the scheme is the identifier. -/
def Bound (dat : IdentData lib) : Prop :=
  ∀ sch (k : lib.Key sch), dat.k = some ⟨sch, k⟩ →
    lib.type k ≠ .invalid ∧ withScheme sch (lib.id k) = dat.id

theorem bound_of_none {dat : IdentData lib} (h : dat.k = none) : dat.Bound := by
  intro sch k hk
  rw [h] at hk
  cases hk

/-- **What setting a key does:** it is refused, and no key is left, or it belongs to the identifier,
whose scheme decodes it. -/
theorem setKey_spec (dat : IdentData lib) (key : Bytes) :
    dat.setKey key = (false, ⟨dat.id, none⟩) ∨
      ∃ sch, Scheme.ofNumber (dat.id.headD 0 >>> 2) = some sch ∧
        lib.type (lib.ofBytes sch key) ≠ .invalid ∧
        withScheme sch (lib.id (lib.ofBytes sch key)) = dat.id ∧
        dat.setKey key = (true, ⟨dat.id, some ⟨sch, lib.ofBytes sch key⟩⟩) := by
  simp only [setKey, clearKey]
  split
  · exact .inl rfl
  · rename_i sch hsch
    by_cases h1 : lib.type (lib.ofBytes sch key) = .invalid
    · exact .inl (if_pos h1)
    by_cases h2 : withScheme sch (lib.id (lib.ofBytes sch key)) = dat.id
    · exact .inr ⟨sch, hsch, h1, h2, (if_neg h1).trans (if_neg (not_not_intro h2))⟩
    · exact .inl ((if_neg h1).trans (if_pos h2))

theorem setKey_true {d : IdentData lib} {key : Bytes} {sch : Scheme}
    (hsch : Scheme.ofNumber (d.id.headD 0 >>> 2) = some sch)
    (h1 : lib.type (lib.ofBytes sch key) ≠ .invalid)
    (h2 : withScheme sch (lib.id (lib.ofBytes sch key)) = d.id) :
    d.setKey key = (true, ⟨d.id, some ⟨sch, lib.ofBytes sch key⟩⟩) := by
  simp only [setKey, clearKey, hsch]
  exact (if_neg h1).trans (if_neg (not_not_intro h2))

theorem setKey_id (dat : IdentData lib) (key : Bytes) : (dat.setKey key).2.id = dat.id := by
  rcases dat.setKey_spec key with h | ⟨sch, -, -, -, h⟩ <;> rw [h]

theorem setKey_false {dat : IdentData lib} {key : Bytes} (h : (dat.setKey key).1 = false) :
    (dat.setKey key).2.k = none := by
  rcases dat.setKey_spec key with h' | ⟨sch, -, -, -, h'⟩
  · rw [h']
  · rw [h'] at h
    cases h

theorem bound_setKey (dat : IdentData lib) (key : Bytes) : (dat.setKey key).2.Bound := by
  rcases dat.setKey_spec key with h | ⟨sch, -, h1, h2, h⟩
  · exact bound_of_none (by rw [h])
  · intro sch' k hk
    rw [h] at hk ⊢
    cases hk
    exact ⟨h1, h2⟩

theorem copy_id (dat : IdentData lib) : dat.copy.id = dat.id := by
  unfold copy
  split
  · rfl
  · exact setKey_id _ _

theorem bound_copy (dat : IdentData lib) : dat.copy.Bound := by
  unfold copy
  split
  · exact bound_of_none rfl
  · exact bound_setKey _ _

theorem ofNumber_withScheme (sch : Scheme) (kid : Bytes) :
    Scheme.ofNumber ((withScheme sch kid).headD 0 >>> 2) = some sch := by
  have hshift : sch.number <<< 2 >>> 2 = sch.number := by cases sch <;> decide
  rw [withScheme, List.headD_cons, hshift]
  cases sch <;> decide

/-- **A copy has a key like that of the original:** of its scheme, its type and with its
fingerprint. -/
theorem copy_key (hlib : lib.Lawful) {dat : IdentData lib} (h : dat.Bound) {sch : Scheme}
    {k : lib.Key sch} (hk : dat.k = some ⟨sch, k⟩) :
    ∃ k' : lib.Key sch, dat.copy.k = some ⟨sch, k'⟩ ∧ lib.type k' = lib.type k ∧
      lib.id k' = lib.id k := by
  obtain ⟨hvalid, hid⟩ := h sch k hk
  have htype := hlib.type_ofBytes k hvalid
  have hfp := hlib.id_ofBytes k hvalid
  refine ⟨lib.ofBytes sch (lib.key k (lib.type k = .privateKey)), ?_, htype, hfp⟩
  have hsch : Scheme.ofNumber (dat.id.headD 0 >>> 2) = some sch := by
    rw [← hid]
    exact ofNumber_withScheme sch _
  have hset := setKey_true (d := ⟨dat.id, none⟩) hsch (htype.trans_ne hvalid)
    ((congrArg (withScheme sch) hfp).trans hid)
  simp only [copy, hk, hset]

theorem copy_none {dat : IdentData lib} (hk : dat.k = none) : dat.copy.k = none := by
  simp only [copy, hk]

theorem copy_haveKey (hlib : lib.Lawful) {dat : IdentData lib} (h : dat.Bound) :
    dat.copy.haveKey = dat.haveKey ∧ dat.copy.havePrivateKey = dat.havePrivateKey := by
  cases hk : dat.k with
  | none => simp only [haveKey, havePrivateKey, copy_none hk, hk, and_self]
  | some k =>
    obtain ⟨sch, k⟩ := k
    obtain ⟨k', hk', htype, -⟩ := copy_key hlib h hk
    simp only [haveKey, havePrivateKey, hk', hk, htype, and_self]

theorem exists_key {dat : IdentData lib} (h : dat.haveKey = true ∨ dat.havePrivateKey = true) :
    ∃ sch, ∃ k : lib.Key sch, dat.k = some ⟨sch, k⟩ := by
  cases hk : dat.k with
  | none =>
    simp only [haveKey, havePrivateKey, hk] at h
    rcases h with h | h <;> cases h
  | some k => exact ⟨k.1, k.2, rfl⟩

end IdentData

/-! ## Calls -/

namespace IdentHost

variable {s t : IdentHost lib}

/-- The data of every `Ident` is bound. -/
def Sound (s : IdentHost lib) : Prop := s.heap.All IdentData.Bound

theorem sound_new : Sound (new lib) :=
  ((Heap.All.empty (P := @IdentData.Bound lib)).make (IdentData.bound_of_none rfl) _).share _ _

theorem sound_access (h : Sound s) (x : Handle) : Sound (s.access x) :=
  h.detach (fun v _ => v.bound_copy) x

theorem sound_setID (h : Sound s) (x : Handle) (id : Bytes) : Sound (s.setID x id) :=
  h.modify (fun v _ => v.bound_copy) (fun _ _ => IdentData.bound_of_none rfl) x

/-- What `setKey` does: it succeeds as it does on the data, which is that of one `Ident`. -/
theorem setKey_spec {x : Handle} {key : Bytes} {ok : Bool} (h : s.setKey x key = some (ok, t)) :
    ∃ dat, (s.access x).heap.get x = some dat ∧ dat.id ≠ [] ∧ ok = (dat.setKey key).1 ∧
      t.heap = s.heap.modify IdentData.copy (fun dat => (dat.setKey key).2) x ∧
      t.heap.get x = some (dat.setKey key).2 := by
  simp only [setKey] at h
  split at h
  · cases h
  rename_i dat hdat
  split at h
  · cases h
  rename_i hid
  cases h
  refine ⟨dat, hdat, hid, rfl, rfl, ?_⟩
  cases hv : s.heap.get x with
  | none =>
    simp only [access, Heap.detach, hv] at hdat
    cases hdat
  | some v =>
    simp only [access, Heap.get_detach_self _ hv] at hdat
    cases hdat
    exact Heap.get_modify_self hv

theorem sound_setKey (h : Sound s) {x : Handle} {key : Bytes} {ok : Bool}
    (ht : s.setKey x key = some (ok, t)) : Sound t := by
  obtain ⟨dat, -, -, -, hheap, -⟩ := setKey_spec ht
  rw [Sound, hheap]
  exact h.modify (fun v _ => v.bound_copy) (fun v _ => v.bound_setKey key) x

theorem sound_generate (h : Sound s) {x : Handle} {sch : Scheme} {k : lib.Key sch}
    (ht : s.generate x k = some t) : Sound t := by
  simp only [generate] at ht
  split at ht
  · rename_i hk
    cases ht
    refine Heap.All.make h (fun sch' k' hk' => ?_) x
    cases hk'
    exact ⟨fun hinv => KeyType.noConfusion (hk.symm.trans hinv), rfl⟩
  · cases ht

theorem sound_renewHostIdent (h : Sound s) {k : lib.Key .rsa160}
    (ht : s.renewHostIdent k = some t) : Sound t := by
  obtain ⟨u, hu, rfl⟩ := Option.map_eq_some_iff.mp ht
  have hgen : Sound u := sound_generate h hu
  exact hgen

/-- **One call keeps keys bound.** -/
theorem sound_exec (h : Sound s) {op : Op lib} (ht : s.exec op = some t) : Sound t := by
  cases op with
  | ofId n id =>
    cases ht
    exact Heap.All.make h (IdentData.bound_of_none rfl) _
  | assign x n =>
    simp only [exec] at ht
    split at ht <;> cases ht
    exact Heap.All.share h x _
  | destroy n =>
    cases ht
    exact Heap.All.drop h _
  | access n =>
    simp only [exec] at ht
    split at ht <;> cases ht
    exact sound_access h _
  | setID n id =>
    simp only [exec] at ht
    split at ht <;> cases ht
    exact sound_setID h _ id
  | setKey n key =>
    obtain ⟨⟨ok, u⟩, hu, rfl⟩ := Option.map_eq_some_iff.mp ht
    exact sound_setKey h hu
  | generate n sch k => exact sound_generate h ht
  | hostIdent n create k =>
    simp only [exec, hostIdent] at ht
    split at ht
    · cases ht
      exact Heap.All.share h _ _
    · obtain ⟨u, hu, rfl⟩ := Option.map_eq_some_iff.mp ht
      exact Heap.All.share (sound_generate h hu) _ _
  | setHostIdent x =>
    simp only [exec] at ht
    split at ht <;> cases ht
    exact Heap.All.share h x _
  | initHostIdent settings k =>
    simp only [exec, initHostIdent] at ht
    split at ht
    · cases ht
      exact h
    split at ht
    · exact sound_generate h ht
    split at ht
    · obtain ⟨⟨ok, u⟩, hu, ht⟩ := Option.bind_eq_some_iff.mp ht
      have hset : Sound u := sound_setKey (sound_setID h _ _) hu
      dsimp only at ht
      split at ht
      · cases ht
        exact hset
      · exact sound_renewHostIdent hset ht
    · exact sound_renewHostIdent h ht

/-! ## What a call leaves alone -/

theorem get_generate {x y : Handle} {sch : Scheme} {k : lib.Key sch}
    (ht : s.generate x k = some t) (hne : y ≠ x) : t.heap.get y = s.heap.get y := by
  simp only [generate] at ht
  split at ht
  · cases ht
    exact Heap.get_make_of_ne _ _ hne
  · cases ht

theorem get_renewHostIdent {y : Handle} {k : lib.Key .rsa160} (ht : s.renewHostIdent k = some t)
    (hne : y ≠ .host) : t.heap.get y = s.heap.get y := by
  obtain ⟨u, hu, rfl⟩ := Option.map_eq_some_iff.mp ht
  have hgen : u.heap.get y = s.heap.get y := get_generate hu hne
  exact hgen

theorem get_setKey {x y : Handle} {key : Bytes} {ok : Bool} (ht : s.setKey x key = some (ok, t))
    (hne : y ≠ x) : t.heap.get y = s.heap.get y := by
  obtain ⟨dat, -, -, -, hheap, -⟩ := setKey_spec ht
  rw [hheap]
  exact Heap.get_modify_of_ne _ _ _ hne

/-- **A call changes its own `Ident` objects only.** -/
theorem get_exec {op : Op lib} (ht : s.exec op = some t) {y : Handle} (hy : y ∉ op.targets) :
    t.heap.get y = s.heap.get y := by
  cases op with
  | ofId n id =>
    cases ht
    exact Heap.get_make_of_ne _ _ (List.ne_of_not_mem_cons hy)
  | assign x n =>
    simp only [exec] at ht
    split at ht <;> cases ht
    exact Heap.get_share_of_ne _ x (List.ne_of_not_mem_cons hy)
  | destroy n =>
    cases ht
    exact Heap.get_drop_of_ne _ (List.ne_of_not_mem_cons hy)
  | access n =>
    simp only [exec] at ht
    split at ht <;> cases ht
    exact Heap.get_detach_of_ne _ _ (List.ne_of_not_mem_cons hy)
  | setID n id =>
    simp only [exec] at ht
    split at ht <;> cases ht
    exact Heap.get_modify_of_ne _ _ _ (List.ne_of_not_mem_cons hy)
  | setKey n key =>
    obtain ⟨⟨ok, u⟩, hu, rfl⟩ := Option.map_eq_some_iff.mp ht
    exact get_setKey hu (List.ne_of_not_mem_cons hy)
  | generate n sch k => exact get_generate ht (List.ne_of_not_mem_cons hy)
  | hostIdent n create k =>
    have hhost := List.ne_of_not_mem_cons hy
    have hn := List.ne_of_not_mem_cons (List.not_mem_of_not_mem_cons hy)
    simp only [exec, hostIdent] at ht
    split at ht
    · cases ht
      exact Heap.get_share_of_ne _ _ hn
    · obtain ⟨u, hu, rfl⟩ := Option.map_eq_some_iff.mp ht
      exact (Heap.get_share_of_ne _ _ hn).trans (get_generate hu hhost)
  | setHostIdent x =>
    simp only [exec] at ht
    split at ht <;> cases ht
    exact Heap.get_share_of_ne _ x (List.ne_of_not_mem_cons hy)
  | initHostIdent settings k =>
    have hhost := List.ne_of_not_mem_cons hy
    simp only [exec, initHostIdent] at ht
    split at ht
    · cases ht
      rfl
    split at ht
    · exact get_generate ht hhost
    split at ht
    · obtain ⟨⟨ok, u⟩, hu, ht⟩ := Option.bind_eq_some_iff.mp ht
      have hset : u.heap.get y = s.heap.get y :=
        (get_setKey hu hhost).trans (Heap.get_modify_of_ne _ _ _ hhost)
      dsimp only at ht
      split at ht
      · cases ht
        exact hset
      · exact (get_renewHostIdent ht hhost).trans hset
    · exact get_renewHostIdent ht hhost

end IdentHost

/-- **Identity binding.** In every state reached by the calls, with a codec that round-trips:

* the key of an `Ident` that has one has the identifier as its fingerprint, with the scheme;
* a `setKey` that fails leaves no key, and the identifier;
* a call changes neither identifier nor key of an `Ident` that is not its own;
* detaching an `Ident` from those it shares data with keeps its identifier, the kind of its key and
  the key's fingerprint. -/
theorem identity_binding (hlib : lib.Lawful) {s : IdentHost lib}
    (h : (identHost lib).Reach Machine.always s) :
    (∀ x dat, s.heap.get x = some dat → dat.haveKey = true ∨ dat.havePrivateKey = true →
      ∃ sch, ∃ k : lib.Key sch, dat.k = some ⟨sch, k⟩ ∧ withScheme sch (lib.id k) = dat.id) ∧
    (∀ x key t, s.setKey x key = some (false, t) → ∃ dat dat', s.heap.get x = some dat ∧
      t.heap.get x = some dat' ∧ dat'.id = dat.id ∧ dat'.k = none) ∧
    (∀ op t x, s.exec op = some t → x ∉ op.targets → t.heap.get x = s.heap.get x) ∧
    ∀ x dat, s.heap.get x = some dat → ∃ dat', (s.access x).heap.get x = some dat' ∧
      dat'.id = dat.id ∧ dat'.haveKey = dat.haveKey ∧ dat'.havePrivateKey = dat.havePrivateKey ∧
      ∀ sch (k : lib.Key sch), dat.k = some ⟨sch, k⟩ →
        ∃ k' : lib.Key sch, dat'.k = some ⟨sch, k'⟩ ∧ lib.id k' = lib.id k := by
  have hs : s.Sound := Machine.Reach.invariant (P := IdentHost.Sound) IdentHost.sound_new
    (fun _ _ _ _ hs _ ht => IdentHost.sound_exec hs ht) h
  refine ⟨fun x dat hx hkey => ?_, fun x key t ht => ?_, fun op t x ht hx => ?_,
    fun x dat hx => ?_⟩
  · obtain ⟨sch, k, hk⟩ := IdentData.exists_key hkey
    exact ⟨sch, k, hk, (hs x dat hx sch k hk).2⟩
  · obtain ⟨dat, hd, -, hok, -, hget⟩ := IdentHost.setKey_spec ht
    cases hx : s.heap.get x with
    | none =>
      simp only [IdentHost.access, Heap.detach, hx] at hd
      cases hd
    | some v =>
      have hid : dat.id = v.id := by
        simp only [IdentHost.access, Heap.get_detach_self _ hx] at hd
        cases hd
        split_ifs
        · exact v.copy_id
        · rfl
      exact ⟨v, _, rfl, hget, (dat.setKey_id key).trans hid, IdentData.setKey_false hok.symm⟩
  · exact IdentHost.get_exec ht hx
  · have hb := hs x dat hx
    refine ⟨_, Heap.get_detach_self _ hx, ?_⟩
    split_ifs
    · obtain ⟨h1, h2⟩ := IdentData.copy_haveKey hlib hb
      refine ⟨dat.copy_id, h1, h2, fun sch k hk => ?_⟩
      obtain ⟨k', hk', -, hid⟩ := IdentData.copy_key hlib hb hk
      exact ⟨k', hk', hid⟩
    · exact ⟨rfl, rfl, rfl, fun sch k hk => ⟨k, hk, rfl⟩⟩

/-- Public keys that are their own encoding; nothing is decoded from no bytes. -/
def plainKeys : KeyLibrary where
  Key _ := Bytes
  ofBytes _ key := key
  type key := if key = [] then .invalid else .publicKey
  id key := key.take 20
  key key _ := key

theorem plainKeys_lawful : plainKeys.Lawful := ⟨fun _ _ => rfl, fun _ _ => rfl⟩

/-- Two `Ident` objects share a key; the one whose new key is refused loses it. -/
theorem identity_binding_two : ∃ s t dat,
    (identHost plainKeys).run (identHost plainKeys).init
      [.ofId 0 [44, 7], .setKey 0 [1, 7], .assign (.ident 0) 1] = some s ∧
    s.setKey (.ident 1) [] = some (false, t) ∧ t.heap.get (.ident 1) = some dat ∧ dat.k = none ∧
      s.exec (.setKey 1 []) = some t ∧ t.heap.get (.ident 0) = s.heap.get (.ident 0) := by
  have hrun : (((identHost plainKeys).run (identHost plainKeys).init
      [.ofId 0 [44, 7], .setKey 0 [1, 7], .assign (.ident 0) 1]).bind fun s =>
        s.setKey (.ident 1) []).map Prod.fst = some false := by decide +kernel
  obtain ⟨⟨ok, t⟩, hbind, hok⟩ := Option.map_eq_some_iff.mp hrun
  obtain ⟨s, hs, ht⟩ := Option.bind_eq_some_iff.mp hbind
  dsimp only at hok
  subst hok
  obtain ⟨-, h2, h3, -⟩ := identity_binding plainKeys_lawful (Machine.reach_of_run hs)
  obtain ⟨-, dat, -, hdat, -, hk⟩ := h2 (.ident 1) [] t ht
  have hexec : s.exec (.setKey 1 []) = some t := Option.map_eq_some_iff.mpr ⟨_, ht, rfl⟩
  exact ⟨s, t, dat, hs, ht, hdat, hk, hexec, h3 _ t (.ident 0) hexec (by decide)⟩

end Sst.Ident
