import Sst.RegCli.Effects

/-!
# What a client does is its own

* `Local`: a function changes one client only, which its events, its frames and its resolutions
  belong to.
* `Works`: the client whose functions an operation runs.
* **`local_exec`**: every operation is local to the client it runs functions of.
* `Away`: what the other clients see of it.
-/

namespace Sst.RegCli

open Reg Transition

namespace RegHost

variable {lib : Library} {S : Scope} {h h' h'' : RegHost} {c d : Ptr}

/-! ## Local functions -/

/-- **A function local to the client `c`**: the others stay, and what it adds to the log, to the
resolutions under way and to the stack belongs to `c`. -/
structure Local (c : Ptr) (h h' : RegHost) : Prop where
  others : ∀ d, d ≠ c → h'.client d = h.client d
  log : ∃ es, h'.log = es ++ h.log ∧ ∀ e ∈ es, e.client = c
  hosts : ∀ p ∈ h'.lookupHosts, p.2 = c ∨ p ∈ h.lookupHosts
  frames : ∀ f ∈ h'.frames, f.client = c ∨ f ∈ h.frames

theorem Local.of_log (hc : ∀ d, d ≠ c → h'.client d = h.client d) (hl : h'.log = h.log)
    (hh : ∀ p ∈ h'.lookupHosts, p ∈ h.lookupHosts) (hf : ∀ f ∈ h'.frames, f ∈ h.frames) :
    Local c h h' where
  others := hc
  log := ⟨[], hl, fun _ he => absurd he List.not_mem_nil⟩
  hosts p hp := .inr (hh p hp)
  frames f hfm := .inr (hf f hfm)

theorem Local.refl (c : Ptr) (h : RegHost) : Local c h h :=
  .of_log (fun _ _ => rfl) rfl (fun _ hp => hp) fun _ hf => hf

theorem Local.trans (h₁ : Local c h h') (h₂ : Local c h' h'') : Local c h h'' where
  others d hd := (h₂.others d hd).trans (h₁.others d hd)
  log := by
    obtain ⟨es₁, hl₁, hc₁⟩ := h₁.log
    obtain ⟨es₂, hl₂, hc₂⟩ := h₂.log
    refine ⟨es₂ ++ es₁, by rw [hl₂, hl₁, List.append_assoc], fun e he => ?_⟩
    rcases List.mem_append.1 he with he | he
    · exact hc₂ e he
    · exact hc₁ e he
  hosts p hp := (h₂.hosts p hp).elim .inl (h₁.hosts p)
  frames f hf := (h₂.frames f hf).elim .inl (h₁.frames f)

/-- The actions of a client are local to it. -/
theorem Acts.toLocal (hA : Acts lib S c h h') : Local c h h' where
  others _ hd := hA.others hd
  log := hA.log
  hosts := hA.hosts
  frames f hf := by
    obtain ⟨fs, hfs, hc⟩ := hA.frames
    rw [hfs] at hf
    rcases List.mem_append.1 hf with hf | hf
    · exact .inl (hc f hf).1
    · exact .inr hf

theorem Local.create (h : RegHost) (c : Ptr) (persist : Bool) :
    Local c h (h.create lib c persist) where
  others _ hd := Function.update_of_ne hd ..
  log := ⟨[.regClientCreate c], rfl, fun e he => by rw [List.mem_singleton.1 he]; rfl⟩
  hosts _ hp := .inr hp
  frames _ hf := .inr hf

theorem Local.erase (h : RegHost) (c : Ptr) : Local c h (h.erase c) :=
  .of_log (fun _ _ => rfl) rfl (fun _ hp => List.mem_of_mem_filter hp) fun _ hf => hf

theorem Local.resume (h : RegHost) (ni : Bytes) (f : Frame) :
    Local f.client h (h.resume lib ni f) := by
  by_cases hf : f = .destroyed f.client
  · rw [hf]
    exact .erase h f.client
  · exact (resume_acts_all ni hf).toLocal

/-! ## Operations -/

/-- The operation runs functions of the client `c`. -/
def Works (h : RegHost) (c : Ptr) : Op → Prop
  | .create d _ => d = c
  | .receive msg src _ => ∃ r, h.Delivers msg src c r
  | .resume _ => ∃ f ∈ h.frames.head?, f.client = c
  | op => op.client = some c

/-- **Every operation is local** to the client it runs functions of. -/
theorem local_exec (lib : Library) (h : RegHost) (op : Op) :
    (∀ c, Local c h (h.exec lib op)) ∨ ∃ c, h.Works c op ∧ Local c h (h.exec lib op) := by
  have hown : ∀ c, op.client = some c → Local c h (h.exec lib op) := fun c hop =>
    (exec_acts_all hop).toLocal
  cases op with
  | create c persist => exact .inr ⟨c, rfl, .create h c persist⟩
  | receive msg src junk =>
    rcases h.receive_cases lib msg src junk with hr | ⟨hr, -⟩ | ⟨r, c, hd, hr⟩
    · refine .inl fun c => ?_
      rw [exec, hr]
      exact .refl c h
    · refine .inl fun c => ?_
      rw [exec, hr]
      exact .of_log (fun _ _ => rfl) rfl (fun _ hp => hp) fun _ hf => hf
    · refine .inr ⟨c, ⟨r, hd⟩, ?_⟩
      rw [exec, hr]
      exact (dispatch_acts_all h c r.code r.rs junk).toLocal
  | resume ni =>
    cases hfs : h.frames with
    | nil =>
      refine .inl fun c => ?_
      simp only [exec, hfs]
      exact .refl c h
    | cons f rest =>
      have hpop : Local f.client h { h with frames := rest } :=
        .of_log (fun _ _ => rfl) rfl (fun _ hp => hp)
          fun g hg => hfs ▸ List.mem_cons_of_mem f hg
      refine .inr ⟨f.client, ⟨f, by rw [hfs]; rfl, rfl⟩, ?_⟩
      simp only [exec, hfs]
      exact hpop.trans (.resume _ ni f)
  | _ => exact .inr ⟨_, rfl, hown _ rfl⟩

theorem log_exec (lib : Library) (h : RegHost) (op : Op) :
    ∃ es, (h.exec lib op).log = es ++ h.log := by
  rcases local_exec lib h op with hL | ⟨c, -, hL⟩
  · obtain ⟨es, hes, -⟩ := (hL 0).log
    exact ⟨es, hes⟩
  · obtain ⟨es, hes, -⟩ := hL.log
    exact ⟨es, hes⟩

/-! ## The other clients -/

/-- What the client `c` sees of the functions of the others. -/
structure Away (c : Ptr) (h h' : RegHost) : Prop where
  client : h'.client c = h.client c
  log : ∃ es, h'.log = es ++ h.log ∧ ∀ e ∈ es, e.client ≠ c
  hosts : ∀ p ∈ h'.lookupHosts, p.2 = c → p ∈ h.lookupHosts
  frames : ∀ f ∈ h'.frames, f.client = c → f ∈ h.frames

theorem Local.away (hL : Local d h h') (hcd : c ≠ d) : Away c h h' where
  client := hL.others c hcd
  log := by
    obtain ⟨es, hes, hc⟩ := hL.log
    refine ⟨es, hes, fun e he hec => hcd ?_⟩
    rw [← hec, hc e he]
  hosts p hp hpc := (hL.hosts p hp).resolve_left fun hpd => hcd (hpc.symm.trans hpd)
  frames f hf hfc := (hL.frames f hf).resolve_left fun hfd => hcd (hfc.symm.trans hfd)

theorem Away.exec {op : Op} (hw : ¬ h.Works c op) : Away c h (h.exec lib op) := by
  rcases local_exec lib h op with hL | ⟨d, hd, hL⟩
  · exact (hL (c + 1)).away (Nat.ne_of_lt c.lt_succ_self)
  · refine hL.away ?_
    rintro rfl
    exact hw hd

end RegHost

end Sst.RegCli
