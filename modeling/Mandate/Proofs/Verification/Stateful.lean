/-
  Mandate.Proofs.Verification.Stateful
  ────────────────────────────────
  **CHECKS WHOSE COLLABORATORS HAVE A STATE.**

  A resolver may change what it will answer next, a cache does so at every question, and
  demands on proofs may come with a state of their own.  A check asks its resolver first and
  once at most, so the answer that it judges by is the one of the state that it starts in.

  Main results:
    * `run_bind`               — one step after the other;
    * `run_verify`             — the record of an outcome does not change it;
    * `run_examine_eq_ok_iff`  — a check ends well exactly if every phase does, in the state
                                 that the phase before has left;
    * `rootedAt_of_judge`      — and then its capability is one hop away from its root at
                                 most.
-/
import Mandate.Proofs.Verification.Phases

namespace Mandate

/-- Of two steps, the second is taken in the state that the first has left. -/
theorem run_bind {σ α β : Type} (x : StateM σ α) (f : α → StateM σ β) (s : σ) :
    (x >>= f).run s = (f (x.run s).1).run (x.run s).2 := rfl

namespace Verification

variable {σ : Type} {proof : Proof} {inv : Invocation} {p : Purpose (StateM σ)}
  {ps : List (Purpose (StateM σ))} {s t : σ}

/-- A demand that is not met ends the run over the demands. -/
theorem run_meet_of_error {e : Failure} (h : (p proof inv).run s = (.error e, t)) :
    (meet proof inv (p :: ps)).run s = (.error e, t) := by
  unfold meet
  rw [run_bind, h]
  rfl

/-- Behind a demand that is met, the run goes on in the state that this one has left. -/
theorem run_meet_of_ok (h : (p proof inv).run s = (.ok (), t)) :
    (meet proof inv (p :: ps)).run s = (meet proof inv ps).run t := by
  conv_lhs => unfold meet
  rw [run_bind, h]

/-- Where all demands are met, each of them is met in the state that it finds. -/
theorem exists_met_of_meet (h : ((meet proof inv ps).run s).1 = .ok ()) :
    ∀ p ∈ ps, ∃ t, ((p proof inv).run t).1 = .ok () := by
  induction ps generalizing s with
  | nil => exact nofun
  | cons p ps ih =>
      cases hp : (p proof inv).run s with
      | mk result t =>
          cases result with
          | error e =>
              rw [run_meet_of_error hp] at h
              cases h
          | ok u =>
              rw [run_meet_of_ok hp] at h
              exact List.forall_mem_cons.mpr ⟨⟨s, congrArg Prod.fst hp⟩, ih h⟩

end Verification

namespace Verifier

open Verification

variable {σ : Type} {v : Verifier (StateM σ)} {proof : Proof} {inv : Invocation} {s : σ}

/-- The record of an outcome leaves the outcome as it is. -/
theorem run_verify : ((v.verify proof inv).run s).1 = ((v.examine proof inv).run s).1 := by
  unfold verify
  rw [run_bind]
  cases event? proof ((v.examine proof inv).run s).1 <;> rfl

/-- Where the answer of the resolver does not authorize, the check ends with it. -/
theorem run_examine_of_refused {c : Capability} {uri : Text} {e : Failure}
    (hc : proof.capability = some c) (huri : anchor v.known c proof.action inv = .ok uri)
    (hassess : assess v.now c proof.action inv uri ((v.resolve uri).run s).1 = .error e) :
    (v.examine proof inv).run s = (.error e, ((v.resolve uri).run s).2) := by
  simp only [examine, hc, huri]
  rw [run_bind, hassess]
  rfl

/-- Where it does, the demands are looked at in the state that the resolver has left. -/
theorem run_examine_of_passed {c : Capability} {uri : Text} (hc : proof.capability = some c)
    (huri : anchor v.known c proof.action inv = .ok uri)
    (hassess : assess v.now c proof.action inv uri ((v.resolve uri).run s).1 = .ok ()) :
    (v.examine proof inv).run s
      = (meet proof inv v.purposes).run ((v.resolve uri).run s).2 := by
  simp only [examine, hc, huri]
  rw [run_bind, hassess]

/-- Once there is a root to ask for, the outcome is that of the first phase that fails. -/
theorem run_examine_of_anchor {c : Capability} {uri : Text} (hc : proof.capability = some c)
    (huri : anchor v.known c proof.action inv = .ok uri) :
    ((v.examine proof inv).run s).1 =
      (assess v.now c proof.action inv uri ((v.resolve uri).run s).1 >>= fun _ =>
        ((meet proof inv v.purposes).run ((v.resolve uri).run s).2).1) := by
  cases hassess : assess v.now c proof.action inv uri ((v.resolve uri).run s).1 with
  | error e =>
      rw [run_examine_of_refused hc huri hassess]
      rfl
  | ok u =>
      rw [run_examine_of_passed hc huri hassess]
      rfl

/-- A check ends well exactly if all of its phases do, with the answer that the resolver
gives in the state that it is asked in. -/
theorem run_examine_eq_ok_iff :
    ((v.examine proof inv).run s).1 = .ok () ↔
      ∃ c uri root, proof.capability = some c ∧ anchor v.known c proof.action inv = .ok uri ∧
        ((v.resolve uri).run s).1 = .ok root ∧ judge v.now c proof.action inv root = .ok () ∧
        c.Empowers inv.method ∧
        ((meet proof inv v.purposes).run ((v.resolve uri).run s).2).1 = .ok () := by
  constructor
  · intro h
    have hanchor : ∃ c uri, proof.capability = some c ∧
        anchor v.known c proof.action inv = .ok uri := by
      rw [examine] at h
      split at h
      next => cases h
      next c hc =>
        split at h
        next => cases h
        next uri huri => exact ⟨c, uri, hc, huri⟩
    obtain ⟨c, uri, hc, huri⟩ := hanchor
    rw [run_examine_of_anchor hc huri, bind_unit_eq_ok_iff, assess_eq_ok_iff] at h
    obtain ⟨⟨root, hroot, hjudge, hsigner⟩, hmeet⟩ := h
    exact ⟨c, uri, root, hc, huri, hroot, hjudge, hsigner, hmeet⟩
  · intro hphases
    obtain ⟨c, uri, root, hc, huri, hroot, hjudge, hsigner, hmeet⟩ := hphases
    rw [run_examine_of_anchor hc huri, bind_unit_eq_ok_iff, assess_eq_ok_iff]
    exact ⟨⟨root, hroot, hjudge, hsigner⟩, hmeet⟩

/-- What an accepted capability leads to is one hop away at most. -/
theorem rootedAt_of_judge {known : Registry} {now : Time.Stamp} {c root : Capability}
    {action uri : Text} (huri : anchor known c action inv = .ok uri)
    (hjudge : judge now c action inv root = .ok ()) : RootedAt c uri := by
  obtain ⟨-, -, hleads⟩ := anchor_eq_ok_iff.mp huri
  obtain ⟨-, -, -, -, hown⟩ := judge_eq_ok_iff.mp hjudge
  have hlength : c.chain.length ≤ 1 := by
    rcases hown with hc | ⟨hc, -⟩ <;> simp [hc]
  exact (leadsTo_iff_rootedAt known hlength).mp hleads

end Verifier

end Mandate
