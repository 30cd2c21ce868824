/-
  Mandate.Proofs.Verification.Record
  ────────────────────────────────
  **WHAT THE RECORD TAKES FROM A PROOF.**

  A check ends in an outcome.  The verdict on it and the event that it leaves say two things
  more about the proof, the name of its capability and its action, and nothing else.  So
  two checks with the same outcome cannot be told apart by their records, as long as the
  proofs agree in these.

  Main results:
    * `event?_congr`  — the event of an outcome;
    * `check_congr`   — a whole check, its verdict and its event together.
-/
import Mandate.Verification.Verifier

namespace Mandate

namespace Verification

variable {proof proof' : Proof}

theorem event?_congr (hname : capabilityName proof' = capabilityName proof)
    (haction : proof'.action = proof.action) (outcome : Except Failure Unit) :
    event? proof' outcome = event? proof outcome := by
  -- An authorization is reported with the name of its capability.
  have hgrant : ∀ p : Proof, (p.capability.map fun c => grantEvent c p.action) =
      (capabilityName p).map fun id => Log.Event.debug logger
        ("Capability invocation verified: " ++ id ++ " action=" ++ Text.quoted p.action) := by
    intro p
    unfold capabilityName
    cases p.capability <;> rfl
  cases outcome with
  | ok u =>
      show (proof'.capability.map fun c => grantEvent c proof'.action) = _
      rw [hgrant, hname, haction, ← hgrant]
      rfl
  | error e =>
      cases e with
      | fault f =>
          show some (denialEvent proof' f) = some (denialEvent proof f)
          unfold denialEvent
          rw [hname]
      | _ => rfl

end Verification

namespace Verifier

open Verification

variable {m : Type → Type} {v v' : Verifier m} {proof proof' : Proof} {inv inv' : Invocation}

theorem verdict?_congr (hnow : v'.now = v.now)
    (hname : capabilityName proof' = capabilityName proof)
    (haction : proof'.action = proof.action) (outcome : Except Failure Unit) :
    v'.verdict? proof' outcome = v.verdict? proof outcome := by
  have hof : ∀ fault, verdict?.of v' proof' fault = verdict?.of v proof fault := by
    intro fault
    unfold verdict?.of
    rw [hname, haction, hnow]
  cases outcome with
  | ok u =>
      show Except.ok (verdict?.of v' proof' none) = _
      rw [hof]
      rfl
  | error e =>
      cases e with
      | fault f =>
          show Except.ok (verdict?.of v' proof' (some f)) = _
          rw [hof]
          rfl
      | _ => rfl

variable [Monad m]

/-- Checks that come to the same outcome, at the same time and with the same record, are the
same if the proofs agree in the name of the capability and in the action. -/
theorem check_congr (hnow : v'.now = v.now) (hnote : v'.note = v.note)
    (hname : capabilityName proof' = capabilityName proof)
    (haction : proof'.action = proof.action)
    (hexamine : v'.examine proof' inv' = v.examine proof inv) :
    v'.check proof' inv' = v.check proof inv := by
  have hverify : v'.verify proof' inv' = v.verify proof inv := by
    unfold verify
    rw [hexamine]
    simp only [event?_congr hname haction, hnote]
  show (v'.verify proof' inv' >>= fun outcome => pure (v'.verdict? proof' outcome)) = _
  simp only [hverify, verdict?_congr hnow hname haction]
  rfl

end Verifier

end Mandate
