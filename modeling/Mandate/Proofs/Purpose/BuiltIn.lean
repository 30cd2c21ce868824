/-
  Mandate.Proofs.Purpose.BuiltIn
  ────────────────────────────────
  **WHAT THE DEMANDS LOOK AT.**

  The library brings along two demands on proofs.  One looks at the time of the proof, the
  other at its method and at the method of the invocation, and neither of them at
  anything else: not at the capability, the action, the target or the root.

  Main results:
    * `BuiltIn.congr`  — such a demand does not tell two proofs apart that agree there;
    * `meet_congr`     — nor do several of them.
-/
import Mandate.Purpose.Controller
import Mandate.Purpose.Created

namespace Mandate.Purpose

variable {m : Type → Type} [Monad m] {proof proof' : Proof} {inv inv' : Invocation}

/-- One of the two demands that the library brings along, with any source of controllers'
documents. -/
inductive BuiltIn : Mandate.Purpose m → Prop
  | created (w : Window) : BuiltIn w.purpose
  | controller (resolve : ControllerResolver m) : BuiltIn (controllerPurpose resolve)

/-- Two submissions that agree in what the demands look at. -/
structure Agree (proof proof' : Proof) (inv inv' : Invocation) : Prop where
  created : proof'.created = proof.created
  method : proof'.method = proof.method
  signer : inv'.method = inv.method

theorem BuiltIn.congr {p : Mandate.Purpose m} (hp : BuiltIn p)
    (h : Agree proof proof' inv inv') : p proof' inv' = p proof inv := by
  cases hp with
  | created w =>
      show pure (w.check proof') = pure (w.check proof)
      rw [Window.check, Window.check, h.created]
  | controller resolve =>
      have hsigner : checkSigner proof' inv'.method = checkSigner proof inv.method := by
        rw [checkSigner, checkSigner, h.method, h.signer]
      rw [controllerPurpose, hsigner, h.signer]
      rfl

theorem meet_congr {ps : List (Mandate.Purpose m)} (hps : ∀ p ∈ ps, BuiltIn p)
    (h : Agree proof proof' inv inv') :
    Verification.meet proof' inv' ps = Verification.meet proof inv ps := by
  induction ps with
  | nil => rfl
  | cons p ps ih =>
      obtain ⟨hp, hps⟩ := List.forall_mem_cons.mp hps
      rw [Verification.meet, Verification.meet, hp.congr h, ih hps]

end Mandate.Purpose
