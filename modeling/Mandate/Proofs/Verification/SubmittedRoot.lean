/-
  Mandate.Proofs.Verification.SubmittedRoot
  ────────────────────────────────
  **WHAT A SUBMITTED ROOT HAS A SAY IN.**

  A root that comes with its proof is looked up under its own name, and the invocation is held
  against what is found there.  The copy itself is looked at in three places only: its name
  says what is looked up, its actions may exclude the intended one, and its entries for
  invokers say who may sign.  Caveats, an end of validity, a target, a parent, delegators
  and proofs of the copy can neither lift a restriction of the stored root nor fake one.

  Main results:
    * `anchor_of_root`      — which root is asked for follows from name and actions;
    * `judge_of_root`       — the copy is not looked at when the root is judged;
    * `submitted_root_law`  — copies with the same say get the same verdict and leave the
                              same events.
-/
import Mandate.Proofs.Purpose.BuiltIn
import Mandate.Proofs.Verification.Acceptance
import Mandate.Proofs.Verification.Record

namespace Mandate.Verification

open Time (Stamp)

/-! ## §1. What is looked at. -/

/-- Two copies of a root that say the same of their name, of their actions and of who may
invoke them, be it as invokers or, without invokers, as controllers. -/
structure SameSay (c c' : Capability) : Prop where
  id : c'.id = c.id
  allowedAction : c'.allowedAction = c.allowedAction
  invokers : c'.invokerEntries = c.invokerEntries

variable {known : Registry} {c c' : Capability} {action : Text} {inv : Invocation}

/-! ## §2. The phases. -/

/-- Without a chain there is no shape to refuse, and the root that is asked for is the
capability itself. -/
theorem anchor_of_root (hchain : c.chain = []) :
    anchor known c action inv =
      if c.excludes action then .error (.plain (.actionNotAllowed action c.allowedAction))
      else if inv.action ≠ action then .error (.plain (.actionMismatch inv.action action))
      else .ok c.id := by
  have hentries : c.entries known = .ok [] := by
    unfold Capability.entries
    rw [hchain, Capability.readEntries]
  unfold anchor
  rw [hentries]
  rfl

theorem SameSay.anchor (h : SameSay c c') (hchain : c.chain = []) (hchain' : c'.chain = []) :
    anchor known c' action inv = anchor known c action inv := by
  rw [anchor_of_root hchain', anchor_of_root hchain, Capability.excludes_congr h.allowedAction,
    h.allowedAction, h.id]

/-- Whether the root that was found authorizes the action does not depend on the copy. -/
theorem judge_of_root (now : Stamp) (root : Capability) (hchain : c.chain = [])
    (hchain' : c'.chain = []) :
    judge now c' action inv root = judge now c action inv root := by
  have hroot : ∀ d : Capability, d.chain = [] → d.isRoot = true := by
    intro d hd
    unfold Capability.isRoot
    rw [hd]
    rfl
  unfold judge
  rw [hroot c hchain, hroot c' hchain']
  rfl

theorem SameSay.assess (h : SameSay c c') (hchain : c.chain = []) (hchain' : c'.chain = [])
    (now : Stamp) (uri : Text) (answer : Except Failure Capability) :
    assess now c' action inv uri answer = assess now c action inv uri answer := by
  unfold Verification.assess
  rw [checkInvoker_congr h.id h.invokers]
  cases answer with
  | error e => rfl
  | ok root =>
      show (judge now c' action inv root).mapError _ >>= _ = _
      rw [judge_of_root now root hchain hchain']
      rfl

/-! ## §3. A whole check. -/

variable {m : Type → Type} [Monad m] {v : Verifier m} {proof : Proof}

theorem SameSay.examine (h : SameSay c c') (hchain : c.chain = []) (hchain' : c'.chain = [])
    (hdemands : ∀ p ∈ v.purposes, Purpose.BuiltIn p) :
    v.examine { proof with capability := some c' } inv
      = v.examine { proof with capability := some c } inv := by
  have hmeet : meet { proof with capability := some c' } inv v.purposes
      = meet { proof with capability := some c } inv v.purposes :=
    Purpose.meet_congr hdemands ⟨rfl, rfl, rfl⟩
  simp only [Verifier.examine, h.anchor hchain hchain', h.assess hchain hchain', hmeet]

/-- **WHAT A SUBMITTED ROOT HAS A SAY IN.**  Take two capabilities without a chain that agree
in their name, in their actions and in the entries for those who may invoke them, and maybe
in nothing else.  Under the two built-in kinds of demands a check does the same with either of
them, whatever its resolver does: it gives the same verdict, or the same failure, and takes
down the same events. -/
theorem submitted_root_law (hchain : c.chain = []) (hchain' : c'.chain = [])
    (hsay : SameSay c c') (hdemands : ∀ p ∈ v.purposes, Purpose.BuiltIn p) (proof : Proof)
    (inv : Invocation) :
    v.check { proof with capability := some c' } inv
      = v.check { proof with capability := some c } inv := by
  have hname : capabilityName { proof with capability := some c' }
      = capabilityName { proof with capability := some c } := congrArg some hsay.id
  exact Verifier.check_congr rfl rfl hname rfl (hsay.examine hchain hchain' hdemands)

/-- A copy of a root with the invoker of the original, and with everything else changed that
a copy can change: it is for writing to some other place, by delegation from a parent, and
it ended with the start of year one. -/
def retouchedRoot : Capability :=
  { rootHeldBy "did:example:alice" with
    target := ⟨"urn:edv:other", "urn:edv:document"⟩
    controller := [.text "did:example:mallory"]
    delegator := [.text "did:example:mallory"]
    parent := some "urn:zcap:parent"
    expires := some dawn
    caveats := [.expiration dawn, .allowedAction ["write"], .invocationTarget "urn:edv:other"]
    proof := [.object [("created", .text "0001-01-01T00:00:00Z")]] }

/-- Over any store, at any time and in any invocation, the retouched copy gets the verdict of
the original. -/
theorem retouched_root_judged_same :
    (rootHeldBy "did:example:alice").chain = [] ∧ retouchedRoot.chain = [] ∧
    SameSay (rootHeldBy "did:example:alice") retouchedRoot ∧
    ∀ (s : Store) (w : Purpose.Window) (now : Stamp) (inv : Invocation),
      (overStore s .builtIn [w.purpose] now).check (submitted retouchedRoot) inv =
        (overStore s .builtIn [w.purpose] now).check
          (submitted (rootHeldBy "did:example:alice")) inv := by
  have hsay : SameSay (rootHeldBy "did:example:alice") retouchedRoot := ⟨rfl, rfl, rfl⟩
  refine ⟨rfl, rfl, hsay, ?_⟩
  intro s w now inv
  have hdemands : ∀ p ∈ [w.purpose (m := Id)], Purpose.BuiltIn p := by
    intro p hp
    rw [List.mem_singleton.mp hp]
    exact .created w
  exact submitted_root_law rfl rfl hsay hdemands (submitted (rootHeldBy "did:example:alice")) inv

end Mandate.Verification
