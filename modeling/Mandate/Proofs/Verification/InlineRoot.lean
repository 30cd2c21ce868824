/-
  Mandate.Proofs.Verification.InlineRoot
  ────────────────────────────────
  **ROOTS THAT COME WITH THEIR PROOF.**

  A root that is submitted for itself is looked up all the same: actions, target,
  caveats and the end of validity are those of the stored root.  Its invokers are
  not.  The signer is held against the list of the submitted copy, so the copy has
  the last word on who may invoke the root.

  Main results:
    * `covers_iff`             — a root lists every invoker of a copy exactly if it
                                 lets in every method that the copy lets in;
    * `inline_root_law_iff`    — the signer is always an invoker of the stored root
                                 exactly if the stored root lists every invoker of
                                 the copy, or no use of the copy can be accepted;
    * `forged_copy_accepted`   — a copy with an invoker of its own is accepted.
-/
import Mandate.Proofs.Verification.Acceptance

namespace Mandate.Verification

/-! ## §1. The signer and the copy. -/

/-- A capability lists every invoker that another one lists. -/
def Covers (root c : Capability) : Prop :=
  ∀ names, c.invokers = .ok names →
    ∀ n ∈ names, ∃ listed, root.invokers = .ok listed ∧ n ∈ listed

theorem covers_iff {root c : Capability} :
    Covers root c ↔ ∀ m, c.Empowers m → root.Empowers m := by
  constructor
  · intro h m hm
    obtain ⟨names, hnames, hm⟩ := Capability.empowers_iff_invokers.mp hm
    rw [Capability.empowers_iff_invokers]
    -- The name by which the copy lets the method in is one of the root's, too.
    rcases hm with hid | ⟨hne, hcontroller⟩
    · obtain ⟨listed, hlisted, hmem⟩ := h names hnames m.id hid
      exact ⟨listed, hlisted, .inl hmem⟩
    · obtain ⟨listed, hlisted, hmem⟩ := h names hnames m.controller hcontroller
      exact ⟨listed, hlisted, .inr ⟨hne, hmem⟩⟩
  · intro h names hnames n hn
    -- A method without a controller is let in by its own name only.
    have hcopy : c.Empowers ⟨n, "", ""⟩ :=
      Capability.empowers_iff_invokers.mpr ⟨names, hnames, .inl hn⟩
    obtain ⟨listed, hlisted, hroot⟩ := Capability.empowers_iff_invokers.mp (h _ hcopy)
    refine ⟨listed, hlisted, ?_⟩
    rcases hroot with hid | ⟨hne, -⟩
    · exact hid
    · exact absurd rfl hne

/-! ## §2. The signer and the stored root. -/

/-- **WHEN THE STORED ROOT KNOWS ITS SIGNERS.**  Take a submitted root and the root
that is stored under its name.  Every accepted signer is an invoker of the stored
root, at every time and whatever the invocation and the purposes, if and only if the
stored root lists every invoker of the submitted one, unless there is no action and
no time at which the submitted one could be used. -/
theorem inline_root_law_iff {c root : Capability} (hchain : c.chain = []) :
    (∀ (v : Verifier Id) (proof : Proof) (inv : Invocation), proof.capability = some c →
      v.resolve c.id = .ok root → v.Accepts proof inv →
      root.isInvoker inv.method = .ok true) ↔
    ((∃ now action, PassesAsRoot root action now ∧ c.Permits action) → Covers root c) := by
  have hrooted : RootedAt c c.id := .inl ⟨hchain, rfl⟩
  constructor
  · rintro hlaw ⟨now, action, hpasses, hpermits⟩
    rw [covers_iff]
    intro m hm
    -- A verifier that knows this root only, and a proof with nothing but the copy.
    let v : Verifier Id :=
      { known := [], resolve := fun _ => .ok root, purposes := [], now, note := fun _ => () }
    let proof : Proof := { capability := some c, action, method := "", created := none }
    have haccepts : v.Accepts proof (expecting root action m) :=
      hpasses.accepts rfl hpermits hrooted rfl (.inl hchain) hm nofun
    exact Capability.isInvoker_eq_ok_true_iff.mp (hlaw v proof _ rfl rfl haccepts)
  · intro hcovers v proof inv hc hroot haccepts
    have hauth := Authorized.of_accepts haccepts hc hrooted hroot
    have hcovered := hcovers ⟨v.now, proof.action, hauth.passesAsRoot, hauth.permits⟩
    exact Capability.isInvoker_eq_ok_true_iff.mpr (covers_iff.mp hcovered _ hauth.signer)

/-- A copy with the invoker of the stored root is safe, whatever else it says. -/
theorem genuine_copy_signers :
    (rootHeldBy "did:example:alice").chain = [] ∧
    ∀ (v : Verifier Id) (proof : Proof) (inv : Invocation),
      proof.capability = some (rootHeldBy "did:example:alice") →
      v.resolve (rootHeldBy "did:example:alice").id = .ok (rootHeldBy "did:example:alice") →
      v.Accepts proof inv →
      (rootHeldBy "did:example:alice").isInvoker inv.method = .ok true :=
  ⟨rfl, (inline_root_law_iff rfl).mpr fun _ => covers_iff.mpr fun _ hm => hm⟩

/-- A stranger who submits a copy of the root with their own name as its invoker is
accepted, although the stored root does not let them in. -/
theorem forged_copy_accepted :
    (knowing (rootHeldBy "did:example:alice")).resolve (rootHeldBy "did:example:mallory").id
      = .ok (rootHeldBy "did:example:alice") ∧
    (knowing (rootHeldBy "did:example:alice")).Accepts
      (submitted (rootHeldBy "did:example:mallory")) (readBy "did:example:mallory" "" "") ∧
    (rootHeldBy "did:example:alice").isInvoker (readBy "did:example:mallory" "" "").method
      = .ok false := by
  have hauth : Authorized (knowing (rootHeldBy "did:example:alice"))
      (submitted (rootHeldBy "did:example:mallory")) (readBy "did:example:mallory" "" "")
      (rootHeldBy "did:example:mallory") "urn:zcap:root" (rootHeldBy "did:example:alice") :=
    ⟨⟨by decide, rfl, by decide, rfl, by decide, .inl rfl, .of_free rfl rfl⟩,
      by decide, .inl rfl, by decide, nofun⟩
  exact ⟨rfl, accepts_of_authorized rfl hauth, rfl⟩

end Mandate.Verification
