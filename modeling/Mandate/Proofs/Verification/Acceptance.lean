/-
  Mandate.Proofs.Verification.Acceptance
  ────────────────────────────────
  **WHAT AN ACCEPTED INVOCATION RESTS ON.**

  A check with collaborators that answer at once — a resolver and purposes that are
  functions — accepts for reasons that can be listed.  They fall into two parts:

      Backed      — the capability, its chain of one hop at most, and the root that
                    it leads to agree on action and target, and nothing restricts
                    the root
      Authorized  — besides, the root is the expected one, nothing restricts the
                    capability itself, the signer is one of its invokers, and every
                    purpose is met

  Main results:
    * `exists_authorized_of_accepts`  — an accepted invocation has all of these
                                        reasons;
    * `accepts_of_authorized`         — and where it has them it is accepted.
-/
import Mandate.Proofs.Verification.Phases
import Mandate.Resolver.Store

namespace Mandate.Verification

open Time (Stamp)

/-! ## §1. Reasons. -/

/-- A capability with the root that stands behind it, as far as the action, the
chain, the target and the restrictions of the root go. -/
structure Backed (v : Verifier Id) (proof : Proof) (inv : Invocation) (c : Capability)
    (uri : Text) (root : Capability) : Prop where
  permits : c.Permits proof.action
  action : inv.action = proof.action
  rooted : RootedAt c uri
  resolved : v.resolve uri = .ok root
  rootPermits : root.Permits proof.action
  target : inv.target = "" ∨ inv.target = root.target.id
  rootUnrestricted : Unrestricted (occasion v.now proof.action inv root) root

/-- Everything that an accepted invocation rests on. -/
structure Authorized (v : Verifier Id) (proof : Proof) (inv : Invocation) (c : Capability)
    (uri : Text) (root : Capability) : Prop extends Backed v proof inv c uri root where
  expected : IsExpected inv root
  /-- A capability that is not its own root is held to its own restrictions, too. -/
  unrestricted : c.chain = [] ∨ Unrestricted (occasion v.now proof.action inv root) c
  signer : c.Empowers inv.method
  purposes : ∀ p ∈ v.purposes, p proof inv = .ok ()

theorem RootedAt.length_le {c : Capability} {uri : Text} (h : RootedAt c uri) :
    c.chain.length ≤ 1 := by
  rcases h with ⟨hc, -⟩ | ⟨hc, -, -⟩ <;> simp [hc]

/-- The chain and the judgement about the root together leave room for one hop at
most. -/
theorem backed_and_iff_phases {v : Verifier Id} {proof : Proof} {inv : Invocation}
    {c : Capability} {uri : Text} {root : Capability} :
    (Backed v proof inv c uri root ∧ IsExpected inv root ∧
      (c.chain = [] ∨ Unrestricted (occasion v.now proof.action inv root) c)) ↔
    anchor v.known c proof.action inv = .ok uri ∧ v.resolve uri = .ok root ∧
      judge v.now c proof.action inv root = .ok () := by
  rw [anchor_eq_ok_iff, judge_eq_ok_iff]
  -- The anchor bounds the chain by its shape only, the judgement by its length.
  constructor
  · rintro ⟨⟨hpermits, haction, hrooted, hresolved, hroot, htarget, hfree⟩, hexpected, hown⟩
    have hleads := (leadsTo_iff_rootedAt v.known hrooted.length_le).mpr hrooted
    refine ⟨⟨hpermits, haction, hleads⟩, hresolved, hroot, htarget, hfree, hexpected, ?_⟩
    rcases hrooted with ⟨hc, -⟩ | ⟨hc, -, -⟩
    · exact .inl hc
    · exact .inr ⟨by simp [hc], hown.resolve_left (by simp [hc])⟩
  · rintro ⟨⟨hpermits, haction, hleads⟩, hresolved, hroot, htarget, hfree, hexpected, hown⟩
    have hlength : c.chain.length ≤ 1 := by
      rcases hown with hc | ⟨hc, -⟩ <;> simp [hc]
    have hrooted := (leadsTo_iff_rootedAt v.known hlength).mp hleads
    exact ⟨⟨hpermits, haction, hrooted, hresolved, hroot, htarget, hfree⟩, hexpected,
      hown.imp_right And.right⟩

/-- **An accepted invocation has all of its reasons.** -/
theorem exists_authorized_of_accepts {v : Verifier Id} {proof : Proof} {inv : Invocation}
    (h : v.Accepts proof inv) :
    ∃ c uri root, proof.capability = some c ∧ Authorized v proof inv c uri root := by
  obtain ⟨c, uri, root, hc, huri, hroot, hjudge, hsigner, hpurposes⟩ :=
    Verifier.accepts_iff_phases.mp h
  obtain ⟨hbacked, hexpected, hown⟩ := backed_and_iff_phases.mpr ⟨huri, hroot, hjudge⟩
  exact ⟨c, uri, root, hc, ⟨hbacked, hexpected, hown, hsigner, hpurposes⟩⟩

/-- **An invocation with all of these reasons is accepted.** -/
theorem accepts_of_authorized {v : Verifier Id} {proof : Proof} {inv : Invocation}
    {c : Capability} {uri : Text} {root : Capability} (hc : proof.capability = some c)
    (h : Authorized v proof inv c uri root) : v.Accepts proof inv := by
  obtain ⟨huri, hroot, hjudge⟩ :=
    backed_and_iff_phases.mp ⟨h.toBacked, h.expected, h.unrestricted⟩
  exact Verifier.accepts_iff_phases.mpr
    ⟨c, uri, root, hc, huri, hroot, hjudge, h.signer, h.purposes⟩

theorem exists_authorized_of_capability {v : Verifier Id} {proof : Proof} {inv : Invocation}
    {c : Capability} (h : v.Accepts proof inv) (hc : proof.capability = some c) :
    ∃ uri root, Authorized v proof inv c uri root := by
  obtain ⟨c', uri, root, hc', hauth⟩ := exists_authorized_of_accepts h
  cases hc.symm.trans hc'
  exact ⟨uri, root, hauth⟩

/-- The reasons of an accepted invocation are those of its own capability and of the
root that this one leads to. -/
theorem Authorized.of_accepts {v : Verifier Id} {proof : Proof} {inv : Invocation}
    {c : Capability} {uri : Text} {root : Capability} (h : v.Accepts proof inv)
    (hc : proof.capability = some c) (huri : RootedAt c uri) (hroot : v.resolve uri = .ok root) :
    Authorized v proof inv c uri root := by
  obtain ⟨uri', root', hauth⟩ := exists_authorized_of_capability h hc
  cases huri.eq hauth.rooted
  cases hroot.symm.trans hauth.resolved
  exact hauth

/-- **EXACT ACCEPTANCE.**  An invocation is accepted if and only if its proof carries
a capability, the capability leads to a root in one hop at most, and the two are
authorized: the action is permitted by both and expected, the target and the root
are the expected ones, nothing restricts either of them, the signer is an invoker
of the capability, and every purpose is met. -/
theorem accepts_iff_authorized (v : Verifier Id) (proof : Proof) (inv : Invocation) :
    v.Accepts proof inv ↔
      ∃ c uri root, proof.capability = some c ∧ Authorized v proof inv c uri root := by
  constructor
  · exact exists_authorized_of_accepts
  · rintro ⟨c, uri, root, hc, hauth⟩
    exact accepts_of_authorized hc hauth

/-! ## §2. Passing as a root. -/

/-- A capability passes as the root of an action at a time. -/
structure PassesAsRoot (root : Capability) (action : Text) (now : Stamp) : Prop where
  permits : root.Permits action
  unrestricted : Unrestricted { now, action, target := root.target.id } root
  /-- An invocation can expect it: by its name, or by none if it is its own target. -/
  expectable : root.id ≠ "" ∨ root.target.id = root.id

/-- Whatever an accepted invocation rests on passes as a root. -/
theorem Authorized.passesAsRoot {v : Verifier Id} {proof : Proof} {inv : Invocation}
    {c : Capability} {uri : Text} {root : Capability} (h : Authorized v proof inv c uri root) :
    PassesAsRoot root proof.action v.now := by
  refine ⟨h.rootPermits, ?_, ?_⟩
  · rw [← occasion_eq h.target]
    exact h.rootUnrestricted
  · by_cases hnamed : inv.root = ""
    · exact .inr (h.expected.2 hnamed)
    · exact .inl (h.expected.1 hnamed ▸ hnamed)

/-- The invocation that expects exactly this root, its target and this signer. -/
def expecting (root : Capability) (action : Text) (m : Method) : Invocation :=
  { action, method := m, target := root.target.id, root := root.id }

theorem isExpected_expecting {root : Capability} {action : Text} {m : Method}
    (h : root.id ≠ "" ∨ root.target.id = root.id) : IsExpected (expecting root action m) root :=
  ⟨fun _ => rfl, fun hempty => h.resolve_left (fun hne => hne hempty)⟩

/-- What passes as a root carries every capability that leads to it, within what the
capability itself allows. -/
theorem PassesAsRoot.accepts {v : Verifier Id} {proof : Proof} {c root : Capability}
    {uri : Text} {m : Method} (h : PassesAsRoot root proof.action v.now)
    (hc : proof.capability = some c) (hpermits : c.Permits proof.action)
    (hrooted : RootedAt c uri) (hresolved : v.resolve uri = .ok root)
    (hown : c.chain = [] ∨
      Unrestricted { now := v.now, action := proof.action, target := root.target.id } c)
    (hsigner : c.Empowers m)
    (hpurposes : ∀ p ∈ v.purposes, p proof (expecting root proof.action m) = .ok ()) :
    v.Accepts proof (expecting root proof.action m) := by
  have hoccasion : occasion v.now proof.action (expecting root proof.action m) root =
      { now := v.now, action := proof.action, target := root.target.id } :=
    occasion_eq (.inr rfl)
  refine accepts_of_authorized hc
    ⟨⟨hpermits, rfl, hrooted, hresolved, h.permits, .inr rfl, ?_⟩,
      isExpected_expecting h.expectable, ?_, hsigner, hpurposes⟩
  · rw [hoccasion]
    exact h.unrestricted
  · rw [hoccasion]
    exact hown

/-! ## §3. A root and its one invoker. -/

/-- A verifier that asks a store. -/
def overStore (s : Store) (known : Registry) (purposes : List (Purpose Id)) (now : Stamp) :
    Verifier Id :=
  { known, resolve := s.resolve, purposes, now, note := fun _ => () }

/-- The first moment of year one. -/
def dawn : Stamp := ⟨⟨0, Time.zero_lt_civilSpan⟩, .utc⟩

/-- A root that is its own target and has one invoker. -/
def rootHeldBy (invoker : Text) : Capability :=
  { Capability.bare "urn:zcap:root" ⟨"urn:zcap:root", ""⟩ with invoker := [.text invoker] }

/-- A verifier that knows one capability and demands nothing of proofs. -/
def knowing (root : Capability) : Verifier Id :=
  overStore (Store.ofList [root]) .builtIn [] dawn

/-- A capability submitted for reading. -/
def submitted (c : Capability) : Proof :=
  { capability := some c, action := "read", method := "", created := none }

/-- Reading, signed by a method without a controller. -/
def readBy (signer target root : Text) : Invocation :=
  { action := "read", method := ⟨signer, "", ""⟩, target, root }

/-- To be backed by a root that is named as the expected one is neither enough nor
necessary: a stranger's signature is refused, and an invocation that names no root is
accepted. -/
theorem backed_and_named_inexact :
    (Backed (knowing (rootHeldBy "did:example:alice")) (submitted (rootHeldBy "did:example:alice"))
        (readBy "did:example:mallory" "" "urn:zcap:root") (rootHeldBy "did:example:alice")
        "urn:zcap:root" (rootHeldBy "did:example:alice") ∧
      (readBy "did:example:mallory" "" "urn:zcap:root").root = "urn:zcap:root" ∧
      ¬ (knowing (rootHeldBy "did:example:alice")).Accepts
        (submitted (rootHeldBy "did:example:alice"))
        (readBy "did:example:mallory" "" "urn:zcap:root")) ∧
    ((knowing (rootHeldBy "did:example:alice")).Accepts
        (submitted (rootHeldBy "did:example:alice")) (readBy "did:example:alice" "" "") ∧
      (readBy "did:example:alice" "" "").root ≠ "urn:zcap:root") := by
  have hbacked : ∀ signer root, Backed (knowing (rootHeldBy "did:example:alice"))
      (submitted (rootHeldBy "did:example:alice")) (readBy signer "" root)
      (rootHeldBy "did:example:alice") "urn:zcap:root" (rootHeldBy "did:example:alice") :=
    fun _ _ => ⟨by decide, rfl, by decide, rfl, by decide, .inl rfl, .of_free rfl rfl⟩
  refine ⟨⟨hbacked _ _, rfl, fun h => ?_⟩, ?_, by decide⟩
  · have hauth := Authorized.of_accepts h rfl (hbacked "" "").rooted (hbacked "" "").resolved
    exact absurd hauth.signer (by decide)
  · exact accepts_of_authorized rfl ⟨hbacked _ _, by decide, .inl rfl, by decide, nofun⟩

end Mandate.Verification
