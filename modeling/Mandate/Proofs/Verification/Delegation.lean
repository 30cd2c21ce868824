/-
  Mandate.Proofs.Verification.Delegation
  ────────────────────────────────
  **ONE HOP, AND ITS TARGET.**

  A delegation names its root and is used through it.  What an invocation acts on is
  the target of that root; the target that the delegation states itself is not
  looked at.  Only a caveat on the target confines a delegation.

  Main results:
    * `read_delegatedDocument`  — the document of a delegation is read as one;
    * `usable_iff_accepted`     — the targets that a delegation is accepted for are
                                  those that nothing in it stands against;
    * `confined_iff_pinned`     — a delegation is accepted for its own target alone
                                  exactly if a caveat of its own says so, or it
                                  cannot be used;
    * `delegation_target_law`   — what a delegation authorizes action on;
    * `accepted_elsewhere`      — a delegation is accepted for a target other than
                                  its own.
-/
import Mandate.Proofs.Capability.Reading
import Mandate.Proofs.Verification.Acceptance

namespace Mandate.Verification

open Json (Value)
open Time (Stamp)

/-! ## §1. Delegations. -/

/-- The proof of a delegation that names its root. -/
def delegationProof (root : Text) : Value :=
  .object [("proofPurpose", .text Capability.delegationPurpose),
    ("capabilityChain", .list [.text root])]

/-- A delegation with one invoker, of itself as its target. -/
def delegated (id invoker root : Text) : Capability :=
  { Capability.bare id ⟨id, ""⟩ with
    invoker := [.text invoker], chain := [.text root], proof := [delegationProof root] }

/-- The document of such a delegation. -/
def delegatedDocument (id invoker root : Text) : Value :=
  .object [("id", .text id), ("invoker", .text invoker), ("proof", delegationProof root)]

theorem read_delegatedDocument {known : Registry} {id root : Text} (invoker : Text)
    (hid : id ≠ "") (hroot : root ≠ "") :
    Capability.read known (delegatedDocument id invoker root)
      = .ok (delegated id invoker root) := by
  have hproper : id.isEmpty = false := by simpa using hid
  have hname : Document.properText? (.text id) = some id :=
    Document.properText?_eq_some.mpr ⟨rfl, hproper⟩
  have hread : Capability.readId [("id", .text id), ("invoker", .text invoker),
      ("proof", delegationProof root)] = .ok id :=
    Capability.readId_eq_ok_iff.mpr ⟨rfl, hproper⟩
  -- Without a target of its own, the document has its name for one.
  have htarget : Target.read (.text id) = .ok ⟨id, ""⟩ := by
    simp [Target.read, hname]
  refine Capability.read_eq_ok_iff.mpr ⟨Capability.draft_eq_ok_iff.mpr
    ⟨_, { delegated id invoker root with chain := [] }, _, rfl, ?_, rfl, rfl⟩, ?_⟩
  · rw [Capability.readOwn, hread]
    show (Target.read (.text id) >>= _) = _
    rw [htarget]
    rfl
  · simp [Capability.validateChain, Capability.entries, Capability.readEntries,
      Capability.checkChain, Capability.checkReferences, Capability.checkParent, delegated,
      Capability.bare, hroot, bind, Except.bind]

theorem rootedAt_delegated {id invoker root : Text} (h : root ≠ "") :
    RootedAt (delegated id invoker root) root :=
  .inr ⟨rfl, h, .inl rfl⟩

theorem empowers_delegated {id invoker root : Text} (h : invoker ≠ "") :
    (delegated id invoker root).Empowers ⟨invoker, "", ""⟩ :=
  ⟨[invoker], rfl, by simpa using h.symm, .inl (.head _)⟩

/-- Nothing keeps a delegation from passing as a root. -/
theorem passesAsRoot_delegated {id invoker root action : Text} {now : Stamp} :
    PassesAsRoot (delegated id invoker root) action now :=
  ⟨.inl rfl, .of_free rfl rfl, .inr rfl⟩

/-- Whatever passes as a root carries every delegation that names it. -/
theorem PassesAsRoot.accepts_delegated {s : Store} {known : Registry} {root : Capability}
    {action invoker : Text} {now : Stamp} (h : PassesAsRoot root action now)
    (hroot : s.resolve root.id = .ok root) (hid : root.id ≠ "") (id : Text)
    (hinvoker : invoker ≠ "") :
    (overStore s known [] now).Accepts
      { capability := some (delegated id invoker root.id), action, method := "", created := none }
      (expecting root action ⟨invoker, "", ""⟩) := by
  let c := delegated id invoker root.id
  let proof : Proof := { capability := some c, action, method := "", created := none }
  let v : Verifier Id := overStore s known [] now
  have hpasses : PassesAsRoot root proof.action v.now := h
  exact hpasses.accepts rfl (.inl rfl) (rootedAt_delegated hid) hroot
    (.inr (.of_free rfl rfl)) (empowers_delegated hinvoker) nofun

/-! ## §2. Targets of a delegation. -/

/-- A capability could be used on a target: it leads to a root, it has an invoker, and
for some action at some time nothing in it stands against the target. -/
structure Usable (c : Capability) (target : Text) : Prop where
  rooted : ∃ uri, RootedAt c uri
  invocable : ∃ m, c.Empowers m
  allowed : ∃ action now, c.Permits action ∧ Unrestricted { now, action, target } c

/-- A caveat that confines the target confines it to one. -/
theorem Usable.eq_of_mem {c : Capability} {target pin : Text} (h : Usable c target)
    (hpin : .invocationTarget pin ∈ c.caveats) : target = pin := by
  obtain ⟨action, now, -, hfree⟩ := h.allowed
  exact hfree.caveats _ hpin

/-- No other caveat looks at the target. -/
theorem holds_retarget {o : Occasion} {k : Caveat} (hk : ∀ pin, k ≠ .invocationTarget pin)
    (h : k.Holds o) (target : Text) : k.Holds { o with target } := by
  cases k with
  | invocationTarget pin => exact absurd rfl (hk pin)
  | _ => exact h

theorem Usable.retarget {c : Capability} {target : Text} (h : Usable c target)
    (hpins : ∀ pin, .invocationTarget pin ∉ c.caveats) (other : Text) : Usable c other := by
  obtain ⟨action, now, hpermits, hfree⟩ := h.allowed
  refine ⟨h.rooted, h.invocable, action, now, hpermits, fun k hk => ?_, hfree.current⟩
  refine holds_retarget ?_ (hfree.caveats k hk) other
  rintro pin rfl
  exact hpins pin hk

/-- **WHERE A DELEGATION IS ACCEPTED.**  A delegation is accepted for a target, by some
verifier, in some invocation, if and only if it could be used on that target.  What it
says of its own target is no part of the condition. -/
theorem usable_iff_accepted {c : Capability} {target : Text} (hchain : c.chain.length = 1)
    (htarget : target ≠ "") :
    Usable c target ↔ ∃ (v : Verifier Id) (proof : Proof) (inv : Invocation),
      proof.capability = some c ∧ inv.target = target ∧ v.Accepts proof inv := by
  have hne : c.chain ≠ [] := List.length_pos_iff.mp (by omega)
  constructor
  · rintro ⟨⟨uri, hrooted⟩, ⟨m, hsigner⟩, action, now, hpermits, hfree⟩
    have huri : uri ≠ "" := (hrooted.resolve_left fun h => hne h.1).2.1
    -- A root of this target and nothing else, which every name resolves to.
    let root := Capability.bare uri ⟨target, ""⟩
    have hpasses : PassesAsRoot root action now := ⟨.inl rfl, .of_free rfl rfl, .inl huri⟩
    let v : Verifier Id :=
      { known := [], resolve := fun _ => .ok root, purposes := [], now, note := fun _ => () }
    let proof : Proof := { capability := some c, action, method := "", created := none }
    exact ⟨v, proof, expecting root action m, rfl, rfl,
      hpasses.accepts rfl hpermits hrooted rfl (.inr hfree) hsigner nofun⟩
  · rintro ⟨v, proof, inv, hc, rfl, haccepts⟩
    obtain ⟨uri, root, hauth⟩ := exists_authorized_of_capability haccepts hc
    have hfree := hauth.unrestricted.resolve_left hne
    rw [occasion_eq hauth.target, ← hauth.target.resolve_left htarget] at hfree
    exact ⟨⟨uri, hauth.rooted⟩, ⟨inv.method, hauth.signer⟩,
      proof.action, v.now, hauth.permits, hfree⟩

/-- Every accepted invocation of a capability that expects a target expects the
capability's own. -/
def Confined (c : Capability) : Prop :=
  ∀ (v : Verifier Id) (proof : Proof) (inv : Invocation), proof.capability = some c →
    inv.target ≠ "" → v.Accepts proof inv → c.target.id = inv.target

/-- Where a target is expected, it is the target of the root. -/
theorem target_of_accepts {v : Verifier Id} {proof : Proof} {inv : Invocation} {c : Capability}
    (hc : proof.capability = some c) (htarget : inv.target ≠ "") (h : v.Accepts proof inv) :
    ∃ uri root, RootedAt c uri ∧ v.resolve uri = .ok root ∧ root.target.id = inv.target := by
  obtain ⟨uri, root, hauth⟩ := exists_authorized_of_capability h hc
  exact ⟨uri, root, hauth.rooted, hauth.resolved, (hauth.target.resolve_left htarget).symm⟩

/-- A delegation is confined to its own target exactly if a caveat of its own says so,
unless there is no target at all that it could be used on. -/
theorem confined_iff_pinned {c : Capability} (hchain : c.chain.length = 1) :
    Confined c ↔
      ((∃ target : Text, target ≠ "" ∧ Usable c target) →
        .invocationTarget c.target.id ∈ c.caveats) := by
  constructor
  · rintro hlaw ⟨target, htarget, husable⟩
    have hown : ∀ other : Text, other ≠ "" → Usable c other → c.target.id = other := by
      intro other hother hused
      obtain ⟨v, proof, inv, hc, rfl, haccepts⟩ := (usable_iff_accepted hchain hother).mp hused
      exact hlaw v proof inv hc hother haccepts
    by_cases hpins : ∃ pin, .invocationTarget pin ∈ c.caveats
    · obtain ⟨pin, hpin⟩ := hpins
      rw [hown target htarget husable, husable.eq_of_mem hpin]
      exact hpin
    · -- Nothing confines the target, so the capability is accepted for any other one.
      have hfree := husable.retarget fun pin hpin => hpins ⟨pin, hpin⟩
      have hlonger (t : Text) : t ++ "/" ≠ "" ∧ t ≠ t ++ "/" := by
        simp [← Text.points_inj]
      exact absurd (hown _ (hlonger _).1 (hfree _)) (hlonger _).2
  · intro hpinned v proof inv hc htarget haccepts
    have husable : Usable c inv.target :=
      (usable_iff_accepted hchain htarget).mpr ⟨v, proof, inv, hc, rfl, haccepts⟩
    exact (husable.eq_of_mem (hpinned ⟨_, htarget, husable⟩)).symm

/-- **WHAT A DELEGATION AUTHORIZES ACTION ON.**  Take a capability with a chain of one
entry.  Whatever verifier accepts it, at whatever time, an expected target is the
target of the root.  It is the capability's own target as well, in all of these
invocations, if and only if a caveat of the capability confines it to this target,
or there is no target that the capability could be used on. -/
theorem delegation_target_law {c : Capability} (hchain : c.chain.length = 1) :
    (∀ (v : Verifier Id) (proof : Proof) (inv : Invocation), proof.capability = some c →
      inv.target ≠ "" → v.Accepts proof inv →
      ∃ uri root, RootedAt c uri ∧ v.resolve uri = .ok root ∧ root.target.id = inv.target) ∧
    (Confined c ↔
      ((∃ target : Text, target ≠ "" ∧ Usable c target) →
        .invocationTarget c.target.id ∈ c.caveats)) :=
  ⟨fun _ _ _ hc htarget h => target_of_accepts hc htarget h, confined_iff_pinned hchain⟩

/-- A delegation that a caveat confines to its own target. -/
def pinned (id invoker root : Text) : Capability :=
  { delegated id invoker root with caveats := [.invocationTarget id] }

theorem pinned_stays :
    (pinned "urn:zcap:leaf" "did:example:carol" "urn:zcap:root").chain.length = 1 ∧
    Confined (pinned "urn:zcap:leaf" "did:example:carol" "urn:zcap:root") :=
  ⟨rfl, (delegation_target_law rfl).2.mpr fun _ => .head _⟩

/-- A delegation of one target is accepted for the target of its root. -/
theorem accepted_elsewhere :
    (delegated "urn:zcap:leaf" "did:example:carol" "urn:zcap:root").chain.length = 1 ∧
    (knowing (rootHeldBy "did:example:alice")).Accepts
      (submitted (delegated "urn:zcap:leaf" "did:example:carol" "urn:zcap:root"))
      (readBy "did:example:carol" "urn:zcap:root" "urn:zcap:root") ∧
    ¬ Confined (delegated "urn:zcap:leaf" "did:example:carol" "urn:zcap:root") := by
  have hpasses : PassesAsRoot (rootHeldBy "did:example:alice") "read" dawn :=
    ⟨.inl rfl, .of_free rfl rfl, .inr rfl⟩
  have haccepts : (knowing (rootHeldBy "did:example:alice")).Accepts
      (submitted (delegated "urn:zcap:leaf" "did:example:carol" "urn:zcap:root"))
      (readBy "did:example:carol" "urn:zcap:root" "urn:zcap:root") :=
    hpasses.accepts_delegated rfl (by decide) "urn:zcap:leaf" (by decide)
  refine ⟨rfl, haccepts, fun hconfined => ?_⟩
  exact absurd (hconfined _ _ _ rfl (by decide) haccepts) (by decide)

end Mandate.Verification
