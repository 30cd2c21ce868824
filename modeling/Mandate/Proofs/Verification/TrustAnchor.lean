/-
  Mandate.Proofs.Verification.TrustAnchor
  ────────────────────────────────
  **WHAT STANDS AT THE END OF A CHAIN.**

  A check follows the chain of the submitted capability for one hop and takes what
  the resolver has there for the root.  It does not ask whether that capability has
  a chain of its own.  So delegations in a store stand in for roots, whatever is
  behind them, and a delegation may even be its own root.

  Main results:
    * `reliedOn_iff`          — over a store of documents, accepted invocations rest
                                on whatever the store holds and passes as a root;
    * `trust_anchor_law_iff`  — they rest on roots alone exactly if nothing but roots
                                of the store passes as one;
    * `delegations_as_roots`  — a second hop and a delegation that is its own root
                                are accepted.
-/
import Mandate.Proofs.Resolver.Store
import Mandate.Proofs.Verification.Delegation

namespace Mandate.Verification

open Json (Value)

/-! ## §1. What is relied on. -/

/-- The capability that a verifier resolves for the root of a proof. -/
def RestsOn (v : Verifier Id) (proof : Proof) (root : Capability) : Prop :=
  ∃ c uri, proof.capability = some c ∧ RootedAt c uri ∧ v.resolve uri = .ok root

/-- Some invocation that is accepted over a store rests on the capability. -/
def ReliedOn (s : Store) (root : Capability) : Prop :=
  ∃ (v : Verifier Id) (proof : Proof) (inv : Invocation),
    v.resolve = s.resolve ∧ v.Accepts proof inv ∧ RestsOn v proof root

/-- What a store of documents holds has a name. -/
theorem keeps_id_of_documents {known : Registry} {docs : List Value} {s : Store}
    (h : Store.addDocuments known [] docs = .ok s) : s.Keeps fun c => c.id ≠ "" :=
  Store.keeps_nil.addDocuments (fun _ _ _ hc => Capability.id_ne_of_read hc) h

/-- **WHAT CAN BE RELIED ON.**  Over a store of named capabilities, whatever the store
holds and passes as a root of some action at some time is relied on, and nothing
else is.  The chain of what is stored is no part of the condition. -/
theorem reliedOn_iff {s : Store} {root : Capability} (hs : s.Keeps fun c => c.id ≠ "") :
    ReliedOn s root ↔
      s.resolve root.id = .ok root ∧ ∃ action now, PassesAsRoot root action now := by
  constructor
  · rintro ⟨v, proof, inv, hv, haccepts, c, uri, hc, hrooted, hroot⟩
    have hauth := Authorized.of_accepts haccepts hc hrooted hroot
    rw [hv] at hroot
    refine ⟨?_, proof.action, v.now, hauth.passesAsRoot⟩
    rw [(hs uri root hroot).1]
    exact hroot
  · rintro ⟨hroot, action, now, hpasses⟩
    -- A fresh delegation of what is stored, invoked by its own invoker.
    have hid := (hs root.id root hroot).2
    have hinvoker : ("did:example:holder" : Text) ≠ "" := by decide
    exact ⟨overStore s .builtIn [] now, _, _, rfl,
      hpasses.accepts_delegated hroot hid "urn:zcap:leaf" hinvoker,
      _, root.id, rfl, rootedAt_delegated hid, hroot⟩

/-! ## §2. The trust anchor. -/

/-- **WHEN THE TRUST ANCHOR IS A ROOT.**  Over a store of documents, every accepted
invocation rests on a capability without a chain if and only if every capability of
the store that passes as a root of some action at some time has none.  Otherwise a
delegation stands in for a root, of other delegations or of itself. -/
theorem trust_anchor_law_iff {known : Registry} {docs : List Value} {s : Store}
    (h : Store.addDocuments known [] docs = .ok s) :
    (∀ (v : Verifier Id) (proof : Proof) (inv : Invocation) (root : Capability),
      v.resolve = s.resolve → v.Accepts proof inv → RestsOn v proof root →
      root.isRoot = true) ↔
    ∀ uri root, s.resolve uri = .ok root → (∃ action now, PassesAsRoot root action now) →
      root.isRoot = true := by
  have hs := keeps_id_of_documents h
  constructor
  · intro hlaw uri root hroot hpasses
    rw [← (hs uri root hroot).1] at hroot
    obtain ⟨v, proof, inv, hv, haccepts, hrests⟩ := (reliedOn_iff hs).mpr ⟨hroot, hpasses⟩
    exact hlaw v proof inv root hv haccepts hrests
  · intro hroots v proof inv root hv haccepts hrests
    obtain ⟨hroot, hpasses⟩ := (reliedOn_iff hs).mp ⟨v, proof, inv, hv, haccepts, hrests⟩
    exact hroots root.id root hroot hpasses

/-- The document of a root with one invoker. -/
def rootDocument (invoker : Text) : Value :=
  .object [("id", .text "urn:zcap:root"), ("invoker", .text invoker)]

theorem read_rootDocument {known : Registry} {invoker : Text} :
    Capability.read known (rootDocument invoker) = .ok (rootHeldBy invoker) :=
  Capability.read_eq_ok_iff.mpr ⟨rfl, Capability.validateChain_of_root rfl⟩

/-- A store of one root document gives nothing but roots to rely on. -/
theorem one_root_anchor :
    Store.addDocuments .builtIn [] [rootDocument "did:example:alice"]
      = .ok (Store.ofList [rootHeldBy "did:example:alice"]) ∧
    ∀ (v : Verifier Id) (proof : Proof) (inv : Invocation) (root : Capability),
      v.resolve = (Store.ofList [rootHeldBy "did:example:alice"]).resolve →
      v.Accepts proof inv → RestsOn v proof root → root.isRoot = true := by
  have hdocs : Store.addDocuments .builtIn [] [rootDocument "did:example:alice"]
      = .ok (Store.ofList [rootHeldBy "did:example:alice"]) := by
    rw [Store.addDocuments_cons read_rootDocument]
    rfl
  refine ⟨hdocs, (trust_anchor_law_iff hdocs).mpr fun uri root hroot _ => ?_⟩
  have hkeeps : Store.Keeps (fun c => c.isRoot = true)
      (Store.ofList [rootHeldBy "did:example:alice"]) :=
    Store.keeps_ofList (by simp [rootHeldBy, Capability.isRoot, Capability.bare])
  exact (hkeeps uri root hroot).2

/-- Over the documents of a root and of a delegation of it, a delegation of the
delegation is accepted.  Over the document of a delegation that names itself, this
delegation is accepted, and there is no root at all. -/
theorem delegations_as_roots :
    (∃ s, Store.addDocuments .builtIn [] [rootDocument "did:example:alice",
        delegatedDocument "urn:zcap:middle" "did:example:bob" "urn:zcap:root"] = .ok s ∧
      (overStore s .builtIn [] dawn).Accepts
        (submitted (delegated "urn:zcap:leaf" "did:example:carol" "urn:zcap:middle"))
        (readBy "did:example:carol" "urn:zcap:middle" "urn:zcap:middle") ∧
      RestsOn (overStore s .builtIn [] dawn)
        (submitted (delegated "urn:zcap:leaf" "did:example:carol" "urn:zcap:middle"))
        (delegated "urn:zcap:middle" "did:example:bob" "urn:zcap:root") ∧
      (delegated "urn:zcap:middle" "did:example:bob" "urn:zcap:root").isRoot = false) ∧
    ∃ s, Store.addDocuments .builtIn []
        [delegatedDocument "urn:zcap:self" "did:example:bob" "urn:zcap:self"] = .ok s ∧
      (overStore s .builtIn [] dawn).Accepts
        (submitted (delegated "urn:zcap:self" "did:example:bob" "urn:zcap:self"))
        (readBy "did:example:bob" "urn:zcap:self" "urn:zcap:self") := by
  have hmiddle : Store.addDocuments .builtIn [] [rootDocument "did:example:alice",
      delegatedDocument "urn:zcap:middle" "did:example:bob" "urn:zcap:root"]
      = .ok (Store.ofList [rootHeldBy "did:example:alice",
        delegated "urn:zcap:middle" "did:example:bob" "urn:zcap:root"]) := by
    rw [Store.addDocuments_cons read_rootDocument,
      Store.addDocuments_cons (read_delegatedDocument _ (by decide) (by decide))]
    rfl
  have hself : Store.addDocuments .builtIn []
      [delegatedDocument "urn:zcap:self" "did:example:bob" "urn:zcap:self"]
      = .ok (Store.ofList [delegated "urn:zcap:self" "did:example:bob" "urn:zcap:self"]) := by
    rw [Store.addDocuments_cons (read_delegatedDocument _ (by decide) (by decide))]
    rfl
  have hpasses : ∀ id root, PassesAsRoot (delegated id "did:example:bob" root) "read" dawn :=
    fun _ _ => passesAsRoot_delegated
  refine ⟨⟨_, hmiddle, ?_, ?_, rfl⟩, _, hself, ?_⟩
  · exact (hpasses "urn:zcap:middle" "urn:zcap:root").accepts_delegated rfl (by decide)
      "urn:zcap:leaf" (by decide)
  · exact ⟨_, "urn:zcap:middle", rfl, rootedAt_delegated (by decide), rfl⟩
  · exact (hpasses "urn:zcap:self" "urn:zcap:self").accepts_delegated rfl (by decide)
      "urn:zcap:self" (by decide)

end Mandate.Verification
