/-
  Mandate.Proofs.Capability.Assembled
  ────────────────────────────────
  **CAPABILITIES PUT TOGETHER BY HAND.**

  A capability need not come from a document.  One that a program puts together holds
  whatever it was given, and it has a chain without having a proof that carries it.  To
  write it, a proof is made up that does nothing but carry the chain, and reading takes
  the chain from there and looks at it again.

      proofsFor  — the proofs that are made up for a chain
      Assembled  — what a capability without proofs is like if documents can denote it

  Main results:
    * `delegationChain_proofsFor`  — the proofs made up for a chain carry it;
    * `assembled_law`              — whatever is assembled and datable comes back as the
                                     same grant, with its chain as it was;
    * `assembled_of_comes_back`    — nothing else comes back;
    * `comes_back_iff`             — which capabilities without proofs come back.
-/
import Mandate.Proofs.Capability.Chains
import Mandate.Proofs.Capability.RoundTrip

namespace Mandate

open Json (Value)

namespace Capability

variable {known : Registry} {doc : Value} {c c' : Capability}

/-! ## §1. Made-up proofs. -/

/-- The proofs of a document whose capability has this chain and no proofs of its own. -/
def proofsFor (chain : List Value) : List Value :=
  if chain.isEmpty then [] else [chainProof chain]

/-- **MADE-UP PROOFS CARRY THEIR CHAIN.**  What is taken from them is the chain that they
were made up for. -/
theorem delegationChain_proofsFor (chain : List Value) :
    delegationChain (proofsFor chain) = .ok chain := by
  cases chain with
  | nil => rfl
  | cons e es =>
      show delegationChain [chainProof (e :: es)] = .ok (e :: es)
      simp [delegationChain, chainProof, Document.field, List.lookup_cons]

section

variable (h : c.proof = [])
include h

theorem writtenProof_of_no_proof : c.writtenProof = proofsFor c.chain := by
  unfold writtenProof proofsFor
  cases c.chain <;> simp [h]

theorem carried_of_no_proof : delegationChain c.writtenProof = .ok c.chain := by
  rw [writtenProof_of_no_proof h]
  exact delegationChain_proofsFor c.chain

theorem objects_of_no_proof : c.writtenProof.all isObject = true := by
  rw [writtenProof_of_no_proof h]
  unfold proofsFor
  split <;> simp [isObject, chainProof]

end

/-! ## §2. What comes back. -/

/-- A capability without proofs that documents can denote: it can be worded, its parent has
a name if there is one, and its chain has a supported shape. -/
structure Assembled (known : Registry) (c : Capability) : Prop extends c.Worded where
  parent : c.parent ≠ some (.plain "")
  shape : c.validateChain known = .ok ()

theorem read_of_assembled (hknown : known.Keeps) (hproof : c.proof = [])
    (hc : c.Assembled known) (ht : c.Datable) :
    ∃ doc, c.toJson = .ok doc ∧ read known doc = .ok c.reread :=
  read_of_worded hknown hc.toWorded (objects_of_no_proof hproof) (carried_of_no_proof hproof)
    hc.shape ht

/-- **CAPABILITIES PUT TOGETHER BY HAND COME BACK.**  Under every registry that keeps the
built-in types, an assembled capability without proofs, whose times have a year in UTC, is
written as a document that is read as the same grant.  The proofs of the document are made
up for the chain, and the chain that is read from them is the chain as it was. -/
theorem assembled_law (hknown : known.Keeps) (hproof : c.proof = [])
    (hc : c.Assembled known) (ht : c.Datable) :
    ∃ doc c', c.toJson = .ok doc ∧ read known doc = .ok c' ∧ c'.alike c = true ∧
      c'.proof = proofsFor c.chain ∧ delegationChain c'.proof = .ok c'.chain ∧
      c'.chain = c.chain := by
  obtain ⟨doc, hwrite, hread⟩ := read_of_assembled hknown hproof hc ht
  have hsame : c.reread.alike c = true := (reread_alike_iff c).mpr hc.parent
  exact ⟨doc, c.reread, hwrite, hread, hsame, writtenProof_of_no_proof hproof,
    carried_of_no_proof hproof, rfl⟩

/-- A registry with a type of its own, which puts no condition on anything. -/
def gradedRegistry : Registry := Registry.builtIn.declare "GradeCaveat" none

/-- A delegation with a caveat of the declared type. -/
def gradedDocument : Value :=
  .object [("id", .text "urn:zcap:middle"), ("invoker", .text "did:example:alice"),
    ("caveat", .list [.object [("type", .text "GradeCaveat")]])]

/-- A delegation of this delegation, put together by hand, that ends with the year 2026 of
a place two hours ahead of UTC. -/
def handDelegation : Capability :=
  { bare "urn:zcap:leaf" ⟨"urn:zcap:root", "urn:edv:document"⟩ with
    allowedAction := [.text "read"]
    invoker := [.text "did:example:bob", .text "did:example:carol"]
    parent := some "urn:zcap:middle"
    expires := yearGrant.expires
    caveats := [.allowedAction ["read"]]
    chain := [.text "urn:zcap:root", gradedDocument] }

/-- It comes back with its chain of a name and a document. -/
theorem hand_delegation_comes_back :
    gradedRegistry.Keeps ∧ handDelegation.Assembled gradedRegistry ∧ handDelegation.Datable ∧
    ∃ doc c, handDelegation.toJson = .ok doc ∧ read gradedRegistry doc = .ok c ∧
      c.alike handDelegation = true ∧ c.proof = [chainProof handDelegation.chain] ∧
      c.chain = [.text "urn:zcap:root", gradedDocument] := by
  have hknown : gradedRegistry.Keeps := Registry.keeps_builtIn.declare (by decide) none
  have hmiddle : ∃ d, read gradedRegistry gradedDocument = .ok d :=
    ⟨_, read_eq_ok_iff.mpr ⟨rfl, validateChain_of_root rfl⟩⟩
  have hshape : handDelegation.validateChain gradedRegistry = .ok () := by
    refine (validateChain_cons_iff rfl).mpr ⟨.inl ⟨_, rfl, by decide⟩, ?_, ?_⟩
    · intro v hv
      rw [List.mem_singleton.mp hv]
      exact hmiddle
    · intro name hname
      cases hname
      exact .inr ⟨_, rfl, rfl⟩
  have hc : handDelegation.Assembled gradedRegistry :=
    { id := by decide
      target := by decide
      allowedAction := ⟨["read"], rfl⟩
      controller := ⟨[], rfl⟩
      invoker := ⟨["did:example:bob", "did:example:carol"], rfl⟩
      delegator := ⟨[], rfl⟩
      caveats := by simp [handDelegation, Caveat.Proper]
      parent := by decide
      shape := hshape }
  have ht : handDelegation.Datable := by
    refine ⟨fun t ht => ?_, by simp [handDelegation, Caveat.Datable]⟩
    cases ht
    decide
  obtain ⟨doc, c, hwrite, hread, hsame, hproof, -, hchain⟩ := assembled_law hknown rfl hc ht
  exact ⟨hknown, hc, ht, doc, c, hwrite, hread, hsame, hproof, hchain⟩

end Capability

/-! ## §3. Nothing else comes back. -/

namespace Json.Value

theorem eq_of_text_alike {s : Text} {v : Value} (h : alike (.text s) v = true) :
    .text s = v := by
  cases v <;> simp_all [alike, matching]

theorem alikeAll_cons (a b : Value) (as bs : List Value) :
    alikeAll (a :: as) (b :: bs) = (alike a b && alikeAll as bs) := by
  simp [alikeAll, Bool.and_left_comm]

/-- Only texts are alike to texts. -/
theorem eq_of_texts_alikeAll {ss : List Text} {vs : List Value}
    (h : alikeAll (ss.map .text) vs = true) : ss.map .text = vs := by
  -- Lists that are alike are of one length, so both are taken apart together.
  induction ss generalizing vs with
  | nil =>
      cases vs with
      | nil => rfl
      | cons v vs => cases h
  | cons s ss ih =>
      cases vs with
      | nil => cases h
      | cons v vs =>
          rw [List.map_cons, alikeAll_cons, Bool.and_eq_true] at h
          rw [List.map_cons, eq_of_text_alike h.1, ih h.2]

end Json.Value

namespace Caveat

/-- The caveat is of one of the built-in types. -/
def BuiltIn : Caveat → Prop
  | .declared .. => False
  | _ => True

/-- What is alike to a caveat that is read, and of a built-in type, is proper. -/
theorem proper_of_alike {known : Registry} {v : Value} {k k' : Caveat}
    (hread : read known v = .ok k') (hsame : k'.alike k = true) (hk : k.BuiltIn) : k.Proper := by
  rcases proper_or_declared_of_read hread with hproper | ⟨type, text, rfl⟩
  · cases k' <;> cases k <;> simp_all [alike, Proper]
  · cases k <;> simp_all [alike, BuiltIn]

end Caveat

namespace Capability

variable {known : Registry} {doc : Value} {c c' : Capability}

/-- A list of names that comes back as a list of texts was one. -/
theorem texts_of_alikeAll {vs ws : List Value} (hread : ∃ ss : List Text, ss.map .text = vs)
    (hsame : Value.alikeAll vs ws = true) : ∃ ss : List Text, ss.map .text = ws := by
  obtain ⟨ss, rfl⟩ := hread
  exact ⟨ss, Value.eq_of_texts_alikeAll hsame⟩

theorem exists_alike_of_mem {as bs : List Caveat} (h : alikeCaveats as bs = true) {b : Caveat}
    (hb : b ∈ bs) : ∃ a ∈ as, a.alike b = true := by
  induction as generalizing bs with
  | nil =>
      cases bs with
      | nil => cases hb
      | cons b bs => cases h
  | cons a as ih =>
      cases bs with
      | nil => cases hb
      | cons b' bs =>
          rw [alikeCaveats_cons, Bool.and_eq_true] at h
          rcases List.mem_cons.mp hb with rfl | hlater
          · exact ⟨a, List.mem_cons_self, h.1⟩
          · obtain ⟨a', ha', hsame⟩ := ih h.2 hlater
            exact ⟨a', List.mem_cons_of_mem a ha', hsame⟩

/-- **NOTHING ELSE COMES BACK.**  A capability without proofs, and with caveats of built-in
types only, is assembled if it is written and what is read then is the same grant. -/
theorem assembled_of_comes_back (hproof : c.proof = []) (hcaveats : ∀ k ∈ c.caveats, k.BuiltIn)
    (hwrite : c.toJson = .ok doc) (hread : read known doc = .ok c')
    (hsame : c'.alike c = true) : c.Assembled known := by
  -- The fields of the document are those that were written, and say what was read.
  obtain ⟨expires, caveats, hexpires, -, rfl⟩ := toJson_eq_ok_iff.mp hwrite
  obtain ⟨hdraft, hshape⟩ := read_eq_ok_iff.mp hread
  obtain ⟨fields, own, chain, hdoc, hown, hchain, rfl⟩ := draft_eq_ok_iff.mp hdraft
  cases hdoc
  have hsays := readOwn_eq_ok_iff.mp hown
  simp only [alike, Bool.and_eq_true, beq_iff_eq] at hsame
  obtain ⟨⟨⟨⟨⟨⟨⟨⟨⟨hid, htarget⟩, hactions⟩, hcontroller⟩, hinvoker⟩, hdelegator⟩, hparent⟩, -⟩,
    halike⟩, -⟩ := hsame
  -- The chain is taken from the proofs that were made up for it.
  have hback : { own with chain }.chain = c.chain := by
    have hproofs := hsays.proof.symm.trans
      (proofList_written hexpires caveats (objects_of_no_proof hproof))
    rw [Except.ok.inj hproofs, carried_of_no_proof hproof] at hchain
    exact (Except.ok.inj hchain).symm
  constructor
  case toWorded =>
    constructor
    case id =>
      have hne := id_ne_of_read (c := { own with chain }) hread
      rwa [hid] at hne
    case target =>
      rw [← htarget]
      exact id_ne_of_readTarget hsays.target
    case allowedAction => exact texts_of_alikeAll hsays.allowedAction.texts hactions
    case controller => exact texts_of_alikeAll hsays.controller.texts hcontroller
    case invoker => exact texts_of_alikeAll hsays.invoker.texts hinvoker
    case delegator => exact texts_of_alikeAll hsays.delegator.texts hdelegator
    case caveats =>
      -- A registry may know more types than the built-in ones, but none of them is alike.
      intro k hk
      obtain ⟨k', hk', hlike⟩ := exists_alike_of_mem halike hk
      obtain ⟨docs, -, hreads⟩ := hsays.caveats
      obtain ⟨v, -, hv⟩ := exists_of_mem_mapM hreads hk'
      exact Caveat.proper_of_alike hv hlike (hcaveats k hk)
  case parent =>
    -- A parent without a name is left out, so it does not come back.
    have hfilter := hsays.parent.symm.trans (readParent_written hexpires caveats)
    rw [Except.ok.inj hfilter] at hparent
    intro hempty
    rw [hempty] at hparent
    cases hparent
  case shape =>
    rw [← hshape]
    exact (validateChain_congr hback hparent).symm

/-- A capability without proofs, and with caveats of built-in types only, comes back as the
same grant exactly if it is assembled and its times have a year in UTC. -/
theorem comes_back_iff (hknown : known.Keeps) (hproof : c.proof = [])
    (hcaveats : ∀ k ∈ c.caveats, k.BuiltIn) :
    (∃ doc c', c.toJson = .ok doc ∧ read known doc = .ok c' ∧ c'.alike c = true) ↔
      c.Assembled known ∧ c.Datable := by
  constructor
  · intro h
    obtain ⟨doc, c', hwrite, hread, hsame⟩ := h
    exact ⟨assembled_of_comes_back hproof hcaveats hwrite hread hsame, datable_of_toJson hwrite⟩
  · intro h
    obtain ⟨hc, ht⟩ := h
    obtain ⟨doc, hwrite, hread⟩ := read_of_assembled hknown hproof hc ht
    exact ⟨doc, c.reread, hwrite, hread, (reread_alike_iff c).mpr hc.parent⟩

end Capability

end Mandate
