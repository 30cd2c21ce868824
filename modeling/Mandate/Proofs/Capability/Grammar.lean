/-
  Mandate.Proofs.Capability.Grammar
  ────────────────────────────────
  **WHICH DOCUMENTS ARE CAPABILITIES.**

  A document denotes a capability if its fields are what they may be and the chain that its
  proofs carry is of a supported shape.  The entries of the chain are documents again, and
  have to be of the same grammar.

      Acceptable  — the grammar, which goes down into the chains

  Main results:
    * `exists_read_iff`         — what it takes to be read, one document down;
    * `grammar_law`             — the documents that are read are those of the grammar;
    * `chain_start_not_enough`  — a chain that starts with a name may still be refused.
-/
import Mandate.Capability.Writer
import Mandate.Proofs.Capability.Chains

namespace Mandate.Capability

open Json (Value Fields)
open Document (IsName)

variable {fields : Fields}

/-! ## §1. One document down. -/

/-- A document can be read on its own exactly if its fields are what they may be and a chain
can be taken from its proofs. -/
theorem exists_draft_iff {chain : List Value} :
    (∃ c, draft .builtIn (.object fields) = .ok c ∧ c.chain = chain) ↔
      Plain fields ∧ ∃ ps, ListsProofs (Document.field fields "proof") ps ∧
        delegationChain (ps.map .object) = .ok chain := by
  constructor
  · intro h
    obtain ⟨c, hdraft, rfl⟩ := h
    obtain ⟨_, own, chain, heq, hown, hchain, rfl⟩ := draft_eq_ok_iff.mp hdraft
    cases heq
    obtain ⟨hplain, hproof⟩ := exists_says_iff.mp ⟨own, readOwn_eq_ok_iff.mp hown, rfl⟩
    obtain ⟨ps, hps, hproofs⟩ := proofList_eq_ok_iff.mp hproof
    rw [hproofs] at hchain
    exact ⟨hplain, ps, hps, hchain⟩
  · intro h
    obtain ⟨hplain, ps, hps, hchain⟩ := h
    have hproof := proofList_eq_ok_iff.mpr ⟨ps, hps, rfl⟩
    obtain ⟨own, hsays, hproofs⟩ := exists_says_iff.mpr ⟨hplain, hproof⟩
    rw [← hproofs] at hchain
    exact ⟨{ own with chain }, draft_eq_ok_iff.mpr
      ⟨fields, own, chain, rfl, readOwn_eq_ok_iff.mpr hsays, hchain, rfl⟩, rfl⟩

/-- The parent of what is read is the one that its document names. -/
theorem parent_eq_some_iff {c : Capability} (h : draft .builtIn (.object fields) = .ok c)
    {name : Text} :
    c.parent = some name ↔ Document.field fields "parentCapability" = .text name := by
  obtain ⟨_, own, chain, heq, hown, -, rfl⟩ := draft_eq_ok_iff.mp h
  cases heq
  rw [readParent_eq_ok_iff.mp (readOwn_eq_ok_iff.mp hown).parent]
  cases own.parent <;> simp [Value.ofText?]

/-- The chain that a document carries is smaller than the document. -/
theorem sizeOf_carried {ps : List Fields} {first : Value} {later : List Value}
    (hplain : Plain fields) (hps : ListsProofs (Document.field fields "proof") ps)
    (hcarries : Carries ps (.list (first :: later))) :
    sizeOf (first :: later) < sizeOf (Value.object fields) := by
  have hchain := delegationChain_eq_ok_iff.mpr (.inr ⟨List.cons_ne_nil first later, hcarries⟩)
  obtain ⟨c, hdraft, hc⟩ := exists_draft_iff.mpr ⟨hplain, ps, hps, hchain⟩
  rw [← hc]
  exact sizeOf_chain_draft hdraft

/-- What it takes to be read, one document down: the entries of the chain that have to be
documents are read themselves. -/
theorem exists_read_iff :
    (∃ c, read .builtIn (.object fields) = .ok c) ↔
      Plain fields ∧ ∃ ps, ListsProofs (Document.field fields "proof") ps ∧
        ((∀ p ∈ ps, ¬ IsDelegation p) ∨ ∃ first later, Carries ps (.list (first :: later)) ∧
          (IsName first ∨ ∃ d, read .builtIn first = .ok d) ∧
          (∀ v ∈ later, ∃ d, read .builtIn v = .ok d) ∧
          ∀ name, Document.field fields "parentCapability" = .text name →
            StandsFor ((first :: later).getLast (by simp)) name) := by
  constructor
  · intro h
    obtain ⟨c, hread⟩ := h
    obtain ⟨hdraft, hshape⟩ := read_eq_ok_iff.mp hread
    obtain ⟨hplain, ps, hps, hchain⟩ := exists_draft_iff.mp ⟨c, hdraft, rfl⟩
    refine ⟨hplain, ps, hps, ?_⟩
    rcases delegationChain_eq_ok_iff.mp hchain with ⟨-, hnone⟩ | ⟨hne, hcarries⟩
    · exact .inl hnone
    · obtain ⟨first, later, hsplit⟩ := List.exists_cons_of_ne_nil hne
      rw [hsplit] at hcarries
      obtain ⟨hfirst, hlater, hlast⟩ := (validateChain_cons_iff hsplit).mp hshape
      exact .inr ⟨first, later, hcarries, hfirst, hlater,
        fun name hname => hlast name ((parent_eq_some_iff hdraft).mpr hname)⟩
  · intro h
    obtain ⟨hplain, ps, hps, hgrammar⟩ := h
    rcases hgrammar with hnone | ⟨first, later, hcarries, hfirst, hlater, hlast⟩
    · have hchain := delegationChain_eq_ok_iff.mpr (.inl ⟨rfl, hnone⟩)
      obtain ⟨c, hdraft, hc⟩ := exists_draft_iff.mpr ⟨hplain, ps, hps, hchain⟩
      exact ⟨c, read_eq_ok_iff.mpr ⟨hdraft, validateChain_of_root hc⟩⟩
    · have hchain := delegationChain_eq_ok_iff.mpr (.inr ⟨List.cons_ne_nil first later, hcarries⟩)
      obtain ⟨c, hdraft, hc⟩ := exists_draft_iff.mpr ⟨hplain, ps, hps, hchain⟩
      have hshape := (validateChain_cons_iff hc).mpr ⟨hfirst, hlater,
        fun name hname => hlast name ((parent_eq_some_iff hdraft).mp hname)⟩
      exact ⟨c, read_eq_ok_iff.mpr ⟨hdraft, hshape⟩⟩

/-! ## §2. The grammar. -/

/-- The documents that denote capabilities. -/
inductive Acceptable : Value → Prop
  /-- Without a delegation proof, there are only the fields to look at. -/
  | root {fields : Fields} {ps : List Fields} (plain : Plain fields)
      (proofs : ListsProofs (Document.field fields "proof") ps)
      (none : ∀ p ∈ ps, ¬ IsDelegation p) : Acceptable (.object fields)
  /-- The first delegation proof carries a chain: a name or else a document, then documents,
  the last of which stands for the parent if the document names one. -/
  | delegation {fields : Fields} {ps : List Fields} {first : Value} {later : List Value}
      (plain : Plain fields) (proofs : ListsProofs (Document.field fields "proof") ps)
      (carries : Carries ps (.list (first :: later)))
      (start : ¬ IsName first → Acceptable first) (documents : ∀ v ∈ later, Acceptable v)
      (parent : ∀ name, Document.field fields "parentCapability" = .text name →
        StandsFor ((first :: later).getLast (by simp)) name) : Acceptable (.object fields)

/-- **THE GRAMMAR OF DOCUMENTS.**  A value is read as a capability if and only if it is a
document of the grammar. -/
theorem grammar_law (doc : Value) : (∃ c, read .builtIn doc = .ok c) ↔ Acceptable doc := by
  -- By induction on the size, since the entries of a chain are parts of its document.
  induction hsize : sizeOf doc using Nat.strongRecOn generalizing doc with
  | ind n ih =>
      cases doc with
      | object fields =>
          have hentries : ∀ {ps first later}, Plain fields →
              ListsProofs (Document.field fields "proof") ps →
              Carries ps (.list (first :: later)) → ∀ v ∈ first :: later,
              ((∃ d, read .builtIn v = .ok d) ↔ Acceptable v) := by
            intro ps first later hplain hps hcarries v hv
            have hchain := sizeOf_carried hplain hps hcarries
            have hpart := List.sizeOf_lt_of_mem hv
            exact ih (sizeOf v) (by omega) v rfl
          rw [exists_read_iff]
          constructor
          · intro hread
            obtain ⟨hplain, ps, hps, hchain⟩ := hread
            rcases hchain with hnone | ⟨first, later, hcarries, hfirst, hlater, hlast⟩
            · exact .root hplain hps hnone
            · have hiff := hentries hplain hps hcarries
              refine .delegation hplain hps hcarries (fun hno => ?_) (fun v hv => ?_) hlast
              · exact (hiff first (.head _)).mp (hfirst.resolve_left hno)
              · exact (hiff v (.tail _ hv)).mp (hlater v hv)
          · intro h
            cases h with
            | root hplain hps hnone => exact ⟨hplain, _, hps, .inl hnone⟩
            | @delegation _ ps first later hplain hps hcarries hstart hdocuments hlast =>
                have hiff := hentries hplain hps hcarries
                refine ⟨hplain, ps, hps, .inr ⟨first, later, hcarries, ?_, fun v hv => ?_, hlast⟩⟩
                · by_cases hname : IsName first
                  · exact .inl hname
                  · exact .inr ((hiff first (.head _)).mpr (hstart hname))
                · exact (hiff v (.tail _ hv)).mpr (hdocuments v hv)
      | _ =>
          constructor
          · intro hread
            obtain ⟨c, hc⟩ := hread
            obtain ⟨fields, hfields, -⟩ := exists_object_of_read hc
            cases hfields
          · intro h
            cases h

/-- The grammar up to the start of the chain that a document carries. -/
def StartsWell (fields : Fields) : Prop :=
  Plain fields ∧ ∃ ps first later, ListsProofs (Document.field fields "proof") ps ∧
    Carries ps (.list (first :: later)) ∧ (IsName first ∨ Acceptable first)

/-- The fields of a document with this parent and a proof that carries this chain. -/
def chained (parent : Value) (chain : List Value) : Fields :=
  [("id", .text "urn:zcap:leaf"), ("parentCapability", parent), ("proof", chainProof chain)]

theorem startsWell_chained {parent : Value} (h : parent = .null ∨ ∃ s, parent = .text s)
    {name : Text} (hname : name ≠ "") (later : List Value) :
    StartsWell (chained parent (.text name :: later)) := by
  constructor
  · refine ⟨⟨"urn:zcap:leaf", rfl, by decide⟩, ?_, h, ?_, .inl rfl, ?_⟩
    · intro v hv
      simp [chained, Table.lookup_entry] at hv
    · simp [chained, Document.field, Table.lookup_entry]
    · intro v hv
      simp [chained, Table.lookup_entry] at hv
  · refine ⟨[_], .text name, later, .inr (.inl ⟨_, rfl, rfl⟩), ?_, .inl ⟨name, rfl, hname⟩⟩
    refine ⟨[], _, [], rfl, ?_, rfl, rfl⟩
    intro p hp
    cases hp

/-- What the grammar says of the start of a chain is not enough: behind a name a second name
is refused, and so is a last entry other than the parent. -/
theorem chain_start_not_enough :
    (StartsWell (chained .null [.text "urn:zcap:root", .text "urn:zcap:middle"]) ∧
      ∀ c, read .builtIn
        (.object (chained .null [.text "urn:zcap:root", .text "urn:zcap:middle"])) ≠ .ok c) ∧
    (StartsWell (chained (.text "urn:zcap:other") [.text "urn:zcap:root"]) ∧
      ∀ c, read .builtIn
        (.object (chained (.text "urn:zcap:other") [.text "urn:zcap:root"])) ≠ .ok c) := by
  refine ⟨⟨startsWell_chained (.inl rfl) (by decide) _, fun c hread => ?_⟩,
    startsWell_chained (.inr ⟨_, rfl⟩) (by decide) _, fun c hread => ?_⟩
  · obtain ⟨hdraft, hshape⟩ := read_eq_ok_iff.mp hread
    have hchain : c.chain = [.text "urn:zcap:root", .text "urn:zcap:middle"] := by
      cases hdraft
      rfl
    -- The second entry would have to be a document.
    obtain ⟨-, hlater, -⟩ := (validateChain_cons_iff hchain).mp hshape
    obtain ⟨d, hd⟩ := hlater _ (.head _)
    obtain ⟨fields, hfields, -⟩ := exists_object_of_read hd
    cases hfields
  · obtain ⟨hdraft, hshape⟩ := read_eq_ok_iff.mp hread
    have hchain : c.chain = [.text "urn:zcap:root"] ∧ c.parent = some "urn:zcap:other" := by
      cases hdraft
      exact ⟨rfl, rfl⟩
    obtain ⟨-, -, hlast⟩ := (validateChain_cons_iff hchain.1).mp hshape
    rcases hlast _ hchain.2 with htext | ⟨fields, hfields, -⟩
    · exact absurd htext (by decide)
    · cases hfields

end Mandate.Capability
