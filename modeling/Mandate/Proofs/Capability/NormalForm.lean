/-
  Mandate.Proofs.Capability.NormalForm
  ────────────────────────────────
  **WRITTEN DOCUMENTS ARE NORMAL FORMS.**

  A document may say one thing in several ways: a single name alone or in a list, a time in
  any zone, fields in any order, and what is empty left out or not.  Writing what was read
  settles all of that at once, so writing what is read from the result changes nothing.
  Proofs are the one part that is never settled: they are carried as they are, with the
  documents in their chains.

      Normal — a document that comes back as it is once it is read and written

  Main results:
    * `toJson_reread`     — what comes back is written in the same way;
    * `normal_iff`        — the normal documents are those that are written;
    * `toJson_eq_iff`     — two capabilities are written alike exactly if they come back
                            as the same;
    * `normal_form_law`   — so whatever is written of a document is a normal form of it,
                            with its proofs as they were.
-/
import Mandate.Proofs.Capability.Chains
import Mandate.Proofs.Capability.RoundTrip

namespace Mandate

open Json (Value)

/-- A caveat is written with its time in UTC in any case. -/
theorem Caveat.toJson_inUtc (k : Caveat) : k.inUtc.toJson = k.toJson := by
  cases k with
  | expiration t =>
      have htext : Document.timeText t.utc = Document.timeText t :=
        Time.timeText_congr t.instant_utc
      rw [inUtc, toJson, toJson, htext]
      rfl
  | _ => rfl

namespace Capability

variable {doc : Value} {c d : Capability}

/-! ## §1. The fields of what comes back. -/

theorem parentField_reread (c : Capability) : c.reread.parentField = c.parentField := by
  show parentField { c with parent := c.parent.filter (!·.isEmpty) } = c.parentField
  unfold parentField
  cases c.parent with
  | none => rfl
  | some p => by_cases hp : p.isEmpty <;> simp [Option.filter, hp]

theorem expiresField_reread (c : Capability) : c.reread.expiresField = c.expiresField := by
  show expiresField { c with expires := c.expires.map (·.utc) } = c.expiresField
  unfold expiresField
  cases c.expires with
  | none => rfl
  | some t =>
      have htext : Document.timeText t.utc = Document.timeText t :=
        Time.timeText_congr t.instant_utc
      simp only [Option.map_some, htext]

theorem caveatValues_reread (c : Capability) : c.reread.caveatValues = c.caveatValues := by
  show (c.caveats.map (·.inUtc)).mapM Caveat.toJson = c.caveats.mapM Caveat.toJson
  rw [List.mapM_map, show (Caveat.toJson ∘ Caveat.inUtc) = Caveat.toJson from
    funext Caveat.toJson_inUtc]

/-- Proofs that were made up for a chain are proofs from then on. -/
theorem proofField_reread (c : Capability) : c.reread.proofField = c.proofField := by
  show proofField { c with proof := c.writtenProof } = c.proofField
  unfold proofField writtenProof
  by_cases hproof : c.proof.isEmpty <;> by_cases hchain : c.chain.isEmpty <;>
    simp [hproof, hchain]

/-- **WHAT COMES BACK IS WRITTEN IN THE SAME WAY.** -/
theorem toJson_reread (c : Capability) : c.reread.toJson = c.toJson := by
  unfold toJson
  rw [expiresField_reread, caveatValues_reread, parentField_reread, proofField_reread]
  rfl

/-! ## §2. Normal documents. -/

/-- A document that comes back as it is once it is read and written. -/
def Normal (doc : Value) : Prop :=
  ∃ c, read .builtIn doc = .ok c ∧ c.toJson = .ok doc

theorem normal_of_toJson (hc : c.WellFormed) (hwrite : c.toJson = .ok doc) :
    read .builtIn doc = .ok c.reread ∧ c.reread.toJson = .ok doc := by
  obtain ⟨doc', hwrite', hread⟩ := read_toJson hc (datable_of_toJson hwrite)
  cases hwrite.symm.trans hwrite'
  exact ⟨hread, c.toJson_reread.trans hwrite⟩

/-- The normal documents are those that are written of some capability. -/
theorem normal_iff : Normal doc ↔ ∃ c : Capability, c.WellFormed ∧ c.toJson = .ok doc := by
  constructor
  · rintro ⟨c, hread, hwrite⟩
    exact ⟨c, wellFormed_of_read hread, hwrite⟩
  · rintro ⟨c, hc, hwrite⟩
    exact ⟨c.reread, normal_of_toJson hc hwrite⟩

/-- Two capabilities are written alike exactly if they come back as the same. -/
theorem toJson_eq_iff (hc : c.WellFormed) (hd : d.WellFormed) (ht : c.Datable) :
    d.toJson = c.toJson ↔ d.reread = c.reread := by
  constructor
  · intro heq
    obtain ⟨doc, hwrite, hread⟩ := read_toJson hc ht
    obtain ⟨hread', -⟩ := normal_of_toJson hd (heq.trans hwrite)
    exact Except.ok.inj (hread'.symm.trans hread)
  · intro heq
    rw [← d.toJson_reread, heq, c.toJson_reread]

/-- **WRITTEN DOCUMENTS ARE NORMAL FORMS.**  What is written of a capability that was read
from a document is read again, and what is written then is the same document, field by
field.  The proofs, and the chain in them, are those of the first document all along. -/
theorem normal_form_law {doc' : Value} (hread : read .builtIn doc = .ok c)
    (hwrite : c.toJson = .ok doc') :
    ∃ c', read .builtIn doc' = .ok c' ∧ c'.toJson = .ok doc' ∧ c'.proof = c.proof ∧
      c'.chain = c.chain := by
  have hc : c.WellFormed := wellFormed_of_read hread
  obtain ⟨hagain, hsame⟩ := normal_of_toJson hc hwrite
  refine ⟨c.reread, hagain, hsame, ?_, rfl⟩
  obtain ⟨hdraft, -⟩ := read_eq_ok_iff.mp hread
  obtain ⟨fields, own, chain, -, -, hchain, rfl⟩ := draft_eq_ok_iff.mp hdraft
  exact writtenProof_eq hchain

/-- A document in a chain, with a list of one name. -/
def middleDocument : Value :=
  .object [("invoker", .list [.text "did:example:alice"]), ("id", .text "urn:zcap:middle")]

/-- A delegation proof whose chain ends with this document. -/
def middleProof : Value :=
  .object [("capabilityChain", .list [.text "urn:zcap:root", middleDocument]),
    ("proofPurpose", .text delegationPurpose), ("created", .text "2026-01-01")]

/-- A document that leaves every choice open: fields in an order of their own, a proof and a
caveat that stand alone, a list of one name and one of none, a time of another place, and a
field of no meaning. -/
def looseDocument : Value :=
  .object [("proof", middleProof),
    ("caveat", .object [("expires", .text "2027-01-01T00:00:00+02:00"),
      ("type", .text "ExpirationCaveat")]),
    ("invoker", .list [.text "did:example:bob"]), ("delegator", .list []),
    ("parentCapability", .text "urn:zcap:middle"), ("note", .int 1), ("id", .text "urn:zcap:leaf")]

/-- What becomes of it: all is settled but the proof, down to the document in its chain. -/
def settledDocument : Value :=
  .object [("@context", .text context), ("id", .text "urn:zcap:leaf"),
    ("invocationTarget", .text "urn:zcap:leaf"), ("parentCapability", .text "urn:zcap:middle"),
    ("invoker", .text "did:example:bob"),
    ("caveat", .list [.object [("type", .text "ExpirationCaveat"),
      ("expires", .text "2026-12-31T22:00:00Z")]]),
    ("proof", .list [middleProof])]

/-- The loose document is written as the settled one, which then stays as it is. -/
theorem loose_document_settles :
    ∃ c, read .builtIn looseDocument = .ok c ∧ c.toJson = .ok settledDocument ∧
    ∃ c', read .builtIn settledDocument = .ok c' ∧ c'.toJson = .ok settledDocument ∧
      c'.proof = [middleProof] ∧ c'.chain = [.text "urn:zcap:root", middleDocument] := by
  let c : Capability :=
    { bare "urn:zcap:leaf" ⟨"urn:zcap:leaf", ""⟩ with
      invoker := [.text "did:example:bob"]
      parent := some "urn:zcap:middle"
      caveats := [.expiration ⟨⟨739981 * Time.day, by decide⟩, ⟨2 * 3600 * Time.second, by decide⟩⟩]
      chain := [.text "urn:zcap:root", middleDocument]
      proof := [middleProof] }
  have hmiddle : ∃ d, read .builtIn middleDocument = .ok d :=
    ⟨_, read_eq_ok_iff.mpr ⟨rfl, validateChain_of_root rfl⟩⟩
  have hshape : c.validateChain .builtIn = .ok () := by
    refine (validateChain_cons_iff rfl).mpr ⟨.inl ⟨_, rfl, by decide⟩, ?_, ?_⟩
    · intro v hv
      rw [List.mem_singleton.mp hv]
      exact hmiddle
    · intro name hname
      cases hname
      exact .inr ⟨_, rfl, rfl⟩
  have hread : read .builtIn looseDocument = .ok c := read_eq_ok_iff.mpr ⟨rfl, hshape⟩
  have hwrite : c.toJson = .ok settledDocument := rfl
  obtain ⟨c', hagain, hsame, hproof, hchain⟩ := normal_form_law hread hwrite
  exact ⟨c, hread, hwrite, c', hagain, hsame, hproof, hchain⟩

end Capability

end Mandate
