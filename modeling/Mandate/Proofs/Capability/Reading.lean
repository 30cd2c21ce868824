/-
  Mandate.Proofs.Capability.Reading
  ────────────────────────────────
  **WHAT IS READ.**

  A document is read by its own fields first and by its chain afterwards, and it
  is read exactly if both go well.  So a fact about the capability that a document
  denotes is a fact about the fields of the document.

  Main results:
    * `readOwn_eq_ok_iff` — what each of the fields of a document has to be;
    * `draft_eq_ok_iff`  — the fields of a document that can be read on its own;
    * `read_eq_ok_iff`   — a document is read exactly if it can be read on its own
                           and its chain has a supported shape;
    * `id_ne_of_read`    — what is read has a name.
-/
import Mandate.Proofs.Success

namespace Mandate

open Json (Value Fields)

/-- A caveat is an object of a known type, with the fields of that type. -/
theorem Caveat.read_eq_ok_iff {known : Registry} {v : Value} {k : Caveat} :
    Caveat.read known v = .ok k ↔
      ∃ fields type kind, v = .object fields ∧ Document.field fields "type" = .text type ∧
        known.lookup type = some kind ∧ kind.read type fields = .ok k := by
  cases v with
  | object fields =>
      rw [Caveat.read]
      cases htype : Document.field fields "type" with
      | text name =>
          cases hkind : known.lookup name with
          | none => simp [Value.text?, htype, hkind]
          | some kind => simp [Value.text?, htype, hkind]
      | _ => simp [Value.text?, htype]
  | _ => simp [Caveat.read]

namespace Capability

variable {known : Registry} {fields : Fields} {doc : Value} {c : Capability}

theorem readId_eq_ok_iff {id : Text} :
    readId fields = .ok id ↔ Document.field fields "id" = .text id ∧ id.isEmpty = false := by
  rw [readId, ← Document.properText?_eq_some]
  cases Document.properText? (Document.field fields "id") <;> simp

/-- A field of names says these. -/
def Names (fields : Fields) (name : String) (vs : List Value) : Prop :=
  ∃ ss, Document.readNames name (Document.field fields name) = .ok ss ∧ ss.map .text = vs

/-- The fields of a document say what the capability is, its chain apart. -/
structure Says (known : Registry) (fields : Fields) (c : Capability) : Prop where
  id : readId fields = .ok c.id
  parent : readParent fields = .ok c.parent
  caveats : ∃ docs, caveatDocuments fields = .ok docs ∧
    docs.mapM (Caveat.read known) = .ok c.caveats
  proof : proofList (Document.field fields "proof") = .ok c.proof
  target : Target.read ((fields.lookup (.plain "invocationTarget")).getD (.text c.id))
    = .ok c.target
  allowedAction : Names fields "allowedAction" c.allowedAction
  controller : Names fields "controller" c.controller
  invoker : Names fields "invoker" c.invoker
  delegator : Names fields "delegator" c.delegator
  expires : Document.readTime "expires" (Document.field fields "expires") = .ok c.expires
  chain : c.chain = []

/-- A document is read by its own fields exactly if each of them is readable. -/
theorem readOwn_eq_ok_iff : readOwn known fields = .ok c ↔ Says known fields c := by
  simp only [readOwn, bind_eq_ok, map_eq_ok_iff]
  constructor
  · rintro ⟨id, hid, parent, hparent, docs, hdocs, proof, hproof, target, htarget, actions,
      hactions, controller, hcontroller, invoker, hinvoker, delegator, hdelegator, expires,
      hexpires, caveats, hcaveats, hc⟩
    cases hc
    exact ⟨hid, hparent, ⟨docs, hdocs, hcaveats⟩, hproof, htarget, hactions, hcontroller,
      hinvoker, hdelegator, hexpires, rfl⟩
  · rintro ⟨hid, hparent, ⟨docs, hdocs, hcaveats⟩, hproof, htarget, hactions, hcontroller,
      hinvoker, hdelegator, hexpires, hchain⟩
    refine ⟨_, hid, _, hparent, _, hdocs, _, hproof, _, htarget, _, hactions, _, hcontroller, _,
      hinvoker, _, hdelegator, _, hexpires, _, hcaveats, ?_⟩
    rw [← hchain]
    rfl

/-- Whatever can be read on its own is an object with readable fields, and takes its
chain from its proofs. -/
theorem draft_eq_ok_iff :
    draft known doc = .ok c ↔
      ∃ fields own chain, doc = .object fields ∧ readOwn known fields = .ok own ∧
        delegationChain own.proof = .ok chain ∧ c = { own with chain } := by
  cases doc with
  | object fields =>
      rw [draft]
      cases hown : readOwn known fields with
      | error f => simp [hown]
      | ok own =>
          cases hchain : delegationChain own.proof with
          | error f => simp [hown, hchain]
          | ok chain => simp [hown, hchain, eq_comm]
  | _ => simp [draft]

theorem read_eq_ok_iff :
    read known doc = .ok c ↔ draft known doc = .ok c ∧ c.validateChain known = .ok () := by
  rw [read_eq]
  constructor
  · intro h
    split at h
    next => cases h
    next d hdraft =>
      split at h
      next => cases h
      next hchain =>
        cases h
        exact ⟨hdraft, hchain⟩
  · rintro ⟨hdraft, hchain⟩
    simp [hdraft, hchain]

/-- A chain is of a supported shape exactly if its entries can be read and are. -/
theorem validateChain_eq_ok_iff :
    c.validateChain known = .ok () ↔
      ∃ es, c.entries known = .ok es ∧ checkChain c.parent es = .ok () := by
  rw [validateChain]
  cases c.entries known <;> simp

/-- The shape of a chain depends on the chain and the parent only. -/
theorem validateChain_congr {d : Capability} (hchain : d.chain = c.chain)
    (hparent : d.parent = c.parent) : d.validateChain known = c.validateChain known := by
  rw [validateChain, validateChain, entries, entries, hchain, hparent]

/-- Without a chain there is nothing about its shape to refuse. -/
theorem validateChain_of_root (h : c.chain = []) : c.validateChain known = .ok () :=
  validateChain_eq_ok_iff.mpr ⟨[], by simp [entries, readEntries, h], rfl⟩

/-- Whatever is read has a name. -/
theorem id_ne_of_read (h : read known doc = .ok c) : c.id ≠ "" := by
  obtain ⟨fields, own, chain, -, hown, -, rfl⟩ := draft_eq_ok_iff.mp (read_eq_ok_iff.mp h).1
  have hid := (readId_eq_ok_iff.mp (readOwn_eq_ok_iff.mp hown).id).2
  intro hempty
  rw [show own.id = "" from hempty] at hid
  exact absurd hid (by decide)

end Capability

end Mandate
