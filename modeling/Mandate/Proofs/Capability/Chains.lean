/-
  Mandate.Proofs.Capability.Chains
  ────────────────────────────────
  **WHICH CHAINS CAN BE READ.**

  The chain of a capability is the one that its first delegation proof carries.  Its entries
  are names and documents, and only in the first place a name will do.

      Carries    — the first delegation proof has this for its chain
      ReadsAs    — what an entry is read as
      StandsFor  — an entry is a name, or a document of this name

  Main results:
    * `delegationChain_eq_ok_iff`  — which chain is taken from a list of proofs;
    * `readEntries_eq_ok_iff`      — what the entries of a chain are read as;
    * `validateChain_cons_iff`     — which chains are of a supported shape.
-/
import Mandate.Proofs.Capability.Fields
import Mandate.Proofs.Verification.Phases

namespace Mandate.Capability

open Json (Value Fields)
open Document (IsName)

variable {doc : Value}

/-! ## §1. Which chain. -/

/-- The purpose of a proof is delegation. -/
def IsDelegation (p : Fields) : Prop :=
  Document.field p "proofPurpose" = .text delegationPurpose

/-- The first delegation proof of a list has this for its chain. -/
def Carries (ps : List Fields) (v : Value) : Prop :=
  ∃ before p after, ps = before ++ p :: after ∧ (∀ q ∈ before, ¬ IsDelegation q) ∧
    IsDelegation p ∧ Document.field p "capabilityChain" = v

theorem carries_cons {p : Fields} {ps : List Fields} {v : Value} :
    Carries (p :: ps) v ↔
      (IsDelegation p ∧ Document.field p "capabilityChain" = v) ∨
        ¬ IsDelegation p ∧ Carries ps v := by
  constructor
  · intro h
    obtain ⟨before, q, after, heq, hbefore, hq, hv⟩ := h
    cases before with
    | nil =>
        cases heq
        exact .inl ⟨hq, hv⟩
    | cons p' before =>
        cases heq
        obtain ⟨hp, hbefore⟩ := List.forall_mem_cons.mp hbefore
        exact .inr ⟨hp, before, q, after, rfl, hbefore, hq, hv⟩
  · intro h
    rcases h with ⟨hp, hv⟩ | ⟨hp, before, q, after, rfl, hbefore, hq, hv⟩
    · exact ⟨[], p, ps, rfl, nofun, hp, hv⟩
    · exact ⟨p :: before, q, after, rfl, List.forall_mem_cons.mpr ⟨hp, hbefore⟩, hq, hv⟩

/-- **WHICH CHAIN IS TAKEN.**  Where no proof is a delegation, the chain is empty.  Otherwise
it is the list of entries, one at least, that the first delegation carries. -/
theorem delegationChain_eq_ok_iff {ps : List Fields} {chain : List Value} :
    delegationChain (ps.map .object) = .ok chain ↔
      (chain = [] ∧ ∀ p ∈ ps, ¬ IsDelegation p) ∨ chain ≠ [] ∧ Carries ps (.list chain) := by
  induction ps with
  | nil =>
      have hnone : ∀ v, ¬ Carries [] v := by
        intro v hcarries
        obtain ⟨before, p, after, heq, -⟩ := hcarries
        exact absurd heq (by simp)
      simp [delegationChain, hnone, eq_comm]
  | cons p ps ih =>
      rw [List.map_cons, delegationChain, carries_cons, List.forall_mem_cons]
      by_cases hp : IsDelegation p
      · -- The search ends here, whatever comes behind.
        rw [if_pos (show Document.field p "proofPurpose" = .text delegationPurpose from hp)]
        simp only [hp, not_true_eq_false, false_and, and_false, false_or, true_and, or_false]
        cases Document.field p "capabilityChain" with
        | list es =>
            cases es with
            | nil => simp
            | cons e es =>
                simp only [Except.ok.injEq, Value.list.injEq]
                exact ⟨fun h => ⟨h ▸ List.cons_ne_nil e es, h⟩, And.right⟩
        | _ => simp
      · rw [if_neg (show Document.field p "proofPurpose" ≠ .text delegationPurpose from hp), ih]
        simp [hp]

/-! ## §2. Entries. -/

/-- What an entry of a chain is read as: a text as the name of a root, a document as the
capability that it denotes. -/
inductive ReadsAs (known : Registry) : Value → ChainEntry → Prop
  | root (uri : Text) : ReadsAs known (.text uri) (.root uri)
  | embedded {doc : Value} {c : Capability} (h : read known doc = .ok c) :
      ReadsAs known doc (.embedded c)

theorem exists_object_of_read {known : Registry} {c : Capability} (h : read known doc = .ok c) :
    ∃ fields, doc = .object fields ∧ Document.field fields "id" = .text c.id := by
  obtain ⟨fields, own, chain, rfl, hown, -, rfl⟩ := draft_eq_ok_iff.mp (read_eq_ok_iff.mp h).1
  exact ⟨fields, rfl, (readId_eq_ok_iff.mp (readOwn_eq_ok_iff.mp hown).id).1⟩

/-- **WHAT THE ENTRIES OF A CHAIN ARE READ AS.** -/
theorem readEntries_eq_ok_iff {known : Registry} {index : Nat} {chain : List Value}
    {es : List ChainEntry} :
    readEntries known index chain = .ok es ↔ List.Forall₂ (ReadsAs known) chain es := by
  induction chain generalizing index es with
  | nil => simp [readEntries, eq_comm]
  | cons v chain ih =>
      rw [List.forall₂_cons_left_iff]
      cases v with
      | text uri =>
          rw [readEntries]
          constructor
          · intro h
            split at h
            next => cases h
            next rest hrest =>
              cases h
              exact ⟨_, rest, .root uri, ih.mp hrest, rfl⟩
          · intro hreads
            obtain ⟨e, rest, he, hrest, rfl⟩ := hreads
            cases he with
            | root => simp [ih.mpr hrest]
            | embedded h =>
                obtain ⟨fields, hfields, -⟩ := exists_object_of_read h
                cases hfields
      | object fields =>
          rw [readEntries]
          constructor
          · intro h
            split at h
            next => cases h
            next c hc =>
              split at h
              next => cases h
              next rest hrest =>
                cases h
                exact ⟨_, rest, .embedded hc, ih.mp hrest, rfl⟩
          · intro hreads
            obtain ⟨e, rest, he, hrest, rfl⟩ := hreads
            cases he with
            | embedded h => simp [h, ih.mpr hrest]
      | _ =>
          -- Neither a text nor an object: no reading, and no entry to be read as.
          constructor
          · intro h
            simp [readEntries] at h
          · intro hreads
            obtain ⟨e, rest, he, -⟩ := hreads
            cases he with
            | embedded h =>
                obtain ⟨fields, hfields, -⟩ := exists_object_of_read h
                cases hfields

/-! ## §3. Shapes. -/

theorem checkReferences_eq_ok_iff {index : Nat} {es : List ChainEntry} :
    checkReferences index es = .ok () ↔ ∀ e ∈ es, ∃ c, e = .embedded c := by
  induction es generalizing index with
  | nil => simp [checkReferences]
  | cons e es ih =>
      rw [List.forall_mem_cons]
      cases e with
      | root uri => simp [checkReferences]
      | embedded c => simp [checkReferences, ih]

theorem checkChain_cons_eq_ok_iff {parent : Option Text} {e : ChainEntry}
    {es : List ChainEntry} :
    checkChain parent (e :: es) = .ok () ↔
      e ≠ .root "" ∧ (∀ x ∈ es, ∃ c, x = .embedded c) ∧
        (parent = none ∨ parent = some ((e :: es).getLast (by simp)).id) := by
  by_cases he : e = .root ""
  · subst he
    simp [checkChain]
  · rw [checkChain, bind_unit_eq_ok_iff, checkReferences_eq_ok_iff,
      Verification.checkParent_eq_ok_iff]
    · simp [he]
    · intro h
      subst h
      exact he rfl

/-- An entry of a chain stands for a name: it is the name, or a document of the name. -/
def StandsFor (v : Value) (name : Text) : Prop :=
  v = .text name ∨ ∃ fields, v = .object fields ∧ Document.field fields "id" = .text name

theorem ReadsAs.standsFor_iff {known : Registry} {v : Value} {e : ChainEntry} {name : Text}
    (h : ReadsAs known v e) : StandsFor v name ↔ e.id = name := by
  cases h with
  | root uri => simp [StandsFor, ChainEntry.id]
  | embedded h =>
      obtain ⟨fields, rfl, hid⟩ := exists_object_of_read h
      simp [StandsFor, hid, ChainEntry.id]

theorem readsAs_getLast {known : Registry} {v : Value} {vs : List Value} {e : ChainEntry}
    {es : List ChainEntry} (hfirst : ReadsAs known v e)
    (hrest : List.Forall₂ (ReadsAs known) vs es) :
    ReadsAs known ((v :: vs).getLast (by simp)) ((e :: es).getLast (by simp)) := by
  induction hrest generalizing v e with
  | nil => exact hfirst
  | cons hsecond _ ih => exact ih hsecond

/-- Entries are all read as capabilities exactly if each of them is a document that is
read. -/
theorem exists_embedded_iff {known : Registry} {vs : List Value} :
    (∃ es, List.Forall₂ (ReadsAs known) vs es ∧ ∀ e ∈ es, ∃ c, e = .embedded c) ↔
      ∀ v ∈ vs, ∃ c, read known v = .ok c := by
  induction vs with
  | nil => simp
  | cons v vs ih =>
      rw [List.forall_mem_cons, ← ih]
      constructor
      · intro h
        obtain ⟨es, hes, hall⟩ := h
        obtain ⟨e, rest, he, hrest, rfl⟩ := List.forall₂_cons_left_iff.mp hes
        obtain ⟨⟨c, rfl⟩, hrestall⟩ := List.forall_mem_cons.mp hall
        cases he with
        | embedded hc => exact ⟨⟨c, hc⟩, rest, hrest, hrestall⟩
      · intro h
        obtain ⟨⟨c, hc⟩, rest, hrest, hall⟩ := h
        exact ⟨.embedded c :: rest, .cons (.embedded hc) hrest,
          List.forall_mem_cons.mpr ⟨⟨c, rfl⟩, hall⟩⟩

/-- **WHICH CHAINS ARE SUPPORTED.**  A chain starts with a name or a document that is read,
every later entry is a document that is read, and the last entry stands for the parent
if there is one. -/
theorem validateChain_cons_iff {known : Registry} {c : Capability} {first : Value}
    {later : List Value} (hchain : c.chain = first :: later) :
    c.validateChain known = .ok () ↔
      (IsName first ∨ ∃ d, read known first = .ok d) ∧
        (∀ v ∈ later, ∃ d, read known v = .ok d) ∧
        ∀ name, c.parent = some name → StandsFor ((first :: later).getLast (by simp)) name := by
  rw [validateChain_eq_ok_iff, entries, hchain]
  simp only [readEntries_eq_ok_iff, ← exists_embedded_iff]
  constructor
  · intro hread
    obtain ⟨es, hes, hshape⟩ := hread
    obtain ⟨e, rest, he, hrest, rfl⟩ := List.forall₂_cons_left_iff.mp hes
    obtain ⟨hproper, hembedded, hparent⟩ := checkChain_cons_eq_ok_iff.mp hshape
    refine ⟨?_, ⟨rest, hrest, hembedded⟩, fun name hname => ?_⟩
    · cases he with
      | root uri =>
          refine .inl ⟨uri, rfl, ?_⟩
          intro hempty
          subst hempty
          exact hproper rfl
      | embedded h => exact .inr ⟨_, h⟩
    · rw [hname] at hparent
      rw [(readsAs_getLast he hrest).standsFor_iff]
      rcases hparent with hnone | hsome
      · cases hnone
      · exact (Option.some.inj hsome).symm
  · intro hshape
    obtain ⟨hfirst, ⟨rest, hrest, hembedded⟩, hparent⟩ := hshape
    have he : ∃ e, ReadsAs known first e ∧ e ≠ .root "" := by
      rcases hfirst with ⟨uri, rfl, huri⟩ | ⟨d, hd⟩
      · exact ⟨.root uri, .root uri, by simpa using huri⟩
      · refine ⟨.embedded d, .embedded hd, ?_⟩
        intro hempty
        cases hempty
    obtain ⟨e, he, hproper⟩ := he
    refine ⟨e :: rest, .cons he hrest,
      checkChain_cons_eq_ok_iff.mpr ⟨hproper, hembedded, ?_⟩⟩
    have hlast := readsAs_getLast he hrest
    cases hname : c.parent with
    | none => exact .inl rfl
    | some name => exact .inr (congrArg some (hlast.standsFor_iff.mp (hparent name hname)).symm)

end Mandate.Capability
