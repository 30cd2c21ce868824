/-
  Mandate.Proofs.Resolver.Store
  ────────────────────────────────
  **WHAT A STORE HOLDS.**

  A capability stands in a store under its own name.  Every fact about the
  capabilities that are taken up is therefore a fact about whatever the store
  answers with.

  Main results:
    * `resolve_eq_ok_iff`  — a store answers with what it holds under a name;
    * `Keeps.add`          — taking up a capability keeps a fact that it has;
    * `Keeps.discard`      — removing one keeps every fact;
    * `keeps_ofList`       — so does taking up a list of them;
    * `Keeps.addDocuments` — and taking up what documents denote.
-/
import Mandate.Proofs.Capability.Reading
import Mandate.Resolver.Store

namespace Mandate.Store

open Json (Value)

variable {P : Capability → Prop} {known : Registry} {s s' : Store} {c : Capability}

theorem resolve_eq_ok_iff {uri : Text} : s.resolve uri = .ok c ↔ s.lookup uri = some c := by
  unfold resolve
  cases s.lookup uri <;> simp

/-- What is found in a store has the name it is found by, and the fact holds of it. -/
def Keeps (P : Capability → Prop) (s : Store) : Prop :=
  ∀ uri c, s.resolve uri = .ok c → c.id = uri ∧ P c

theorem keeps_nil : Keeps P [] := by
  intro uri c h
  cases resolve_eq_ok_iff.mp h

theorem Keeps.add (h : s.Keeps P) (hc : P c) : (s.add c).Keeps P := by
  intro uri d hd
  rw [resolve_eq_ok_iff, Store.add, Table.lookup_put] at hd
  split at hd
  next huri =>
    cases hd
    exact ⟨huri.symm, hc⟩
  next => exact h uri d (resolve_eq_ok_iff.mpr hd)

theorem Keeps.discard (h : s.Keeps P) (uri : Text) : (s.discard uri).2.Keeps P := by
  intro name d hd
  rw [resolve_eq_ok_iff, Store.discard, Table.lookup_remove] at hd
  split at hd
  next => cases hd
  next => exact h name d (resolve_eq_ok_iff.mpr hd)

theorem keeps_ofList {cs : List Capability} (h : ∀ c ∈ cs, P c) : (ofList cs).Keeps P := by
  -- The store that the fold has come to keeps the fact at every step.
  suffices hfold : ∀ s : Store, s.Keeps P → Keeps P (cs.foldl Store.add s) from hfold [] keeps_nil
  induction cs with
  | nil => exact fun s hs => hs
  | cons c cs ih =>
      intro s hs
      exact ih (fun d hd => h d (.tail _ hd)) _ (hs.add (h c (.head _)))

theorem addDocuments_cons {d : Value} (h : Capability.read known d = .ok c) (ds : List Value) :
    s.addDocuments known (d :: ds) = (s.add c).addDocuments known ds := by
  rw [Store.addDocuments, addDocument, h]

theorem Keeps.addDocuments {docs : List Value} (h : s.Keeps P)
    (hdocs : ∀ d ∈ docs, ∀ c, Capability.read known d = .ok c → P c)
    (hs : s.addDocuments known docs = .ok s') : s'.Keeps P := by
  induction docs generalizing s with
  | nil =>
      cases hs
      exact h
  | cons d ds ih =>
      -- A document that cannot be read ends the run, so this one was read.
      cases hread : Capability.read known d with
      | error r =>
          rw [Store.addDocuments, addDocument, hread] at hs
          cases hs
      | ok c =>
          rw [addDocuments_cons hread] at hs
          exact ih (h.add (hdocs d (.head _) c hread)) (fun e he => hdocs e (.tail _ he)) hs

end Mandate.Store
