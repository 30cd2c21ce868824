/-
  Mandate.Proofs.Table
  ────────────────────────────────
  **TABLES THAT WRITE NO NAME TWICE.**

  A table that is only ever written to by `put` has each name once, and then what is found
  under a name is what stands there.

  Main results:
    * `Distinct.put`                — writing keeps names apart;
    * `Distinct.lookup_eq_some_iff` — without a name twice, what is found is what is there.
-/
import Mandate.Table
import Mathlib.Data.List.Nodup

namespace Mandate.Table

variable {κ α : Type} [DecidableEq κ] {t : Table κ α} {name : κ} {v : α}

/-- No name is written twice. -/
def Distinct (t : Table κ α) : Prop := (t.map Prod.fst).Nodup

instance (t : Table κ α) : Decidable t.Distinct := inferInstanceAs (Decidable (List.Nodup _))

omit [DecidableEq κ] in
theorem distinct_nil : Distinct ([] : Table κ α) := List.nodup_nil

theorem has_eq_false_iff : t.has name = false ↔ name ∉ t.map Prod.fst := by
  unfold has
  rw [List.any_eq_false, List.mem_map]
  constructor
  · rintro h ⟨e, he, rfl⟩
    exact h e he (beq_self_eq_true _)
  · intro h e he hname
    exact h ⟨e, he, eq_of_beq hname⟩

theorem put_of_new (h : name ∉ t.map Prod.fst) (v : α) : t.put name v = t ++ [(name, v)] := by
  unfold put
  rw [has_eq_false_iff.mpr h]
  rfl

/-- Something is found under the names that are there. -/
theorem exists_lookup_iff : (∃ v, t.lookup name = some v) ↔ name ∈ t.map Prod.fst := by
  induction t with
  | nil => simp
  | cons e es ih =>
      obtain ⟨k, w⟩ := e
      rw [List.map_cons, List.mem_cons, ← ih]
      by_cases hname : name = k <;> simp [lookup_entry, hname]

/-- Writing keeps names apart. -/
theorem Distinct.put (h : t.Distinct) (name : κ) (v : α) : (t.put name v).Distinct := by
  by_cases hnew : name ∉ t.map Prod.fst
  · rw [put_of_new hnew]
    unfold Distinct
    rw [List.map_append, List.map_singleton, List.nodup_append]
    refine ⟨h, List.pairwise_singleton _ _, ?_⟩
    intro a ha b hb
    rw [List.mem_singleton.mp hb]
    rintro rfl
    exact hnew ha
  · -- A name that is there keeps its place, so the names are the same as before.
    have hhas : t.has name = true := by
      rw [← Bool.not_eq_false, has_eq_false_iff]
      exact hnew
    have hnames : (t.map fun e => if e.1 == name then (name, v) else e).map Prod.fst
        = t.map Prod.fst := by
      rw [List.map_map]
      refine List.map_congr_left fun e _ => ?_
      show (if e.1 == name then (name, v) else e).1 = e.1
      by_cases he : e.1 = name <;> simp [he]
    unfold Distinct Table.put
    rw [if_pos hhas, hnames]
    exact h

/-- Without a name twice, what is found is what is there. -/
theorem Distinct.lookup_eq_some_iff (h : t.Distinct) :
    t.lookup name = some v ↔ (name, v) ∈ t := by
  induction t with
  | nil => simp
  | cons e es ih =>
      obtain ⟨k, w⟩ := e
      obtain ⟨hk, hes⟩ := List.nodup_cons.mp h
      rw [lookup_entry, List.mem_cons]
      by_cases hname : name = k
      · subst hname
        have hnone : (name, v) ∉ es := fun hmem => hk (List.mem_map.mpr ⟨_, hmem, rfl⟩)
        simp [hnone, eq_comm]
      · rw [if_neg hname, ih hes]
        simp [hname]

end Mandate.Table
