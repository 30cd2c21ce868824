/-
  Mandate.Table
  ────────────────────────────────
  **TABLES.**

  A table is a list of names and values in the order in which the names first
  came.  A value written under a name that is there takes the place of the old
  one, so no name is written twice.

  Main results:
    * `lookup_put`     — what is found after writing;
    * `lookup_remove`  — what is found after removing.
-/

namespace Mandate

/-- Names and values, in the order of the names' first appearance. -/
abbrev Table (κ α : Type) := List (κ × α)

namespace Table

variable {κ α : Type} [DecidableEq κ]

/-- A name has a value. -/
def has (t : Table κ α) (name : κ) : Bool :=
  t.any (·.1 == name)

/-- Write a value: in place if the name is there, otherwise at the end. -/
def put (t : Table κ α) (name : κ) (value : α) : Table κ α :=
  if t.has name then t.map fun e => if e.1 == name then (name, value) else e
  else t ++ [(name, value)]

/-- Write several values, one after the other. -/
def putAll (t more : Table κ α) : Table κ α :=
  more.foldl (fun acc e => acc.put e.1 e.2) t

/-- Remove a name and its value. -/
def remove (t : Table κ α) (name : κ) : Table κ α :=
  t.filter (·.1 != name)

/-! ## What is found. -/

theorem lookup_entry (k key : κ) (v : α) (es : Table κ α) :
    List.lookup key ((k, v) :: es) = if key = k then some v else es.lookup key := by
  rw [List.lookup_cons]
  by_cases h : key = k
  · simp [h]
  · have : (key == k) = false := by simpa using h
    rw [this, if_neg h]

theorem lookup_eq_none_of_not_has {t : Table κ α} {name : κ} (h : t.has name = false) :
    t.lookup name = none := by
  induction t with
  | nil => rfl
  | cons e es ih =>
      obtain ⟨k, v⟩ := e
      simp only [has, List.any_cons, Bool.or_eq_false_iff, beq_eq_false_iff_ne] at h
      rw [lookup_entry, if_neg (Ne.symm h.1)]
      exact ih h.2

theorem lookup_append_single (t : Table κ α) (name key : κ) (value : α) :
    (t ++ [(name, value)]).lookup key =
      (t.lookup key).or (if key = name then some value else none) := by
  induction t with
  | nil => rw [List.nil_append, lookup_entry]; rfl
  | cons e es ih =>
      obtain ⟨k, v⟩ := e
      rw [List.cons_append, lookup_entry, lookup_entry, ih]
      split <;> simp

theorem lookup_replace (t : Table κ α) (name key : κ) (value : α) (h : t.has name = true) :
    (t.map fun e => if e.1 == name then (name, value) else e).lookup key =
      if key = name then some value else t.lookup key := by
  induction t with
  | nil => simp [has] at h
  | cons e es ih =>
      obtain ⟨k, v⟩ := e
      by_cases hk : k = name
      · subst hk
        simp only [List.map_cons, beq_self_eq_true, if_true, lookup_entry]
        by_cases hkey : key = k
        · simp [hkey]
        · simp only [if_neg hkey]
          by_cases hes : Table.has es k
          · rw [ih hes, if_neg hkey]
          · have hes : ∀ a ∈ es, (a.1 == k) = false := by
              intro a ha
              simp only [has, List.any_eq_true, not_exists, not_and] at hes
              simpa using hes a ha
            rw [List.map_congr_left (g := id) (fun a ha => by simp [hes a ha]), List.map_id]
      · have hk' : (k == name) = false := by simpa using hk
        have hes : Table.has es name = true := by simpa [has, hk'] using h
        simp only [List.map_cons, hk', Bool.false_eq_true, if_false, lookup_entry, ih hes]
        by_cases hkey : key = k
        · simp [hkey, hk]
        · simp [hkey]

/-- What is found after writing: the value under its name, all else as before. -/
theorem lookup_put (t : Table κ α) (name key : κ) (value : α) :
    (t.put name value).lookup key = if key = name then some value else t.lookup key := by
  unfold put
  split
  next h => exact lookup_replace t name key value h
  next h =>
    have h : t.has name = false := by simpa using h
    rw [lookup_append_single]
    split
    next hk => rw [hk, lookup_eq_none_of_not_has h, Option.none_or]
    next => simp

/-- What is found after removing: nothing under the name, all else as before. -/
theorem lookup_remove (t : Table κ α) (name key : κ) :
    (t.remove name).lookup key = if key = name then none else t.lookup key := by
  induction t with
  | nil => simp [remove]
  | cons e es ih =>
      obtain ⟨k, v⟩ := e
      unfold remove at ih ⊢
      by_cases hk : k = name
      · subst hk
        simp only [List.filter_cons, bne_self_eq_false, Bool.false_eq_true, if_false, ih,
          lookup_entry]
        split <;> rfl
      · have hk' : (k != name) = true := by simpa using hk
        simp only [List.filter_cons, hk', if_true, lookup_entry, ih]
        by_cases hkey : key = k
        · simp [hkey, hk]
        · simp [hkey]

end Table

end Mandate
