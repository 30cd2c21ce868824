/-
  Mandate.Text.Split
  ────────────────────────────────
  **CUTTING TEXTS.**

  A text is cut at every separator, or at the first one.  Nothing but the
  separators is lost (`join_splitOn`, `cut?_eq_some`).
-/

namespace Mandate.Text

variable {α : Type} [DecidableEq α]

/-- The pieces between the separators; one more than there are separators. -/
def splitOn (sep : α) : List α → List (List α)
  | [] => [[]]
  | c :: cs =>
      if c = sep then [] :: splitOn sep cs
      else
        match splitOn sep cs with
        | [] => [[c]]
        | p :: ps => (c :: p) :: ps

/-- The parts in front of and behind the first separator. -/
def cut? (sep : α) : List α → Option (List α × List α)
  | [] => none
  | c :: cs =>
      if c = sep then some ([], cs)
      else (cut? sep cs).map fun p => (c :: p.1, p.2)

theorem splitOn_ne_nil (sep : α) (cs : List α) : splitOn sep cs ≠ [] := by
  induction cs with
  | nil => simp [splitOn]
  | cons c cs ih =>
      unfold splitOn
      split
      · simp
      · split <;> simp

/-- The pieces, with the separator between them, are the text. -/
theorem join_splitOn (sep : α) (cs : List α) :
    List.intercalate [sep] (splitOn sep cs) = cs := by
  induction cs with
  | nil => rfl
  | cons c cs ih =>
      unfold splitOn
      split
      next h =>
        subst h
        cases hs : splitOn c cs with
        | nil => exact absurd hs (splitOn_ne_nil c cs)
        | cons p ps => rw [hs] at ih; simp [List.intercalate, List.intersperse] at ih ⊢; exact ih
      next h =>
        split
        next hs => exact absurd hs (splitOn_ne_nil sep cs)
        next p ps hs =>
          rw [hs] at ih
          cases ps <;> simp_all [List.intercalate, List.intersperse]

/-- A cut text is its two parts with the separator between them, which does not
occur in the first. -/
theorem cut?_eq_some {sep : α} {cs before behind : List α}
    (h : cut? sep cs = some (before, behind)) :
    cs = before ++ sep :: behind ∧ sep ∉ before := by
  induction cs generalizing before with
  | nil => simp [cut?] at h
  | cons c cs ih =>
      unfold cut? at h
      split at h
      next hc =>
        simp only [Option.some.injEq, Prod.mk.injEq] at h
        obtain ⟨rfl, rfl⟩ := h
        simp [hc]
      next hc =>
        obtain ⟨⟨b, r⟩, hp, he⟩ := Option.map_eq_some_iff.1 h
        simp only [Prod.mk.injEq] at he
        obtain ⟨rfl, rfl⟩ := he
        obtain ⟨h₁, h₂⟩ := ih hp
        exact ⟨by rw [h₁]; rfl, by simp [h₂, Ne.symm hc]⟩

end Mandate.Text
