/-
  Mandate.Proofs.Text.Parts
  ────────────────────────────────
  **PARTS OF A TEXT.**

  A text is trimmed at either end, cut at its first separator, or cut at every one.

  Main results:
    * `trimWhere_around`   — what is trimmed around a character that stays;
    * `cut?_append`        — a separator with none in front of it is where a text is cut;
    * `splitOn_append`     — the pieces of two texts with a separator between them.
-/
import Mandate.Text.Blank
import Mandate.Text.Split
import Mathlib.Data.List.DropRight

namespace Mandate.Text

variable {sort : Char → Bool} {cs around before behind : List Char} {c sep : Char}

/-! ## §1. Trimming. -/

theorem trimWhere_eq (sort : Char → Bool) (cs : List Char) :
    trimWhere sort cs = (cs.dropWhile sort).rdropWhile sort := rfl

/-- Characters of the sort in front do not matter. -/
theorem trimWhere_append_left (h : ∀ c ∈ around, sort c = true) :
    trimWhere sort (around ++ cs) = trimWhere sort cs := by
  rw [trimWhere_eq, trimWhere_eq, List.dropWhile_append_of_pos h]

/-- Neither do those behind. -/
theorem trimWhere_append_right (h : ∀ c ∈ around, sort c = true) :
    trimWhere sort (cs ++ around) = trimWhere sort cs := by
  rw [trimWhere_eq, trimWhere_eq, List.dropWhile_append]
  split
  next hcs => rw [List.isEmpty_iff.mp hcs, List.dropWhile_eq_nil_iff.mpr h]
  next =>
    have hreverse : ∀ c ∈ around.reverse, sort c = true :=
      fun c hc => h c (List.mem_reverse.mp hc)
    unfold List.rdropWhile
    rw [List.reverse_append, List.dropWhile_append_of_pos hreverse]

theorem trimWhere_eq_nil_iff : trimWhere sort cs = [] ↔ ∀ c ∈ cs, sort c = true := by
  rw [trimWhere_eq, List.rdropWhile_eq_nil_iff]
  constructor
  · intro h
    have hall : ∀ c ∈ cs.takeWhile sort ++ cs.dropWhile sort, sort c = true := by
      intro c hc
      rcases List.mem_append.mp hc with hc | hc
      · exact List.mem_takeWhile_imp hc
      · exact h c hc
    rwa [List.takeWhile_append_dropWhile] at hall
  · intro h c hc
    exact h c ((List.dropWhile_sublist sort).mem hc)

/-- Around a character that is not of the sort, each side is trimmed at its own end. -/
theorem trimWhere_around (h : sort c = false) :
    trimWhere sort (before ++ c :: behind)
      = before.dropWhile sort ++ c :: behind.rdropWhile sort := by
  have hc : ¬ sort c = true := by simp [h]
  have hfront : (before ++ c :: behind).dropWhile sort = before.dropWhile sort ++ c :: behind := by
    rw [List.dropWhile_append, List.dropWhile_cons_of_neg hc]
    split
    next hbefore => rw [List.isEmpty_iff.mp hbefore, List.nil_append]
    next => rfl
  have hback : (behind.reverse ++ c :: (before.dropWhile sort).reverse).dropWhile sort
      = behind.reverse.dropWhile sort ++ c :: (before.dropWhile sort).reverse := by
    rw [List.dropWhile_append, List.dropWhile_cons_of_neg hc]
    split
    next hbehind => rw [List.isEmpty_iff.mp hbehind, List.nil_append]
    next => rfl
  rw [trimWhere_eq, hfront]
  unfold List.rdropWhile
  rw [List.reverse_append, List.reverse_cons, List.append_assoc, List.singleton_append, hback]
  simp

theorem trimWhere_dropWhile : trimWhere sort (cs.dropWhile sort) = trimWhere sort cs := by
  conv_rhs => rw [← List.takeWhile_append_dropWhile (p := sort) (l := cs)]
  exact (trimWhere_append_left fun c hc => List.mem_takeWhile_imp hc).symm

theorem trimWhere_rdropWhile : trimWhere sort (cs.rdropWhile sort) = trimWhere sort cs := by
  conv_rhs => rw [← List.rdropWhile_append_rtakeWhile (p := sort) (l := cs)]
  exact (trimWhere_append_right fun c hc => List.mem_rtakeWhile_imp hc).symm

/-! ## §2. Cutting. -/

/-- A separator with none in front of it is where a text is cut. -/
theorem cut?_append (h : sep ∉ before) :
    cut? sep (before ++ sep :: behind) = some (before, behind) := by
  induction before with
  | nil => simp [cut?]
  | cons b before ih =>
      have hb : b ≠ sep := fun hb => h (hb ▸ List.mem_cons_self)
      have hbefore : sep ∉ before := fun hsep => h (List.mem_cons_of_mem _ hsep)
      rw [List.cons_append, cut?, if_neg hb, ih hbefore]
      rfl

theorem splitOn_cons_self (sep : Char) (cs : List Char) :
    splitOn sep (sep :: cs) = [] :: splitOn sep cs := by
  rw [splitOn, if_pos rfl]

theorem splitOn_cons_of_ne {p : List Char} {ps : List (List Char)} (hc : c ≠ sep)
    (hcs : splitOn sep cs = p :: ps) : splitOn sep (c :: cs) = (c :: p) :: ps := by
  rw [splitOn, if_neg hc, hcs]

/-- The pieces of two texts with a separator between them are those of either. -/
theorem splitOn_append (before behind : List Char) :
    splitOn sep (before ++ sep :: behind) = splitOn sep before ++ splitOn sep behind := by
  induction before with
  | nil => exact splitOn_cons_self sep behind
  | cons c before ih =>
      rw [List.cons_append]
      by_cases hc : c = sep
      · subst hc
        rw [splitOn_cons_self, splitOn_cons_self, ih, List.cons_append]
      · cases hpieces : splitOn sep before with
        | nil => exact absurd hpieces (splitOn_ne_nil sep before)
        | cons p ps =>
            rw [hpieces, List.cons_append] at ih
            rw [splitOn_cons_of_ne hc ih, splitOn_cons_of_ne hc hpieces, List.cons_append]

theorem splitOn_of_not_mem (h : sep ∉ cs) : splitOn sep cs = [cs] := by
  induction cs with
  | nil => rfl
  | cons c cs ih =>
      have hc : c ≠ sep := fun hc => h (hc ▸ List.mem_cons_self)
      have hcs : sep ∉ cs := fun hsep => h (List.mem_cons_of_mem _ hsep)
      exact splitOn_cons_of_ne hc (ih hcs)

end Mandate.Text
