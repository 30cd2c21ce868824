/-
  Mandate.Proofs.History
  ────────────────────────────────
  **WHAT CAME LAST.**

  A history is a list of events, the latest at its end.  What a component has to
  remember of its history is an event that nothing has undone since.

  Main results:
    * `stands_append_singleton`  — what one more event leaves standing;
    * `exists_stands`            — of the events of a kind, the last one stands;
    * `Stands.eq`                — and no other one does;
    * `lookup_foldl_put_iff`     — a table that is written to finds the last of each name.
-/
import Mathlib.Data.List.Induction
import Mandate.Table

namespace Mandate

variable {α : Type} {p q : α → Prop} {h : List α} {a b e : α}

/-- The event stands in the history, and these others came behind it. -/
def Followed (h : List α) (a : α) (since : List α) : Prop :=
  ∃ before, h = before ++ a :: since

/-- The event stands in the history, and none behind it is of this kind. -/
def Stands (p : α → Prop) (h : List α) (a : α) : Prop :=
  ∃ since, Followed h a since ∧ ∀ b ∈ since, ¬ p b

theorem Followed.mem {since : List α} (hf : Followed h a since) : a ∈ h := by
  obtain ⟨before, rfl⟩ := hf
  simp

theorem followed_append_singleton {since : List α} :
    Followed (h ++ [e]) a since ↔
      (a = e ∧ since = []) ∨ ∃ s, since = s ++ [e] ∧ Followed h a s := by
  constructor
  · rintro ⟨before, heq⟩
    rcases since.eq_nil_or_concat with rfl | ⟨s, b, rfl⟩
    · obtain ⟨-, he⟩ := List.append_inj' heq rfl
      cases he
      exact .inl ⟨rfl, rfl⟩
    · -- The last event is the last of those behind.
      have hsplit : h ++ [e] = (before ++ a :: s) ++ [b] := by
        rw [heq, List.concat_eq_append, List.append_assoc, List.cons_append]
      obtain ⟨hh, he⟩ := List.append_inj' hsplit rfl
      cases he
      exact .inr ⟨s, List.concat_eq_append, before, hh⟩
  · rintro (⟨rfl, rfl⟩ | ⟨s, rfl, before, rfl⟩)
    · exact ⟨h, rfl⟩
    · exact ⟨before, by simp⟩

theorem not_stands_nil : ¬ Stands p [] a := by
  rintro ⟨since, hf, -⟩
  exact List.not_mem_nil hf.mem

/-- One more event stands itself, and leaves standing what it is not of the kind to
undo. -/
theorem stands_append_singleton : Stands p (h ++ [e]) a ↔ a = e ∨ ¬ p e ∧ Stands p h a := by
  unfold Stands
  constructor
  · rintro ⟨since, hf, hp⟩
    rcases followed_append_singleton.mp hf with ⟨rfl, -⟩ | ⟨s, rfl, hs⟩
    · exact .inl rfl
    · exact .inr ⟨hp e (by simp), s, hs, fun b hb => hp b (by simp [hb])⟩
  · rintro (rfl | ⟨he, s, hs, hp⟩)
    · exact ⟨[], followed_append_singleton.mpr (.inl ⟨rfl, rfl⟩), nofun⟩
    · refine ⟨s ++ [e], followed_append_singleton.mpr (.inr ⟨s, rfl, hs⟩), ?_⟩
      intro b hb
      rcases List.mem_append.mp hb with hb | hb
      · exact hp b hb
      · rw [List.mem_singleton.mp hb]
        exact he

theorem stands_singleton : Stands p [a] a := ⟨[], ⟨[], rfl⟩, nofun⟩

theorem Stands.mem (hs : Stands p h a) : a ∈ h := by
  obtain ⟨since, hf, -⟩ := hs
  exact hf.mem

theorem Stands.mono (hs : Stands p h a) (hq : ∀ b, q b → p b) : Stands q h a := by
  obtain ⟨since, hf, hp⟩ := hs
  exact ⟨since, hf, fun b hb hqb => hp b hb (hq b hqb)⟩

/-- Where there are events of a kind, the last of them stands. -/
theorem exists_stands (hex : ∃ a ∈ h, p a) : ∃ a, p a ∧ Stands p h a := by
  induction h using List.reverseRecOn with
  | nil => simp at hex
  | append_singleton h e ih =>
      by_cases he : p e
      · exact ⟨e, he, stands_append_singleton.mpr (.inl rfl)⟩
      · obtain ⟨a, ha, hpa⟩ := hex
        have hah : a ∈ h := by
          rcases List.mem_append.mp ha with ha | ha
          · exact ha
          · rw [List.mem_singleton.mp ha] at hpa
            exact absurd hpa he
        obtain ⟨b, hpb, hb⟩ := ih ⟨a, hah, hpa⟩
        exact ⟨b, hpb, stands_append_singleton.mpr (.inr ⟨he, hb⟩)⟩

/-- Of the events of a kind, no two stand. -/
theorem Stands.eq (ha : Stands p h a) (hb : Stands p h b) (hpa : p a) (hpb : p b) : a = b := by
  induction h using List.reverseRecOn with
  | nil => exact absurd ha not_stands_nil
  | append_singleton h e ih =>
      rcases stands_append_singleton.mp ha with rfl | ⟨he, ha⟩ <;>
        rcases stands_append_singleton.mp hb with rfl | ⟨he', hb⟩
      · rfl
      · exact absurd hpa he'
      · exact absurd hpb he
      · exact ih ha hb

/-- A table that is written to, value after value, finds the last of each name. -/
theorem lookup_foldl_put_iff {κ : Type} [DecidableEq κ] {name : α → κ} {key : κ} :
    (h.foldl (fun t b => Table.put t (name b) b) []).lookup key = some a ↔
      name a = key ∧ Stands (fun b => name b = key) h a := by
  induction h using List.reverseRecOn with
  | nil => exact iff_of_false nofun fun hs => not_stands_nil hs.2
  | append_singleton h e ih =>
      rw [List.foldl_append, List.foldl_cons, List.foldl_nil, Table.lookup_put,
        stands_append_singleton]
      by_cases he : name e = key
      · rw [if_pos he.symm]
        constructor
        · rintro ⟨⟩
          exact ⟨he, .inl rfl⟩
        · rintro ⟨-, rfl | ⟨hother, -⟩⟩
          · rfl
          · exact absurd he hother
      · rw [if_neg (Ne.symm he), ih]
        refine and_congr_right fun ha => ⟨fun hs => .inr ⟨he, hs⟩, ?_⟩
        rintro (rfl | ⟨-, hs⟩)
        · exact absurd ha he
        · exact hs

end Mandate
