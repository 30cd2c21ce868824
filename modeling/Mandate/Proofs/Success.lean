/-
  Mandate.Proofs.Success
  ────────────────────────────────
  **WHEN STEPS END WELL.**

  Readers and checks are sequences of steps, each of which gives a value or an
  error.  These facts turn "the sequence ends well" into one statement for each
  of its steps, so that what a reader takes and what a check lets pass can be
  said without opening the sequence.
-/
import Mandate.Capability.Reader
import Mathlib.Data.List.Forall2

namespace Mandate

variable {ε ε' α β : Type}

/-! ## §1. Sequences. -/

/-- Two steps end well together exactly if each of them does. -/
theorem bind_unit_eq_ok_iff {x : Except ε Unit} {f : Unit → Except ε β} {b : β} :
    (x >>= f) = .ok b ↔ x = .ok () ∧ f () = .ok b := by
  rw [Capability.bind_eq_ok]
  exact ⟨fun ⟨(), hx, hf⟩ => ⟨hx, hf⟩, fun ⟨hx, hf⟩ => ⟨(), hx, hf⟩⟩

/-- Two steps end in an error of the first, or in one of the second behind a first step
that ends well. -/
theorem bind_eq_error_iff {x : Except ε α} {f : α → Except ε β} {e : ε} :
    (x >>= f) = .error e ↔ x = .error e ∨ ∃ a, x = .ok a ∧ f a = .error e := by
  cases x <;> simp [bind, Except.bind]

theorem bind_unit_eq_error_iff {x : Except ε Unit} {f : Unit → Except ε β} {e : ε} :
    (x >>= f) = .error e ↔ x = .error e ∨ x = .ok () ∧ f () = .error e := by
  rw [bind_eq_error_iff]
  exact or_congr_right ⟨fun ⟨(), hx, hf⟩ => ⟨hx, hf⟩, fun ⟨hx, hf⟩ => ⟨(), hx, hf⟩⟩

theorem map_eq_ok_iff {x : Except ε α} {f : α → β} {b : β} :
    x.map f = .ok b ↔ ∃ a, x = .ok a ∧ f a = b := by
  cases x <;> simp [Except.map]

theorem map_eq_error_iff {x : Except ε α} {f : α → β} {e : ε} :
    x.map f = .error e ↔ x = .error e := by
  cases x <;> simp [Except.map]

/-- What an error is turned into does not matter to what ends well. -/
theorem mapError_eq_ok_iff {x : Except ε α} {f : ε → ε'} {a : α} :
    x.mapError f = .ok a ↔ x = .ok a := by
  cases x with
  | error e => exact ⟨nofun, nofun⟩
  | ok b =>
      constructor
      · intro h
        cases h
        rfl
      · rintro ⟨⟩
        rfl

theorem mapError_eq_error_iff {x : Except ε α} {f : ε → ε'} {e : ε'} :
    x.mapError f = .error e ↔ ∃ e', x = .error e' ∧ f e' = e := by
  cases x with
  | ok a =>
      refine ⟨nofun, ?_⟩
      rintro ⟨_, ⟨⟩, _⟩
  | error e' =>
      constructor
      · intro h
        cases h
        exact ⟨e', rfl, rfl⟩
      · rintro ⟨_, ⟨⟩, rfl⟩
        rfl

/-- Steps over a list end well exactly if each of them does. -/
theorem forM_eq_ok_iff {f : α → Except ε Unit} {as : List α} :
    as.forM f = .ok () ↔ ∀ a ∈ as, f a = .ok () := by
  induction as with
  | nil => simp [List.forM, pure, Except.pure]
  | cons a as ih =>
      rw [List.forall_mem_cons, ← ih]
      exact bind_unit_eq_ok_iff

/-- The first member of a kind is the head of a list, or it comes behind a head of another
kind. -/
theorem exists_first_cons_iff {p q : α → Prop} {a : α} {as : List α} :
    (∃ before b after, a :: as = before ++ b :: after ∧ (∀ c ∈ before, q c) ∧ p b) ↔
      p a ∨ q a ∧ ∃ before b after, as = before ++ b :: after ∧ (∀ c ∈ before, q c) ∧ p b := by
  constructor
  · rintro ⟨before, b, after, heq, hbefore, hb⟩
    cases before with
    | nil =>
        cases heq
        exact .inl hb
    | cons a' before =>
        cases heq
        obtain ⟨ha, hbefore⟩ := List.forall_mem_cons.mp hbefore
        exact .inr ⟨ha, before, b, after, rfl, hbefore, hb⟩
  · rintro (ha | ⟨ha, before, b, after, rfl, hbefore, hb⟩)
    · exact ⟨[], a, as, rfl, nofun, ha⟩
    · exact ⟨a :: before, b, after, rfl, List.forall_mem_cons.mpr ⟨ha, hbefore⟩, hb⟩

/-- Steps over a list end in an error exactly if one of them does behind others that end
well. -/
theorem forM_eq_error_iff {f : α → Except ε Unit} {as : List α} {e : ε} :
    as.forM f = .error e ↔ ∃ before a after, as = before ++ a :: after ∧
      (∀ b ∈ before, f b = .ok ()) ∧ f a = .error e := by
  induction as with
  | nil => simp [List.forM, pure, Except.pure]
  | cons a as ih =>
      rw [show (a :: as).forM f = (f a >>= fun _ => as.forM f) from rfl, bind_unit_eq_error_iff,
        ih, exists_first_cons_iff]

/-- Steps over two lists are the same if they are the same place by place. -/
theorem forM_congr {f : α → Except ε Unit} {g : β → Except ε Unit} {as : List α} {bs : List β}
    (h : List.Forall₂ (fun a b => g b = f a) as bs) : bs.forM g = as.forM f := by
  induction h with
  | nil => rfl
  | @cons a b as bs hab hrest ih =>
      show (g b >>= fun _ => bs.forM g) = (f a >>= fun _ => as.forM f)
      rw [hab, ih]

/-- Values are taken from a list exactly if one is taken from each of its members. -/
theorem mapM_eq_ok_iff {f : α → Except ε β} {as : List α} {bs : List β} :
    as.mapM f = .ok bs ↔ List.Forall₂ (fun a b => f a = .ok b) as bs := by
  induction as generalizing bs with
  | nil => simp [pure, Except.pure, eq_comm]
  | cons a as ih =>
      simp only [List.mapM_cons, Capability.bind_eq_ok, ih, List.forall₂_cons_left_iff]
      constructor
      · rintro ⟨b, hb, rest, hrest, heq⟩
        cases heq
        exact ⟨b, rest, hb, hrest, rfl⟩
      · rintro ⟨b, rest, hb, hrest, rfl⟩
        exact ⟨b, hb, rest, hrest, rfl⟩

/-- Members are related to others, place by place, exactly if each of them is to one. -/
theorem exists_forall₂_iff {R : α → β → Prop} {as : List α} :
    (∃ bs, List.Forall₂ R as bs) ↔ ∀ a ∈ as, ∃ b, R a b := by
  induction as with
  | nil => simp
  | cons a as ih =>
      rw [List.forall_mem_cons, ← ih]
      constructor
      · rintro ⟨bs, hbs⟩
        obtain ⟨b, rest, hb, hrest, -⟩ := List.forall₂_cons_left_iff.mp hbs
        exact ⟨⟨b, hb⟩, rest, hrest⟩
      · rintro ⟨⟨b, hb⟩, rest, hrest⟩
        exact ⟨b :: rest, .cons hb hrest⟩

/-- Members are related to others all of whose parts have a property exactly if each of them
is to one. -/
theorem exists_forall₂_flatMap_iff {γ : Type} {R : α → β → Prop} {parts : β → List γ}
    {P : γ → Prop} {as : List α} :
    (∃ bs, List.Forall₂ R as bs ∧ ∀ c ∈ bs.flatMap parts, P c) ↔
      ∀ a ∈ as, ∃ b, R a b ∧ ∀ c ∈ parts b, P c := by
  rw [← exists_forall₂_iff]
  refine exists_congr fun bs => ?_
  constructor
  · rintro ⟨hbs, hP⟩
    induction hbs with
    | nil => exact .nil
    | cons hb _ ih =>
        rw [List.flatMap_cons, List.forall_mem_append] at hP
        exact .cons ⟨hb, hP.1⟩ (ih hP.2)
  · intro h
    induction h with
    | nil => exact ⟨.nil, by simp⟩
    | cons hb _ ih =>
        rw [List.flatMap_cons, List.forall_mem_append]
        exact ⟨.cons hb.1 ih.1, hb.2, ih.2⟩

/-- Values are taken from a list of members each of which gives one. -/
theorem exists_mapM_iff {f : α → Except ε β} {as : List α} :
    (∃ bs, as.mapM f = .ok bs) ↔ ∀ a ∈ as, ∃ b, f a = .ok b := by
  simp only [mapM_eq_ok_iff, exists_forall₂_iff]

/-- Taking values from a list ends in an error exactly if it does for a member behind
others that give one. -/
theorem mapM_eq_error_iff {f : α → Except ε β} {as : List α} {e : ε} :
    as.mapM f = .error e ↔ ∃ before a after, as = before ++ a :: after ∧
      (∀ b ∈ before, ∃ v, f b = .ok v) ∧ f a = .error e := by
  induction as with
  | nil => simp [pure, Except.pure]
  | cons a as ih =>
      have hcons : (a :: as).mapM f = .error e ↔
          f a = .error e ∨ (∃ v, f a = .ok v) ∧ as.mapM f = .error e := by
        rw [List.mapM_cons]
        cases f a <;> cases as.mapM f <;> simp [bind, Except.bind, pure, Except.pure]
      rw [hcons, ih, exists_first_cons_iff]

/-- What is taken from a list is taken from its members. -/
theorem exists_of_mem_mapM {f : α → Except ε β} {as : List α} {bs : List β}
    (h : as.mapM f = .ok bs) {b : β} (hb : b ∈ bs) : ∃ a ∈ as, f a = .ok b := by
  induction mapM_eq_ok_iff.mp h with
  | nil => exact absurd hb List.not_mem_nil
  | @cons a b' as bs hab hrest ih =>
      rcases List.mem_cons.mp hb with rfl | hb
      · exact ⟨a, List.mem_cons_self, hab⟩
      · obtain ⟨a', ha', hab'⟩ := ih (mapM_eq_ok_iff.mpr hrest) hb
        exact ⟨a', List.mem_cons_of_mem _ ha', hab'⟩

/-! ## §2. Guards. -/

/-- A step that only prepares an error never ends well. -/
theorem bind_error_ne_ok {x : Except ε α} {f : α → ε} {b : β} :
    (x >>= fun a => (.error (f a) : Except ε β)) ≠ .ok b := by
  intro h
  obtain ⟨_, _, hf⟩ := Capability.bind_eq_ok.mp h
  exact absurd hf (by simp)

/-- Behind a guard that turns to a failure, the guard is not met and the rest
ends well. -/
theorem guard_eq_ok_iff {p : Prop} [Decidable p] {failing rest : Except ε β} {b : β}
    (h : failing ≠ .ok b) :
    (if p then failing else rest) = .ok b ↔ ¬ p ∧ rest = .ok b := by
  by_cases hp : p <;> simp [hp, h]

/-- A guard alone ends well exactly if it is met. -/
theorem ite_ok_error_iff {p : Prop} [Decidable p] {e : ε} :
    (if p then (.ok () : Except ε Unit) else .error e) = .ok () ↔ p := by
  by_cases hp : p <;> simp [hp]

end Mandate
