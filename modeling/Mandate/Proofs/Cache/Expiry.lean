/-
  Mandate.Proofs.Cache.Expiry
  ────────────────────────────────
  **WHO NOTICES THAT AN ENTRY IS TOO OLD.**

  A look-up asks the clock, and an entry that has reached the lifetime is as good as none
  to it.  Whether a key is in the cache, and whether it was there when it is told to go, is
  answered from the entries alone.  So these two know an old entry until a look-up has
  dropped it.

      Consistent  — both say of a key what a look-up at this time would
      Forward     — the clock never goes back

  Main results:
    * `consistent_iff_event`  — the two agree with a look-up unless it finds an entry too
                                old;
    * `expired_after_iff`     — in a run, this is a key whose last put stands, is as old as
                                the lifetime, and has its entry still;
    * `expiry_law_iff`        — they agree behind all runs of a cache exactly if its
                                entries have no lifetime.
-/
import Mandate.Proofs.Cache.Ledger
import Mathlib.Algebra.Group.Basic
import Mathlib.Algebra.Group.Int.Defs

namespace Mandate.Cache

variable {κ ν τ : Type}

/-! ## §1. Two more ways to ask for a key. -/

/-- The reading of the clock that a use comes with. -/
def Use.reading? : Use κ ν τ → Option τ
  | .put now _ _ => some now
  | .get now _ => some now
  | .invalidate _ => none
  | .clear => none

/-- The clock of a run never goes back. -/
def Forward [LE τ] (us : List (Use κ ν τ)) : Prop :=
  (us.filterMap Use.reading?).Pairwise (· ≤ ·)

variable [DecidableEq κ]

/-- Whether the key is in the cache, and whether it is found when it is told to go, is
answered as by a look-up at this time. -/
def Consistent [Sub τ] [LE τ] [DecidableLE τ] (c : Cache κ ν τ) (now : τ) (k : κ) : Prop :=
  (c.contains k = true ↔ ∃ v, (c.get now k).1 = some v) ∧
    ((c.invalidate k).1 = true ↔ ∃ v, (c.get now k).1 = some v)

section Entries

variable [Sub τ] [LE τ] [DecidableLE τ] {c : Cache κ ν τ} {now : τ} {k : κ}

/-- The two agree with a look-up unless it finds an entry too old. -/
theorem consistent_iff_event :
    c.Consistent now k ↔ c.event (.get now k) ≠ .expired k now := by
  have hinvalidate : (c.invalidate k).1 = c.contains k := rfl
  rw [Consistent, hinvalidate, and_self, contains]
  rcases get_cases c now k with
    ⟨hfind, hevent, hget⟩ | ⟨e, hfind, ⟨-, hevent, hget⟩ | ⟨-, hevent, hget⟩⟩
  all_goals simp [hfind, hevent, hget]

/-- Behind a run of an empty cache, a look-up finds an entry too old exactly if the last put
of the key stands, has reached the lifetime, and has its entry still. -/
theorem expired_after_iff (hc : c.entries = []) (us : List (Use κ ν τ)) :
    (c.after us).event (.get now k) = .expired k now ↔
      ∃ v t life, Stands (Event.Overrides k) (c.history us) (.stored k v t) ∧
        c.lifetime = some life ∧ life ≤ now - t ∧ (c.after us).contains k = true := by
  have hremembers := remembers_after hc us
  constructor
  · intro hevent
    rcases get_cases (c.after us) now k with
      ⟨-, h, -⟩ | ⟨e, hfind, ⟨hold, -, -⟩ | ⟨-, h, -⟩⟩
    · rw [h] at hevent
      cases hevent
    · obtain ⟨hmem, rfl⟩ := find?_eq_some hfind
      obtain ⟨life, hlife, hage⟩ := expired_eq_true_iff.mp hold
      rw [lifetime_after] at hlife
      exact ⟨e.value, e.storedAt, life, hremembers e hmem, hlife, hage, by simp [contains, hfind]⟩
    · rw [h] at hevent
      cases hevent
  · intro hstale
    obtain ⟨v, t, life, hstands, hlife, hage, hcontains⟩ := hstale
    obtain ⟨e, hfind⟩ := Option.isSome_iff_exists.mp hcontains
    obtain ⟨hmem, rfl⟩ := find?_eq_some hfind
    -- The entry holds the put that stands, so it is as old as that.
    have hput : (.stored e.key e.value e.storedAt : Event κ ν τ) = .stored e.key v t :=
      (hremembers e hmem).eq hstands (.inl rfl) (.inl rfl)
    cases hput
    have hold : (c.after us).expired now e = true :=
      expired_eq_true_iff.mpr ⟨life, by rw [lifetime_after, hlife], hage⟩
    rcases get_cases (c.after us) now e.key with
      ⟨h, -, -⟩ | ⟨e', hfind', ⟨-, hevent, -⟩ | ⟨hlive, -, -⟩⟩
    · rw [hfind] at h
      cases h
    · exact hevent
    · rw [hfind] at hfind'
      cases hfind'
      rw [hold] at hlive
      cases hlive

end Entries

/-! ## §2. Lifetimes. -/

section Lifetimes

variable [AddGroup τ] [LinearOrder τ] {c : Cache κ ν τ}

/-- With a lifetime, some key is put and is too old later on, and has its entry still. -/
theorem exists_inconsistent [Nonempty κ] [Nonempty ν] {life : τ} (hc : c.entries = [])
    (hm : 1 ≤ c.capacity) (hlife : c.lifetime = some life) :
    ∃ (us : List (Use κ ν τ)) (now : τ) (k : κ), Forward (us ++ [.get now k]) ∧
      ¬ (c.after us).Consistent now k := by
  obtain ⟨k⟩ := ‹Nonempty κ›
  obtain ⟨v⟩ := ‹Nonempty ν›
  have hnodup : (c.entries.map (·.key)).Nodup := by
    rw [hc]
    exact List.nodup_nil
  have hsize : c.size ≤ c.capacity := by
    rw [size, hc]
    exact Nat.zero_le _
  refine ⟨[.put 0 k v], max 0 life, k, ?_, ?_⟩
  · show List.Pairwise (· ≤ ·) [0, max 0 life]
    simp
  · have hcontains : (c.after [.put 0 k v]).contains k = true := by
      rw [contains, show c.after [.put 0 k v] = c.put 0 k v from rfl,
        find?_put hnodup hsize hm, Option.isSome_some]
    have hstands : Stands (Event.Overrides k) (c.history [.put 0 k v]) (.stored k v 0) :=
      stands_singleton
    rw [consistent_iff_event, not_not, expired_after_iff hc]
    exact ⟨v, 0, life, hstands, hlife, by simp, hcontains⟩

/-- **WHO NOTICES THAT AN ENTRY IS TOO OLD.**  A cache can be made with room for any `m`
entries, one at least.  Behind every run of it, membership of a key and the answer to
telling it to go are those of a look-up, unless the last put of the key stands, has reached
the lifetime, and has its entry still.  So they are those of a look-up behind all runs whose
clock never goes back exactly if the entries have no lifetime. -/
theorem expiry_law_iff [Nonempty κ] [Nonempty ν] {m : Nat} (hm : 1 ≤ m) (ttl : Option τ) :
    ∃ c : Cache κ ν τ, empty? (m : Int) ttl = some c ∧
      (∀ us now k, (c.after us).Consistent now k ↔
        ¬ ∃ v t life, Stands (Event.Overrides k) (c.history us) (.stored k v t) ∧
            ttl = some life ∧ life ≤ now - t ∧ (c.after us).contains k = true) ∧
      ((∀ us now k, Forward (us ++ [.get now k]) → (c.after us).Consistent now k) ↔
        ttl = none) := by
  obtain ⟨c, hc⟩ := exists_empty? (κ := κ) (ν := ν) hm ttl
  obtain ⟨-, hcap, hlife, hempty⟩ := empty?_eq_some hc
  have hexact : ∀ us now k, (c.after us).Consistent now k ↔
      ¬ ∃ v t life, Stands (Event.Overrides k) (c.history us) (.stored k v t) ∧
          ttl = some life ∧ life ≤ now - t ∧ (c.after us).contains k = true := by
    intro us now k
    rw [consistent_iff_event, ← hlife, Ne, expired_after_iff hempty]
  refine ⟨c, hc, hexact, fun hall => ?_, fun hnone us now k _ => ?_⟩
  · cases ttl with
    | none => rfl
    | some life =>
        obtain ⟨us, now, k, hforward, hnot⟩ := exists_inconsistent hempty (by omega) hlife
        exact absurd (hall us now k hforward) hnot
  · rw [hexact]
    intro hstale
    obtain ⟨v, t, life, -, hlife', -, -⟩ := hstale
    rw [hnone] at hlife'
    cases hlife'

end Lifetimes

/-- A key that is put at zero and lives for ten is agreed on at nine, and not at ten. -/
theorem young_key_agreed :
    1 ≤ 2 ∧ empty? (2 : Nat) (some 10) = some roomForTwo ∧
    (roomForTwo.after [.put 0 "first" 1]).Consistent 9 "first" ∧
    ¬ (roomForTwo.after [.put 0 "first" 1]).Consistent 10 "first" := by
  have hm : 1 ≤ 2 := by decide
  obtain ⟨c, hc, hexact, -⟩ := expiry_law_iff (κ := String) (ν := Nat) hm (some (10 : Int))
  obtain rfl : roomForTwo = c := Option.some.inj hc
  have hput : Stands (Event.Overrides "first") (roomForTwo.history [.put 0 "first" 1])
      (.stored "first" 1 0) := stands_singleton
  refine ⟨hm, hc, (hexact _ _ _).mpr ?_, fun hagreed => (hexact _ _ _).mp hagreed ?_⟩
  · intro hstale
    obtain ⟨v, t, life, hstands, hlife, hage, -⟩ := hstale
    cases hlife
    cases hstands.eq hput (.inl rfl) (.inl rfl)
    exact absurd hage (by decide)
  · exact ⟨1, 0, 10, hput, rfl, by decide, by decide⟩

/-- At eleven, when it is older than it may be, this key is in the cache and was there when
it is told to go, but a look-up does not find it. -/
theorem stale_key_contained :
    Forward [.put 0 "first" 1, (.get 11 "first" : Use String Nat Int)] ∧
    (roomForTwo.after [.put 0 "first" 1]).contains "first" = true ∧
    ((roomForTwo.after [.put 0 "first" 1]).invalidate "first").1 = true ∧
    ((roomForTwo.after [.put 0 "first" 1]).get 11 "first").1 = none := by
  refine ⟨?_, by decide, by decide, by decide⟩
  show List.Pairwise (· ≤ ·) [(0 : Int), 11]
  decide

end Mandate.Cache
