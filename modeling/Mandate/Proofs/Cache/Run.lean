/-
  Mandate.Proofs.Cache.Run
  ────────────────────────────────
  **RUNS OF A CACHE.**

  A run is a list of uses, one after the other.  Each use leaves an event behind,
  which says what it came to: a look-up that hits and one that finds an entry too
  old leave different events.

      stored       — a value was put under a key
      hit          — a live entry was looked up
      expired      — an entry of the lifetime or older was looked up, and went
      absent       — a key without an entry was looked up
      invalidated  — a key was told to go, whether it was there or not
      cleared      — all entries went

  Main results:
    * `get_cases`         — what a look-up finds, and what it leaves;
    * `change_apply`      — what one use does to the entries;
    * `Change.of_mem`     — where an entry comes from;
    * `remembers_after`   — an entry holds the value and the time of the last put
                            that stands;
    * `aged_after`        — what expired had reached the lifetime since its last put.
-/
import Mandate.Cache
import Mandate.Proofs.History
import Mathlib.Order.Lattice

namespace Mandate.Cache

variable {κ ν τ : Type}

/-! ## §1. Uses and events. -/

/-- One use of a cache.  A use that looks at the clock comes with its reading. -/
inductive Use (κ ν τ : Type) where
  | put (now : τ) (key : κ) (value : ν)
  | get (now : τ) (key : κ)
  | invalidate (key : κ)
  | clear

/-- What a use came to. -/
inductive Event (κ ν τ : Type) where
  | stored (key : κ) (value : ν) (now : τ)
  | hit (key : κ) (value : ν) (now : τ)
  | expired (key : κ) (now : τ)
  | absent (key : κ) (now : τ)
  | invalidated (key : κ)
  | cleared

namespace Event

/-- A value was put under the key. -/
@[simp] def Stores (k : κ) : Event κ ν τ → Prop
  | .stored key _ _ => key = k
  | _ => False

/-- The key was told to go, alone or with all others. -/
@[simp] def Discards (k : κ) : Event κ ν τ → Prop
  | .invalidated key => key = k
  | .cleared => True
  | _ => False

/-- Whatever stood under the key stands there no more. -/
@[simp] def Drops (k : κ) : Event κ ν τ → Prop
  | .expired key _ => key = k
  | e => e.Discards k

/-- The key that was touched: put, or looked up with a hit. -/
def touched? : Event κ ν τ → Option κ
  | .stored key _ _ => some key
  | .hit key _ _ => some key
  | _ => none

/-- A put under the key, or a loss of what stood there. -/
@[simp] def Overrides (k : κ) (e : Event κ ν τ) : Prop := e.Stores k ∨ e.Drops k

theorem drops_iff {k : κ} {e : Event κ ν τ} :
    e.Drops k ↔ e.Discards k ∨ ∃ now, e = .expired k now := by
  cases e <;> simp

theorem exists_eq_stored {k : κ} {e : Event κ ν τ} (h : e.Stores k) :
    ∃ v t, e = .stored k v t := by
  cases e with
  | stored key v t => exact ⟨v, t, by rw [show key = k from h]⟩
  | _ => exact absurd h id

end Event

/-! ## §2. Entries. -/

/-- With room for one entry at least, a cache can be made. -/
theorem exists_empty? {m : Nat} (hm : 1 ≤ m) (ttl : Option τ) :
    ∃ c : Cache κ ν τ, empty? (m : Int) ttl = some c := by
  unfold empty?
  rw [if_neg (by omega)]
  exact ⟨_, rfl⟩

/-- A cache that has been made has room for one entry at least, and none in it. -/
theorem empty?_eq_some {m : Nat} {ttl : Option τ} {c : Cache κ ν τ}
    (h : empty? (m : Int) ttl = some c) :
    1 ≤ m ∧ c.capacity = m ∧ c.lifetime = ttl ∧ c.entries = [] := by
  unfold empty? at h
  split at h
  next => cases h
  next hm =>
    cases h
    exact ⟨by omega, by simp, rfl, rfl⟩

/-- The counts of a cache that has been made are at zero. -/
theorem counts_of_empty? {m : Nat} {ttl : Option τ} {c : Cache κ ν τ}
    (h : empty? (m : Int) ttl = some c) : c.hits = 0 ∧ c.misses = 0 ∧ c.evictions = 0 := by
  unfold empty? at h
  split at h
  next => cases h
  next =>
    cases h
    exact ⟨rfl, rfl, rfl⟩

theorem expired_eq_true_iff [Sub τ] [LE τ] [DecidableLE τ] {c : Cache κ ν τ} {now : τ}
    {e : Entry κ ν τ} :
    c.expired now e = true ↔ ∃ life, c.lifetime = some life ∧ life ≤ now - e.storedAt := by
  simp [expired, Option.any_eq_true]

theorem expired_eq_false_iff [Sub τ] [LinearOrder τ] {c : Cache κ ν τ} {now : τ}
    {e : Entry κ ν τ} :
    c.expired now e = false ↔ ∀ life, c.lifetime = some life → now - e.storedAt < life := by
  simp [← Bool.not_eq_true, expired_eq_true_iff]

variable [DecidableEq κ]

theorem mem_others {c : Cache κ ν τ} {k : κ} {e : Entry κ ν τ} :
    e ∈ c.others k ↔ e ∈ c.entries ∧ e.key ≠ k := by
  simp [others]

theorem find?_eq_some {c : Cache κ ν τ} {k : κ} {e : Entry κ ν τ} (h : c.find? k = some e) :
    e ∈ c.entries ∧ e.key = k :=
  ⟨List.mem_of_find?_eq_some h, by simpa using List.find?_some h⟩

theorem not_contains_of_find? {c : Cache κ ν τ} {k : κ} (h : c.find? k = none) :
    ∀ e ∈ c.entries, e.key ≠ k := by
  simpa [find?] using h

variable [Sub τ] [LE τ] [DecidableLE τ]

/-! ## §3. Runs. -/

/-- The event that a use leaves. -/
def event (c : Cache κ ν τ) : Use κ ν τ → Event κ ν τ
  | .put now key value => .stored key value now
  | .get now key =>
      match c.find? key with
      | none => .absent key now
      | some e => if c.expired now e then .expired key now else .hit key e.value now
  | .invalidate key => .invalidated key
  | .clear => .cleared

/-- The cache behind a use. -/
def apply (c : Cache κ ν τ) : Use κ ν τ → Cache κ ν τ
  | .put now key value => c.put now key value
  | .get now key => (c.get now key).2
  | .invalidate key => (c.invalidate key).2
  | .clear => c.clear

/-- The cache behind a run. -/
def after (c : Cache κ ν τ) (us : List (Use κ ν τ)) : Cache κ ν τ := us.foldl apply c

/-- The events of a run, in their order. -/
def history (c : Cache κ ν τ) : List (Use κ ν τ) → List (Event κ ν τ)
  | [] => []
  | u :: us => c.event u :: (c.apply u).history us

theorem after_append_singleton (c : Cache κ ν τ) (us : List (Use κ ν τ)) (u : Use κ ν τ) :
    c.after (us ++ [u]) = (c.after us).apply u := by
  simp [after]

theorem history_append_singleton (c : Cache κ ν τ) (us : List (Use κ ν τ)) (u : Use κ ν τ) :
    c.history (us ++ [u]) = c.history us ++ [(c.after us).event u] := by
  induction us generalizing c with
  | nil => rfl
  | cons v us ih =>
      show c.event v :: (c.apply v).history (us ++ [u]) = _
      rw [ih]
      rfl

/-- **WHAT A LOOK-UP DOES.**  It finds no entry, or one too old, which goes, or a live one,
which becomes the most recently used. -/
theorem get_cases (c : Cache κ ν τ) (now : τ) (k : κ) :
    (c.find? k = none ∧ c.event (.get now k) = .absent k now ∧
        c.get now k = (none, { c with misses := c.misses + 1 })) ∨
      ∃ e, c.find? k = some e ∧
        (c.expired now e = true ∧ c.event (.get now k) = .expired k now ∧
            c.get now k = (none, { c with entries := c.others k, misses := c.misses + 1 }) ∨
          c.expired now e = false ∧ c.event (.get now k) = .hit k e.value now ∧
            c.get now k =
              (some e.value, { c with entries := c.others k ++ [e], hits := c.hits + 1 })) := by
  cases hfind : c.find? k with
  | none => exact .inl ⟨rfl, by simp only [event, hfind], by simp only [get, hfind]⟩
  | some e =>
      refine .inr ⟨e, rfl, ?_⟩
      cases hold : c.expired now e with
      | true =>
          refine .inl ⟨rfl, ?_, ?_⟩
          · simp only [event, hfind, hold, if_true]
          · simp only [get, hfind, hold, if_true]
      | false =>
          refine .inr ⟨rfl, ?_, ?_⟩
          · simp only [event, hfind, hold, Bool.false_eq_true, if_false]
          · simp only [get, hfind, hold, Bool.false_eq_true, if_false]

/-- A look-up gives a value exactly if it hits. -/
theorem get_eq_some_iff {c : Cache κ ν τ} {now : τ} {k : κ} {v : ν} :
    (c.get now k).1 = some v ↔ c.event (.get now k) = .hit k v now := by
  rcases get_cases c now k with ⟨-, hevent, hget⟩ | ⟨e, -, ⟨-, hevent, hget⟩ | ⟨-, hevent, hget⟩⟩
  all_goals simp [hevent, hget]

/-- What a look-up gives is the value of a live entry. -/
theorem exists_entry_of_hit {c : Cache κ ν τ} {now : τ} {k : κ} {v : ν}
    (h : (c.get now k).1 = some v) :
    ∃ e ∈ c.entries, e.key = k ∧ e.value = v ∧ c.expired now e = false := by
  rcases get_cases c now k with ⟨-, -, hget⟩ | ⟨e, hfind, ⟨-, -, hget⟩ | ⟨hlive, -, hget⟩⟩
  · rw [hget] at h
    cases h
  · rw [hget] at h
    cases h
  · rw [hget] at h
    obtain ⟨hmem, hkey⟩ := find?_eq_some hfind
    exact ⟨e, hmem, hkey, Option.some.inj h, hlive⟩

/-- A look-up gives nothing exactly if it finds no entry, or one too old. -/
theorem get_eq_none_iff {c : Cache κ ν τ} {now : τ} {k : κ} :
    (c.get now k).1 = none ↔
      c.event (.get now k) = .absent k now ∨ c.event (.get now k) = .expired k now := by
  rcases get_cases c now k with ⟨-, hevent, hget⟩ | ⟨e, -, ⟨-, hevent, hget⟩ | ⟨-, hevent, hget⟩⟩
  all_goals simp [hevent, hget]

/-- Where a key is looked up as absent, it has no entry. -/
theorem key_ne_of_absent {c : Cache κ ν τ} {now : τ} {k : κ}
    (h : c.event (.get now k) = .absent k now) : ∀ e ∈ c.entries, e.key ≠ k := by
  rcases get_cases c now k with ⟨hfind, -, -⟩ | ⟨e, -, ⟨-, hevent, -⟩ | ⟨-, hevent, -⟩⟩
  · exact not_contains_of_find? hfind
  · rw [hevent] at h
    cases h
  · rw [hevent] at h
    cases h

/-- The entries behind a use, by the event that it leaves. -/
inductive Change (c : Cache κ ν τ) : Event κ ν τ → List (Entry κ ν τ) → Prop
  /-- What is put goes to the end.  Nothing goes from the front as long as there is
  room, and otherwise no more than has to. -/
  | stored (k : κ) (v : ν) (now : τ) (front es : List (Entry κ ν τ))
      (split : c.others k ++ [⟨k, v, now⟩] = front ++ es) (bounded : es.length ≤ c.capacity)
      (full : front ≠ [] → es.length = c.capacity) :
      Change c (.stored k v now) es
  /-- A live entry goes to the end as it is. -/
  | hit (e : Entry κ ν τ) (now : τ) (mem : e ∈ c.entries) (live : c.expired now e = false) :
      Change c (.hit e.key e.value now) (c.others e.key ++ [e])
  | expired (e : Entry κ ν τ) (now : τ) (mem : e ∈ c.entries) (old : c.expired now e = true) :
      Change c (.expired e.key now) (c.others e.key)
  | absent (k : κ) (now : τ) (none : ∀ e ∈ c.entries, e.key ≠ k) :
      Change c (.absent k now) c.entries
  | invalidated (k : κ) : Change c (.invalidated k) (c.others k)
  | cleared : Change c .cleared []

/-- **WHAT ONE USE DOES TO THE ENTRIES.** -/
theorem change_apply (c : Cache κ ν τ) (u : Use κ ν τ) :
    c.Change (c.event u) (c.apply u).entries := by
  cases u with
  | put now key value =>
      let all := c.others key ++ [⟨key, value, now⟩]
      have hentries : (c.apply (.put now key value)).entries =
          all.drop (all.length - c.capacity) := rfl
      rw [hentries]
      refine .stored key value now (all.take (all.length - c.capacity)) _
        (List.take_append_drop _ _).symm ?_ fun hfront => ?_
      · rw [List.length_drop]
        omega
      · have hsurplus : all.length - c.capacity ≠ 0 := by
          intro h0
          rw [h0] at hfront
          exact hfront rfl
        rw [List.length_drop]
        omega
  | get now key =>
      show c.Change (c.event (.get now key)) (c.get now key).2.entries
      rcases get_cases c now key with
        ⟨hfind, hevent, hget⟩ | ⟨e, hfind, ⟨hold, hevent, hget⟩ | ⟨hlive, hevent, hget⟩⟩
      · rw [hevent, hget]
        exact .absent key now (not_contains_of_find? hfind)
      · obtain ⟨hmem, rfl⟩ := find?_eq_some hfind
        rw [hevent, hget]
        exact .expired e now hmem hold
      · obtain ⟨hmem, rfl⟩ := find?_eq_some hfind
        rw [hevent, hget]
        exact .hit e now hmem hlive
  | invalidate key => exact .invalidated key
  | clear => exact .cleared

/-- **WHERE AN ENTRY COMES FROM.**  Behind a use, an entry is the one that was just
put, or it was there before and the use overrides nothing under its key. -/
theorem Change.of_mem {c : Cache κ ν τ} {x : Event κ ν τ} {es : List (Entry κ ν τ)}
    (hchange : c.Change x es) {e : Entry κ ν τ} (he : e ∈ es) :
    x = .stored e.key e.value e.storedAt ∨ e ∈ c.entries ∧ ¬ x.Overrides e.key := by
  cases hchange with
  | stored k v now front _ hsplit _ _ =>
      have hall : e ∈ c.others k ++ [⟨k, v, now⟩] := by
        rw [hsplit]
        exact List.mem_append_right _ he
      rcases List.mem_append.mp hall with he | he
      · obtain ⟨hmem, hne⟩ := mem_others.mp he
        exact .inr ⟨hmem, by simpa using hne.symm⟩
      · rw [List.mem_singleton.mp he]
        exact .inl rfl
  | hit entry now hmem _ =>
      -- A hit overrides nothing, and moves an entry as it is.
      rcases List.mem_append.mp he with he | he
      · exact .inr ⟨(mem_others.mp he).1, by simp⟩
      · rw [List.mem_singleton.mp he]
        exact .inr ⟨hmem, by simp⟩
  | expired entry now _ _ =>
      obtain ⟨hmem, hne⟩ := mem_others.mp he
      exact .inr ⟨hmem, by simpa using hne.symm⟩
  | absent k now _ => exact .inr ⟨he, by simp⟩
  | invalidated k =>
      obtain ⟨hmem, hne⟩ := mem_others.mp he
      exact .inr ⟨hmem, by simpa using hne.symm⟩
  | cleared => exact absurd he List.not_mem_nil

@[simp] theorem capacity_apply (c : Cache κ ν τ) (u : Use κ ν τ) :
    (c.apply u).capacity = c.capacity := by
  cases u with
  | get now key =>
      show (c.get now key).2.capacity = c.capacity
      rcases get_cases c now key with ⟨-, -, hget⟩ | ⟨e, -, ⟨-, -, hget⟩ | ⟨-, -, hget⟩⟩
      all_goals rw [hget]
  | _ => rfl

@[simp] theorem lifetime_apply (c : Cache κ ν τ) (u : Use κ ν τ) :
    (c.apply u).lifetime = c.lifetime := by
  cases u with
  | get now key =>
      show (c.get now key).2.lifetime = c.lifetime
      rcases get_cases c now key with ⟨-, -, hget⟩ | ⟨e, -, ⟨-, -, hget⟩ | ⟨-, -, hget⟩⟩
      all_goals rw [hget]
  | _ => rfl

@[simp] theorem capacity_after (c : Cache κ ν τ) (us : List (Use κ ν τ)) :
    (c.after us).capacity = c.capacity := by
  induction us using List.reverseRecOn with
  | nil => rfl
  | append_singleton us u ih => rw [after_append_singleton, capacity_apply, ih]

@[simp] theorem lifetime_after (c : Cache κ ν τ) (us : List (Use κ ν τ)) :
    (c.after us).lifetime = c.lifetime := by
  induction us using List.reverseRecOn with
  | nil => rfl
  | append_singleton us u ih => rw [after_append_singleton, lifetime_apply, ih]

/-! ## §4. What the entries hold. -/

/-- Every entry holds the value and the time of a put under its key that stands: it
was not put again since, and nothing has dropped it. -/
def Remembers (h : List (Event κ ν τ)) (es : List (Entry κ ν τ)) : Prop :=
  ∀ e ∈ es, Stands (Event.Overrides e.key) h (.stored e.key e.value e.storedAt)

theorem Remembers.of_change {h : List (Event κ ν τ)} {c : Cache κ ν τ} {x : Event κ ν τ}
    {es : List (Entry κ ν τ)} (hr : Remembers h c.entries) (hchange : c.Change x es) :
    Remembers (h ++ [x]) es := by
  intro e he
  rcases hchange.of_mem he with rfl | ⟨hmem, hkeep⟩
  · exact stands_append_singleton.mpr (.inl rfl)
  · exact stands_append_singleton.mpr (.inr ⟨hkeep, hr e hmem⟩)

/-- **WHAT AN ENTRY HOLDS.**  Behind every run of an empty cache, an entry holds what
was put under its key last, and this stands. -/
theorem remembers_after {c : Cache κ ν τ} (hc : c.entries = []) (us : List (Use κ ν τ)) :
    Remembers (c.history us) (c.after us).entries := by
  induction us using List.reverseRecOn with
  | nil =>
      show Remembers [] c.entries
      rw [hc]
      exact nofun
  | append_singleton us u ih =>
      rw [history_append_singleton, after_append_singleton]
      exact ih.of_change (change_apply _ u)

/-! ## §5. What expires. -/

/-- Whatever expired behind the last put under its key had reached the lifetime since
that put. -/
def Aged (lifetime : Option τ) (h : List (Event κ ν τ)) : Prop :=
  ∀ k v t since now, Followed h (.stored k v t) since → (∀ x ∈ since, ¬ x.Stores k) →
    .expired k now ∈ since → ∃ life, lifetime = some life ∧ life ≤ now - t

theorem Aged.of_change {h : List (Event κ ν τ)} {c : Cache κ ν τ} {x : Event κ ν τ}
    {es : List (Entry κ ν τ)} (ha : Aged c.lifetime h) (hr : Remembers h c.entries)
    (hchange : c.Change x es) : Aged c.lifetime (h ++ [x]) := by
  intro k v t since now hf hlast hexpired
  rcases followed_append_singleton.mp hf with ⟨-, rfl⟩ | ⟨s, rfl, hs⟩
  · cases hexpired
  · have hlast' : ∀ y ∈ s, ¬ y.Stores k := fun y hy => hlast y (by simp [hy])
    rcases List.mem_append.mp hexpired with hmem | hmem
    · exact ha k v t s now hs hlast' hmem
    · -- This look-up found the entry, which holds the last put.
      rw [List.mem_singleton] at hmem
      subst hmem
      cases hchange with
      | expired e _ hmem hold =>
          obtain ⟨life, hlife, hle⟩ := expired_eq_true_iff.mp hold
          have hentry : Stands (Event.Stores e.key) h
              (.stored e.key e.value e.storedAt : Event κ ν τ) :=
            (hr e hmem).mono fun _ => Or.inl
          have heq : (.stored e.key e.value e.storedAt : Event κ ν τ) = .stored e.key v t :=
            hentry.eq ⟨s, hs, hlast'⟩ rfl rfl
          cases heq
          exact ⟨life, hlife, hle⟩

theorem aged_after {c : Cache κ ν τ} (hc : c.entries = []) (us : List (Use κ ν τ)) :
    Aged c.lifetime (c.history us) := by
  induction us using List.reverseRecOn with
  | nil =>
      intro k v t since now hf
      exact absurd hf.mem List.not_mem_nil
  | append_singleton us u ih =>
      rw [history_append_singleton]
      have hstep := Aged.of_change (c := c.after us) (by rw [lifetime_after]; exact ih)
        (remembers_after hc us) (change_apply _ u)
      rwa [lifetime_after] at hstep

end Mandate.Cache
