/-
  Mandate.Proofs.Resolver.Cached
  ────────────────────────────────
  **RESOLVING THROUGH A CACHE IS RESOLVING.**

  A resolver behind a cache is asked at some calls and not at others, and what it
  would answer may be different every time, a failure included.  What a call met is
  written down as its surroundings, and a run of calls leaves a log of what was
  asked and answered, and of what was told to go.

      answered     — the inner resolver was asked, and this is its answer
      served       — the answer came from the cache
      invalidated  — a name was told to go
      cleared      — all names were

  Main results:
    * `keeps_behind`           — an entry is the last answer for its name, which stands;
    * `of_answer_error`        — a failure is the inner resolver's own, and leaves
                                 nothing under the name;
    * `cached_resolution_law`  — whatever is resolved is what the inner resolver
                                 answered last, within the lifetime.
-/
import Mandate.Proofs.Cache.Run
import Mandate.Resolver.Cached
import Mathlib.Data.Int.Order.Basic

namespace Mandate.CapabilityCache

variable {τ : Type}

/-! ## §1. One call. -/

/-- What a call meets. -/
structure Surroundings (τ : Type) where
  /-- The time at which the cache is looked up. -/
  now : τ
  /-- What the inner resolver answers, if it is asked. -/
  answer : Text → Except Failure Capability
  /-- The time at which its answer is there. -/
  answeredAt : τ

/-- The time, and the names that the inner resolver has been asked for. -/
abbrev Inquiry (τ : Type) := StateM (τ × List Text)

/-- The clock of a call. -/
def clock : Inquiry τ τ := do return (← get).1

/-- The inner resolver of a call.  Asking takes until the answer is there. -/
def Surroundings.inner (w : Surroundings τ) : Resolver (Inquiry τ) := fun uri => do
  set (w.answeredAt, (← get).2 ++ [uri])
  return w.answer uri

/-- What a resolution came to. -/
structure Resolved (τ : Type) where
  answer : Except Failure Capability
  cache : CapabilityCache τ
  /-- The names that the inner resolver was asked for. -/
  asked : List Text

section Calls

variable [Sub τ] [LE τ] [DecidableLE τ]

/-- Resolve a name in its surroundings. -/
def resolveIn (cache : CapabilityCache τ) (w : Surroundings τ) (uri : Text) : Resolved τ :=
  let outcome := (resolve clock (fun _ => pure ()) w.inner cache uri).run (w.now, [])
  { answer := outcome.1.1, cache := outcome.1.2, asked := outcome.2.2 }

variable {cache : CapabilityCache τ} {w : Surroundings τ} {uri : Text}

/-- A name that the cache knows is not asked for. -/
theorem resolveIn_of_hit {c : Capability} (h : (cache.get w.now uri).1 = some c) :
    cache.resolveIn w uri = { answer := .ok c, cache := (cache.get w.now uri).2, asked := [] } := by
  cases hget : cache.get w.now uri with
  | mk found behind =>
      rw [hget] at h
      cases h
      simp [resolveIn, resolve, clock, hget]
      exact ⟨rfl, rfl, rfl⟩

/-- Any other name is asked for, and an answer other than a failure is kept. -/
theorem resolveIn_of_miss (h : (cache.get w.now uri).1 = none) :
    cache.resolveIn w uri =
      { answer := w.answer uri
        cache := match w.answer uri with
          | .ok c => (cache.get w.now uri).2.put w.answeredAt uri c
          | .error _ => (cache.get w.now uri).2
        asked := [uri] } := by
  cases hget : cache.get w.now uri with
  | mk found behind =>
      rw [hget] at h
      cases h
      cases hanswer : w.answer uri <;>
        simp [resolveIn, resolve, clock, Surroundings.inner, hget, hanswer] <;>
        exact ⟨rfl, rfl, rfl⟩

/-! ## §2. Runs of calls. -/

/-- A call of the resolver. -/
inductive Call where
  | resolve (uri : Text)
  | invalidate (uri : Text)
  | clear

/-- What a call leaves in the log. -/
inductive Note (τ : Type) where
  | answered (uri : Text) (answer : Except Failure Capability) (time : τ)
  | served (uri : Text)
  | invalidated (uri : Text)
  | cleared

namespace Note

/-- The inner resolver answered for the name, and not with a failure. -/
def Renews (u : Text) : Note τ → Prop
  | .answered uri (.ok _) _ => uri = u
  | _ => False

/-- The name was told to go, alone or with all others. -/
def Discards (u : Text) : Note τ → Prop
  | .invalidated uri => uri = u
  | .cleared => True
  | _ => False

/-- A new answer for the name, or word that it has to go. -/
def Overrides (u : Text) (n : Note τ) : Prop := n.Renews u ∨ n.Discards u

end Note

/-- The log entry of a call and the cache behind it. -/
def call (cache : CapabilityCache τ) (w : Surroundings τ) : Call → Note τ × CapabilityCache τ
  | .resolve uri =>
      let r := cache.resolveIn w uri
      (if r.asked = [] then .served uri else .answered uri (w.answer uri) w.answeredAt, r.cache)
  | .invalidate uri => (.invalidated uri, (cache.invalidate uri).2)
  | .clear => (.cleared, cache.clear)

/-- The cache behind a run of calls, each in its own surroundings. -/
def behind (cache : CapabilityCache τ) (calls : List (Call × Surroundings τ)) :
    CapabilityCache τ :=
  calls.foldl (fun c p => (c.call p.2 p.1).2) cache

/-- The log of a run of calls. -/
def log (cache : CapabilityCache τ) : List (Call × Surroundings τ) → List (Note τ)
  | [] => []
  | p :: calls => (cache.call p.2 p.1).1 :: log (cache.call p.2 p.1).2 calls

theorem behind_append_singleton (cache : CapabilityCache τ)
    (calls : List (Call × Surroundings τ)) (p : Call × Surroundings τ) :
    cache.behind (calls ++ [p]) = ((cache.behind calls).call p.2 p.1).2 := by
  simp [behind]

theorem log_append_singleton (cache : CapabilityCache τ) (calls : List (Call × Surroundings τ))
    (p : Call × Surroundings τ) :
    cache.log (calls ++ [p]) = cache.log calls ++ [((cache.behind calls).call p.2 p.1).1] := by
  induction calls generalizing cache with
  | nil => rfl
  | cons q calls ih =>
      show (cache.call q.2 q.1).1 :: log (cache.call q.2 q.1).2 (calls ++ [p]) = _
      rw [ih]
      rfl

/-- **WHERE AN ENTRY COMES FROM.**  Behind a call, an entry is the answer that was just
given, or it was there before and the call overrides nothing under its name. -/
theorem mem_entries_call {a : Call} {e : Cache.Entry Text Capability τ}
    (he : e ∈ (cache.call w a).2.entries) :
    (cache.call w a).1 = .answered e.key (.ok e.value) e.storedAt ∨
      e ∈ cache.entries ∧ ¬ (cache.call w a).1.Overrides e.key := by
  cases a with
  | resolve uri =>
      have hlook := Cache.change_apply cache (.get w.now uri)
      cases hget : (cache.get w.now uri).1 with
      | some c =>
          rw [call, resolveIn_of_hit hget] at he ⊢
          rcases hlook.of_mem he with heq | ⟨hmem, -⟩
          · rw [Cache.get_eq_some_iff.mp hget] at heq
            cases heq
          · exact .inr ⟨hmem, by simp [Note.Overrides, Note.Renews, Note.Discards]⟩
      | none =>
          have hold : ∀ e ∈ (cache.get w.now uri).2.entries, e ∈ cache.entries := by
            intro e he
            rcases hlook.of_mem he with heq | ⟨hmem, -⟩
            · rcases Cache.get_eq_none_iff.mp hget with hmiss | hmiss <;>
                rw [hmiss] at heq <;> cases heq
            · exact hmem
          rw [call, resolveIn_of_miss hget] at he ⊢
          cases hanswer : w.answer uri with
          | ok c =>
              simp only [hanswer] at he ⊢
              have hput := Cache.change_apply (cache.get w.now uri).2 (.put w.answeredAt uri c)
              rcases hput.of_mem he with heq | ⟨hmem, hkeep⟩
              · obtain ⟨hkey, hvalue, htime⟩ := Cache.Event.stored.inj heq
                rw [← hkey, ← hvalue, ← htime]
                exact .inl (by simp)
              · refine .inr ⟨hold e hmem, ?_⟩
                simpa [Note.Overrides, Note.Renews, Note.Discards, Cache.event] using hkeep
          | error f =>
              simp only [hanswer] at he ⊢
              exact .inr ⟨hold e he, by simp [Note.Overrides, Note.Renews, Note.Discards]⟩
  | invalidate uri =>
      rcases (Cache.change_apply cache (.invalidate uri)).of_mem he with heq | ⟨hmem, hkeep⟩
      · cases heq
      · refine .inr ⟨hmem, ?_⟩
        simpa [call, Note.Overrides, Note.Renews, Note.Discards, Cache.event] using hkeep
  | clear => exact absurd he List.not_mem_nil

/-- Every entry is the last answer of the inner resolver for its name, with the time
of that answer, and nothing has discarded it since. -/
def Keeps (notes : List (Note τ)) (cache : CapabilityCache τ) : Prop :=
  ∀ e ∈ cache.entries,
    Stands (Note.Overrides e.key) notes (.answered e.key (.ok e.value) e.storedAt)

theorem keeps_behind (h : cache.entries = []) (calls : List (Call × Surroundings τ)) :
    Keeps (cache.log calls) (cache.behind calls) := by
  induction calls using List.reverseRecOn with
  | nil =>
      show Keeps [] cache
      rw [Keeps, h]
      exact nofun
  | append_singleton calls p ih =>
      rw [log_append_singleton, behind_append_singleton]
      intro e he
      rcases mem_entries_call he with heq | ⟨hmem, hkeep⟩
      · exact stands_append_singleton.mpr (.inl heq.symm)
      · exact stands_append_singleton.mpr (.inr ⟨hkeep, ih e hmem⟩)

theorem lifetime_call (a : Call) : (cache.call w a).2.lifetime = cache.lifetime := by
  cases a with
  | resolve uri =>
      have hlook := Cache.lifetime_apply cache (.get w.now uri)
      cases hget : (cache.get w.now uri).1 with
      | some c =>
          rw [call, resolveIn_of_hit hget]
          exact hlook
      | none =>
          rw [call, resolveIn_of_miss hget]
          cases w.answer uri <;> exact hlook
  | _ => rfl

theorem lifetime_behind (calls : List (Call × Surroundings τ)) :
    (cache.behind calls).lifetime = cache.lifetime := by
  induction calls using List.reverseRecOn with
  | nil => rfl
  | append_singleton calls p ih => rw [behind_append_singleton, lifetime_call, ih]

/-! ## §3. Failures. -/

/-- No entry stands under a name. -/
def Lacks (cache : CapabilityCache τ) (u : Text) : Prop := ∀ e ∈ cache.entries, e.key ≠ u

theorem asked_of_lacks (h : cache.Lacks uri) : (cache.resolveIn w uri).asked = [uri] := by
  cases hget : (cache.get w.now uri).1 with
  | some c =>
      obtain ⟨e, hmem, hkey, -, -⟩ := Cache.exists_entry_of_hit hget
      exact absurd hkey (h e hmem)
  | none => rw [resolveIn_of_miss hget]

/-- As long as the inner resolver has not answered for a name that the cache lacks,
the cache lacks it. -/
theorem Lacks.behind (h : cache.Lacks uri) (calls : List (Call × Surroundings τ))
    (hnone : ∀ n ∈ cache.log calls, ¬ n.Renews uri) : (cache.behind calls).Lacks uri := by
  induction calls using List.reverseRecOn with
  | nil => exact h
  | append_singleton calls p ih =>
      rw [log_append_singleton] at hnone
      rw [behind_append_singleton]
      have hbefore := ih fun n hn => hnone n (List.mem_append_left _ hn)
      intro e he hkey
      rcases mem_entries_call he with heq | ⟨hmem, -⟩
      · have hrenews := hnone _ (List.mem_append_right _ (List.mem_singleton_self _))
        rw [heq] at hrenews
        exact hrenews hkey
      · exact hbefore e hmem hkey

/-- A look-up in vain adds nothing, and leaves nothing under the name. -/
theorem lacks_of_miss {now : τ} (h : (cache.get now uri).1 = none) :
    (cache.get now uri).2.entries.Sublist cache.entries ∧ Lacks (cache.get now uri).2 uri := by
  have hchange := Cache.change_apply cache (.get now uri)
  have hafter : (cache.apply (.get now uri)).entries = (cache.get now uri).2.entries := rfl
  rw [hafter] at hchange
  unfold Lacks
  generalize (cache.get now uri).2.entries = es at hchange ⊢
  rcases Cache.get_eq_none_iff.mp h with hmiss | hmiss
  · rw [hmiss] at hchange
    cases hchange with
    | absent _ _ hnone => exact ⟨List.Sublist.refl _, hnone⟩
  · rw [hmiss] at hchange
    cases hchange with
    | expired e _ _ _ => exact ⟨List.filter_sublist, fun _ he => (Cache.mem_others.mp he).2⟩

/-- A failure is the inner resolver's own.  It adds nothing to the cache, and leaves
nothing there under the name. -/
theorem of_answer_error {f : Failure} (h : (cache.resolveIn w uri).answer = .error f) :
    (cache.resolveIn w uri).asked = [uri] ∧ w.answer uri = .error f ∧
      (cache.resolveIn w uri).cache.entries.Sublist cache.entries ∧
      (cache.resolveIn w uri).cache.Lacks uri := by
  cases hget : (cache.get w.now uri).1 with
  | some c =>
      rw [resolveIn_of_hit hget] at h
      cases h
  | none =>
      rw [resolveIn_of_miss hget] at h ⊢
      simp only at h
      rw [h]
      obtain ⟨hsub, hlacks⟩ := lacks_of_miss hget
      exact ⟨rfl, rfl, hsub, hlacks⟩

/-- Every answer in the log is one that the inner resolver gave at one of the calls. -/
theorem exists_call_of_answered {calls : List (Call × Surroundings τ)}
    {answer : Except Failure Capability} {time : τ}
    (h : .answered uri answer time ∈ cache.log calls) :
    ∃ p ∈ calls, p.2.answer uri = answer ∧ p.2.answeredAt = time := by
  induction calls generalizing cache with
  | nil => exact absurd h List.not_mem_nil
  | cons p calls ih =>
      obtain ⟨a, v⟩ := p
      rcases List.mem_cons.mp h with hnote | hlater
      · refine ⟨(a, v), List.mem_cons_self, ?_⟩
        cases a with
        | resolve name =>
            simp only [call] at hnote
            split at hnote
            next => cases hnote
            next =>
              cases hnote
              exact ⟨rfl, rfl⟩
        | _ => cases hnote
      · obtain ⟨q, hq, hanswer⟩ := ih hlater
        exact ⟨q, List.mem_cons_of_mem _ hq, hanswer⟩

end Calls

/-! ## §4. The law. -/

section Law

variable [Sub τ] [LinearOrder τ] {m : Nat} {ttl : Option τ} {fresh : CapabilityCache τ}

/-- A capability is what the inner resolver has just answered, or its last answer for
the name, which stands and is younger than the lifetime. -/
theorem of_answer_ok (hfresh : Cache.empty? (m : Int) ttl = some fresh)
    (calls : List (Call × Surroundings τ)) {w : Surroundings τ} {u : Text} {x : Capability}
    (h : ((fresh.behind calls).resolveIn w u).answer = .ok x) :
    ((fresh.behind calls).resolveIn w u).asked = [u] ∧ w.answer u = .ok x ∨
    ((fresh.behind calls).resolveIn w u).asked = [] ∧
      ∃ t, Stands (Note.Overrides u) (fresh.log calls) (.answered u (.ok x) t) ∧
        ∀ life, ttl = some life → w.now - t < life := by
  obtain ⟨-, -, hlife, hempty⟩ := Cache.empty?_eq_some hfresh
  cases hget : ((fresh.behind calls).get w.now u).1 with
  | some c =>
      rw [resolveIn_of_hit hget] at h ⊢
      cases h
      obtain ⟨e, hmem, rfl, rfl, hlive⟩ := Cache.exists_entry_of_hit hget
      rw [Cache.expired_eq_false_iff, lifetime_behind, hlife] at hlive
      exact .inr ⟨rfl, e.storedAt, keeps_behind hempty calls e hmem, hlive⟩
  | none =>
      rw [resolveIn_of_miss hget] at h ⊢
      exact .inl ⟨rfl, h⟩

/-- **RESOLVING THROUGH A CACHE IS RESOLVING.**  A cache can be made with room for any `m`
entries, one at least.  Behind any calls of a resolver with this cache, a capability
comes from the inner resolver itself, at this call or as its last answer for the name,
which nothing has discarded since and which is younger than the lifetime.  A failure
comes from the inner resolver at this call, adds nothing and renews nothing, and is
asked for again until there is an answer.  An inner resolver that never changes its
mind is agreed with. -/
theorem cached_resolution_law (hm : 1 ≤ m) (ttl : Option τ) :
    ∃ fresh : CapabilityCache τ, Cache.empty? (m : Int) ttl = some fresh ∧
      ∀ (calls : List (Call × Surroundings τ)) (w : Surroundings τ) (u : Text),
        let before := fresh.behind calls
        let r := before.resolveIn w u
        (∀ x, r.answer = .ok x →
          r.asked = [u] ∧ w.answer u = .ok x ∨
          r.asked = [] ∧
            ∃ t, Stands (Note.Overrides u) (fresh.log calls) (.answered u (.ok x) t) ∧
              ∀ life, ttl = some life → w.now - t < life) ∧
        (∀ f, r.asked = [u] ∧ w.answer u = .error f ↔ r.answer = .error f) ∧
        (∀ f, r.answer = .error f →
          r.cache.entries.Sublist before.entries ∧
          ∀ later w', (∀ n ∈ r.cache.log later, ¬ n.Renews u) →
            ((r.cache.behind later).resolveIn w' u).asked = [u]) ∧
        (∀ f, (∀ p ∈ calls, p.2.answer = f) → w.answer = f → r.answer = f u) := by
  obtain ⟨fresh, hfresh⟩ := Cache.exists_empty? (κ := Text) (ν := Capability) hm ttl
  refine ⟨fresh, hfresh, fun calls w u => ?_⟩
  intro before r
  refine ⟨fun x hx => of_answer_ok hfresh calls hx, fun f => ⟨?_, fun hf => ?_⟩, fun f hf => ?_,
    fun f hcalls hnow => ?_⟩
  · rintro ⟨hasked, hanswer⟩
    cases hget : (before.get w.now u).1 with
    | some c =>
        -- The cache knew the name, so nobody was asked.
        have hnone : r.asked = [] := by rw [show r = _ from resolveIn_of_hit hget]
        rw [hnone] at hasked
        cases hasked
    | none => rw [show r = _ from resolveIn_of_miss hget, hanswer]
  · obtain ⟨hasked, hanswer, -, -⟩ := of_answer_error hf
    exact ⟨hasked, hanswer⟩
  · obtain ⟨-, -, hsub, hlacks⟩ := of_answer_error hf
    exact ⟨hsub, fun later w' hnone => asked_of_lacks (hlacks.behind later hnone)⟩
  · cases hanswer : r.answer with
    | error e =>
        obtain ⟨-, hinner, -, -⟩ := of_answer_error hanswer
        rw [← hinner, hnow]
    | ok x =>
        rcases of_answer_ok hfresh calls hanswer with ⟨-, hinner⟩ | ⟨-, t, hstands, -⟩
        · rw [← hinner, hnow]
        · obtain ⟨p, hp, hinner, -⟩ := exists_call_of_answered hstands.mem
          rw [← hinner, hcalls p hp]

end Law

/-- A fresh cache with room for one entry, which lives for ten units of time. -/
def roomForOne : CapabilityCache Int :=
  { capacity := 1, lifetime := some 10, entries := [], hits := 0, misses := 0, evictions := 0 }

/-- A resolver's only name, which it takes one unit of time to answer. -/
def answering (now : Int) : Surroundings Int where
  now := now
  answer := (Store.ofList [Capability.bare "urn:zcap:root" ⟨"urn:zcap:root", ""⟩]).resolve
  answeredAt := now + 1

/-- A resolver that has lost all names. -/
def failing (now : Int) : Surroundings Int where
  now := now
  answer := (Store.ofList []).resolve
  answeredAt := now + 1

/-- A name that was answered for at one is served at ten, though the inner resolver has
lost it by then.  At eleven the loss is noticed, and from then on every time. -/
theorem lost_name_outlived :
    1 ≤ 1 ∧ Cache.empty? (1 : Nat) (some 10) = some roomForOne ∧
    (∃ t, Stands (Note.Overrides "urn:zcap:root")
        (roomForOne.log [(.resolve "urn:zcap:root", answering 0)])
        (.answered "urn:zcap:root" ((answering 0).answer "urn:zcap:root") t) ∧
      10 - t < 10) ∧
    ((((roomForOne.behind [(.resolve "urn:zcap:root", answering 0)]).resolveIn (failing 11)
        "urn:zcap:root").cache).resolveIn (failing 12) "urn:zcap:root").asked
      = [.plain "urn:zcap:root"] := by
  have hm : 1 ≤ 1 := by decide
  obtain ⟨fresh, hfresh, hlaw⟩ := cached_resolution_law hm (some (10 : Int))
  obtain rfl : roomForOne = fresh := Option.some.inj hfresh
  let once : List (Call × Surroundings Int) := [(.resolve "urn:zcap:root", answering 0)]
  refine ⟨hm, hfresh, ?_, ?_⟩
  · obtain ⟨hok, -, -, -⟩ := hlaw once (failing 10) "urn:zcap:root"
    rcases hok _ rfl with ⟨hasked, -⟩ | ⟨-, t, hstands, hyoung⟩
    · cases hasked
    · exact ⟨t, hstands, hyoung 10 rfl⟩
  · obtain ⟨-, -, hfailed, -⟩ := hlaw once (failing 11) "urn:zcap:root"
    obtain ⟨-, hagain⟩ := hfailed _ rfl
    exact hagain [] (failing 12) fun _ hn => absurd hn List.not_mem_nil

end Mandate.CapabilityCache
