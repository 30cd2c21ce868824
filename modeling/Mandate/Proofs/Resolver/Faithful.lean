/-
  Mandate.Proofs.Resolver.Faithful
  ────────────────────────────────
  **RESOLVERS ANSWER FOR THE NAME THEY ARE ASKED FOR.**

  A check never compares the name of a root with the name that it asked for.  It relies on
  its resolver, which may be any stack:

      store   — capabilities at hand, taken up and removed at any time
      remote  — whatever comes back from somewhere else, at every request anew
      cached  — a cache in front of another stack, caches among them

  What a stack can hold is one invariant, `Faithful`, which every use of the stack keeps.

  Main results:
    * `id_of_resolve`            — whatever comes back, a remote answers for the name;
    * `passed_through`           — what resolving through a cache can come to;
    * `Faithful.ask`             — a faithful stack answers for the name, and stays so;
    * `Faithful.apply`           — every other use keeps it faithful, too;
    * `faithful_of_reached`      — so every stack that a history leads to is faithful;
    * `faithful_resolution_law`  — and a root that an accepted invocation rests on has the
                                   name that the invocation leads to.
-/
import Mandate.Proofs.Resolver.Cached
import Mandate.Proofs.Resolver.Store
import Mandate.Proofs.Verification.Acceptance
import Mandate.Proofs.Verification.Stateful
import Mandate.Resolver.Remote

namespace Mandate

/-! ## §1. Remotes. -/

namespace Remote

variable {room : Headroom} {known : Registry} {uri : Text} {c : Capability}

/-- A capability is only taken from a body if it has the name that was asked for. -/
theorem id_of_readBody {body : List UInt8} (h : readBody room known uri body = .ok c) :
    c.id = uri := by
  unfold readBody at h
  split at h
  next => cases h
  next =>
    split at h
    next => split at h <;> cases h
    next =>
      split at h
      next => cases h
      next => cases h
      next =>
        split at h
        next hid =>
          cases h
          exact hid
        next => cases h

theorem id_of_answer {reply : Except Miss Response} (h : answer room known uri reply = .ok c) :
    c.id = uri := by
  cases reply with
  | error miss => cases miss <;> cases h
  | ok response =>
      rw [answer] at h
      split at h
      next => cases h
      next => exact id_of_readBody h

section Requests

variable {ω : Type} {r : Remote} {note : Log.Event → StateM ω Unit}
  {client : Client (StateM ω)} {w : ω}

/-- Where there is a request, a remote resolves to what comes of the answer to it. -/
theorem run_resolve_of_request {request : Request} (hrequest : r.request uri = .ok request) :
    ((r.resolve room known note client uri).run w).1
      = answer room known uri ((client request).run w).1 := by
  simp only [resolve, hrequest]
  rw [run_bind]
  cases answer room known uri ((client request).run w).1 <;> rfl

/-- Whatever comes back, a remote answers for the name. -/
theorem id_of_resolve (h : ((r.resolve room known note client uri).run w).1 = .ok c) :
    c.id = uri := by
  cases hrequest : r.request uri with
  | error e =>
      rw [resolve, hrequest] at h
      cases h
  | ok request =>
      rw [run_resolve_of_request hrequest] at h
      exact id_of_answer h

end Requests

end Remote

/-! ## §2. Caches. -/

namespace CapabilityCache

variable {τ : Type}

/-- Every entry holds a capability of the name that it is kept under. -/
def Named (cache : CapabilityCache τ) : Prop := ∀ e ∈ cache.entries, e.value.id = e.key

variable [Sub τ] [LE τ] [DecidableLE τ] {cache : CapabilityCache τ}

/-- Entries keep their names, as long as what is put has the name that it is put under. -/
theorem Named.apply (h : cache.Named) {u : Cache.Use Text Capability τ}
    (hput : ∀ now key c, u = .put now key c → c.id = key) : Named (Cache.apply cache u) := by
  intro e he
  rcases (Cache.change_apply cache u).of_mem he with hstored | ⟨hmem, -⟩
  · -- Only a put leaves word of something stored.
    cases u with
    | put now key c =>
        cases hstored
        exact hput _ _ _ rfl
    | get now key =>
        simp only [Cache.event] at hstored
        split at hstored
        next => cases hstored
        next => split at hstored <;> cases hstored
    | _ => cases hstored
  · exact h e hmem

theorem Named.get (h : cache.Named) (now : τ) (uri : Text) : Named (cache.get now uri).2 := by
  refine h.apply (u := .get now uri) ?_
  intro _ _ _ heq
  cases heq

theorem Named.invalidate (h : cache.Named) (uri : Text) : Named (cache.invalidate uri).2 := by
  refine h.apply (u := .invalidate uri) ?_
  intro _ _ _ heq
  cases heq

theorem Named.clear (h : cache.Named) : Named cache.clear := by
  refine h.apply (u := .clear) ?_
  intro _ _ _ heq
  cases heq

theorem Named.put (h : cache.Named) (now : τ) {uri : Text} {c : Capability} (hc : c.id = uri) :
    Named (cache.put now uri c) := by
  refine h.apply (u := .put now uri c) ?_
  intro _ _ _ heq
  cases heq
  exact hc

theorem Named.id_of_hit (h : cache.Named) {now : τ} {uri : Text} {c : Capability}
    (hit : (cache.get now uri).1 = some c) : c.id = uri := by
  obtain ⟨e, hmem, rfl, rfl, -⟩ := Cache.exists_entry_of_hit hit
  exact h e hmem

/-! ## §3. Caches in front of anything. -/

section Fronts

/-- Two steps on two states, the second step taken where the first has left them. -/
theorem run_run_bind {σ ω α β : Type} (x : StateT σ (StateM ω) α) (f : α → StateT σ (StateM ω) β)
    (s : σ) (w : ω) :
    ((x >>= f).run s).run w =
      ((f ((x.run s).run w).1.1).run ((x.run s).run w).1.2).run ((x.run s).run w).2 := rfl

/-- A step on the second state alone. -/
theorem run_run_lift {σ ω α : Type} (x : StateM ω α) (s : σ) (w : ω) :
    ((liftM x : StateT σ (StateM ω) α).run s).run w = (((x.run w).1, s), (x.run w).2) := rfl

variable {σ ω : Type} {clock : StateM ω τ} {note : Log.Event → StateM ω Unit}
  {inner : Text → StateM ω (Except Failure Capability × σ)} {behind : σ} {uri : Text} {w : ω}

/-- What stands behind a cache, as the resolver that the cache asks. -/
def asked (inner : Text → StateM ω (Except Failure Capability × σ)) :
    Resolver (StateT σ (StateM ω)) := fun name => do
  let (answer, after) ← inner name
  set after
  return answer

/-- Resolve a name through a cache in front of something that gives an answer and leaves
something else behind.  It is asked once at most. -/
def through (clock : StateM ω τ) (note : Log.Event → StateM ω Unit)
    (inner : Text → StateM ω (Except Failure Capability × σ)) (cache : CapabilityCache τ)
    (behind : σ) (uri : Text) :
    StateM ω ((Except Failure Capability × CapabilityCache τ) × σ) :=
  (cache.resolve (m := StateT σ (StateM ω)) clock (fun e => note e) (asked inner) uri).run behind

omit [Sub τ] [LE τ] [DecidableLE τ] in
theorem run_asked : (((asked inner) uri).run behind).run w = (inner uri).run w := rfl

/-- What resolving through a cache can come to. -/
inductive Passed (inner : Text → StateM ω (Except Failure Capability × σ))
    (cache : CapabilityCache τ) (behind : σ) (uri : Text) :
    (Except Failure Capability × CapabilityCache τ) × σ → Prop
  /-- The cache knows the name. -/
  | hit {now : τ} {c : Capability} (hit : (cache.get now uri).1 = some c) :
      Passed inner cache behind uri ((.ok c, (cache.get now uri).2), behind)
  /-- The cache does not know the name, and keeps the answer. -/
  | kept {now later : τ} {c : Capability} {after : σ} {w : ω}
      (miss : (cache.get now uri).1 = none)
      (answer : ((inner uri).run w).1 = (.ok c, after)) :
      Passed inner cache behind uri ((.ok c, (cache.get now uri).2.put later uri c), after)
  /-- The cache does not know the name, and there is no answer to keep. -/
  | failed {now : τ} {e : Failure} {after : σ} {w : ω}
      (miss : (cache.get now uri).1 = none)
      (answer : ((inner uri).run w).1 = (.error e, after)) :
      Passed inner cache behind uri ((.error e, (cache.get now uri).2), after)

theorem passed_through :
    Passed inner cache behind uri ((through clock note inner cache behind uri).run w).1 := by
  unfold through resolve
  -- The steps in their order: the clock, the look-up, and after a miss the question.
  rw [run_run_bind, run_run_lift]
  cases hget : cache.get (clock.run w).1 uri with
  | mk found left =>
      have hleft : left = (cache.get (clock.run w).1 uri).2 := by rw [hget]
      have hfound : (cache.get (clock.run w).1 uri).1 = found := by rw [hget]
      cases found with
      | some c =>
          show Passed inner cache behind uri ((.ok c, left), behind)
          rw [hleft]
          exact .hit hfound
      | none =>
          rw [run_run_bind, run_asked]
          cases hinner : (inner uri).run (clock.run w).2 with
          | mk answered w₂ =>
              obtain ⟨answer, after⟩ := answered
              have hanswer : ((inner uri).run (clock.run w).2).1 = (answer, after) := by rw [hinner]
              cases answer with
              | ok c =>
                  show Passed inner cache behind uri
                    ((.ok c, left.put (clock.run w₂).1 uri c), after)
                  rw [hleft]
                  exact .kept hfound hanswer
              | error e =>
                  show Passed inner cache behind uri ((.error e, left), after)
                  rw [hleft]
                  exact .failed hfound hanswer

end Fronts

end CapabilityCache

/-! ## §4. Stacks. -/

/-- A resolver of one of the three kinds, with whatever stands behind it.  What a client
comes back with and what a clock shows may depend on a world `ω`, and change it. -/
inductive Stack (ω τ : Type) where
  | store (s : Store)
  | remote (room : Headroom) (r : Remote) (client : Remote.Client (StateM ω))
  | cached (clock : StateM ω τ) (cache : CapabilityCache τ) (behind : Stack ω τ)

namespace Stack

variable {ω τ : Type} [Sub τ] [LE τ] [DecidableLE τ]

/-- Ask a stack for a name. -/
def ask (known : Registry) (note : Log.Event → StateM ω Unit) :
    Stack ω τ → Text → StateM ω (Except Failure Capability × Stack ω τ)
  | .store s, uri => return (s.resolve uri, .store s)
  | .remote room r client, uri => do
      return (← r.resolve room known note client uri, .remote room r client)
  | .cached clock cache behind, uri => do
      let ((answer, cache), behind) ←
        CapabilityCache.through clock note (behind.ask known note) cache behind uri
      return (answer, .cached clock cache behind)

omit [Sub τ] [LE τ] [DecidableLE τ] in
/-- Whatever a stack holds has the name that it is found by. -/
def Faithful : Stack ω τ → Prop
  | .store s => s.Keeps fun _ => True
  | .remote .. => True
  | .cached _ cache behind => cache.Named ∧ behind.Faithful

variable {k : Stack ω τ}

/-- **A FAITHFUL STACK ANSWERS FOR THE NAME.**  It stays faithful, too. -/
theorem Faithful.ask (h : k.Faithful) (known : Registry) (note : Log.Event → StateM ω Unit)
    (uri : Text) (w : ω) :
    (∀ c, ((k.ask known note uri).run w).1.1 = .ok c → c.id = uri) ∧
      ((k.ask known note uri).run w).1.2.Faithful := by
  -- By induction on the stack: what a cache takes from behind already has its name.
  induction k generalizing uri w with
  | store s =>
      refine ⟨fun c hc => ?_, h⟩
      exact (h uri c hc).1
  | remote room r client =>
      refine ⟨fun c hc => ?_, trivial⟩
      have hanswer : ((r.resolve room known note client uri).run w).1 = .ok c := hc
      exact Remote.id_of_resolve hanswer
  | cached clock cache behind ih =>
      obtain ⟨hnamed, hbehind⟩ := h
      let passed := ((CapabilityCache.through clock note (behind.ask known note) cache behind
        uri).run w).1
      have hpassed : CapabilityCache.Passed (behind.ask known note) cache behind uri passed :=
        CapabilityCache.passed_through
      have hask : (((Stack.cached clock cache behind).ask known note uri).run w).1
          = (passed.1.1, .cached clock passed.1.2 passed.2) := rfl
      rw [hask]
      generalize passed = r at hpassed
      cases hpassed with
      | @hit now c hit =>
          refine ⟨fun d hd => ?_, hnamed.get now uri, hbehind⟩
          cases hd
          exact hnamed.id_of_hit hit
      | @kept now later c after w₁ _ answer =>
          obtain ⟨hid, hafter⟩ := ih hbehind uri w₁
          rw [answer] at hid hafter
          refine ⟨fun d hd => ?_, (hnamed.get now uri).put later (hid c rfl), hafter⟩
          cases hd
          exact hid c rfl
      | @failed now e after w₁ _ answer =>
          obtain ⟨-, hafter⟩ := ih hbehind uri w₁
          rw [answer] at hafter
          exact ⟨nofun, hnamed.get now uri, hafter⟩

/-! ## §5. Histories. -/

/-- One use of a stack, or of a part of it, which may be in other hands as well. -/
inductive Use (ω : Type) where
  | add (c : Capability)
  | addDocument (known : Registry) (document : Json.Value)
  | discard (uri : Text)
  | ask (known : Registry) (note : Log.Event → StateM ω Unit) (uri : Text) (w : ω)
  | invalidate (uri : Text)
  | clear
  | behind (u : Use ω)

/-- The stack behind a use.  What cannot be used like this stays as it is, and so does a
store whose document is refused. -/
def apply : Stack ω τ → Use ω → Stack ω τ
  | .store s, .add c => .store (s.add c)
  | .store s, .addDocument known document =>
      match s.addDocument known document with
      | .ok (_, s) => .store s
      | .error _ => .store s
  | .store s, .discard uri => .store (s.discard uri).2
  | .cached clock cache behind, .invalidate uri =>
      .cached clock (cache.invalidate uri).2 behind
  | .cached clock cache behind, .clear => .cached clock cache.clear behind
  | .cached clock cache behind, .behind u => .cached clock cache (behind.apply u)
  | k, .ask known note uri w => ((k.ask known note uri).run w).1.2
  | k, _ => k

/-- Every use keeps a stack faithful. -/
theorem Faithful.apply (h : k.Faithful) (u : Use ω) : (k.apply u).Faithful := by
  induction k generalizing u with
  | store s =>
      cases u with
      | add c => exact Store.Keeps.add h trivial
      | addDocument known document =>
          rw [Stack.apply, Store.addDocument]
          cases Capability.read known document with
          | ok c => exact Store.Keeps.add h trivial
          | error r => exact h
      | discard uri => exact Store.Keeps.discard h uri
      | ask known note uri w => exact (Faithful.ask h known note uri w).2
      | _ => exact h
  | remote room r client =>
      cases u with
      | ask known note uri w => exact (Faithful.ask h known note uri w).2
      | _ => exact h
  | cached clock cache behind ih =>
      obtain ⟨hnamed, hbehind⟩ := h
      cases u with
      | ask known note uri w =>
          have h : (Stack.cached clock cache behind).Faithful := ⟨hnamed, hbehind⟩
          exact (h.ask known note uri w).2
      | invalidate uri =>
          exact ⟨hnamed.invalidate uri, hbehind⟩
      | clear =>
          exact ⟨hnamed.clear, hbehind⟩
      | behind u => exact ⟨hnamed, ih hbehind u⟩
      | _ => exact ⟨hnamed, hbehind⟩

/-- The stacks that there can be: new ones, and what any use of them leaves.  A cache may be
put in front of a stack at any time. -/
inductive Reached : Stack ω τ → Prop
  | store (cs : List Capability) : Reached (.store (Store.ofList cs))
  | remote (room : Headroom) (r : Remote) (client : Remote.Client (StateM ω)) :
      Reached (.remote room r client)
  | cached {capacity : Nat} {lifetime : Option τ} {cache : CapabilityCache τ}
      {behind : Stack ω τ} (clock : StateM ω τ)
      (new : Cache.empty? (capacity : Int) lifetime = some cache) (reached : Reached behind) :
      Reached (.cached clock cache behind)
  | apply {k : Stack ω τ} (reached : Reached k) (u : Use ω) : Reached (k.apply u)

/-- **EVERY STACK THERE CAN BE IS FAITHFUL.** -/
theorem faithful_of_reached (h : Reached k) : k.Faithful := by
  induction h with
  | store cs => exact Store.keeps_ofList fun _ _ => trivial
  | remote room r client => trivial
  | @cached capacity lifetime cache behind clock new _ ih =>
      obtain ⟨-, -, -, hempty⟩ := Cache.empty?_eq_some new
      have hnamed : cache.Named := by
        rw [CapabilityCache.Named, hempty]
        exact nofun
      exact ⟨hnamed, ih⟩
  | apply _ u ih => exact ih.apply u

/-- The stack as the resolver of a verifier. -/
def resolver (known : Registry) (note : Log.Event → StateM ω Unit) :
    Resolver (StateM (Stack ω τ × ω)) := fun uri => do
  let (k, w) ← get
  let ((answer, k), w) := (k.ask known note uri).run w
  set (k, w)
  return answer

end Stack

/-! ## §6. The law. -/

namespace Stack

open Verification

variable {ω τ : Type} [Sub τ] [LE τ] [DecidableLE τ]

/-- **RESOLVERS ANSWER FOR THE NAME THEY ARE ASKED FOR.**  Whatever has been done with a
stack of resolvers, a capability that it answers with has the name that was asked for.
So the root of an accepted invocation, which every judgement about a root is about, has
the name of the capability itself if this has no chain, and otherwise the name that its
chain starts with. -/
theorem faithful_resolution_law {k : Stack ω τ} (hk : Reached k) (known : Registry)
    (note : Log.Event → StateM ω Unit) (w : ω) :
    (∀ uri c, ((k.ask known note uri).run w).1.1 = .ok c → c.id = uri) ∧
    ∀ (v : Verifier (StateM (Stack ω τ × ω))) (proof : Proof) (inv : Invocation),
      v.resolve = resolver known note → ((v.verify proof inv).run (k, w)).1 = .ok () →
      ∃ c root, proof.capability = some c ∧ RootedAt c root.id ∧
        ((k.ask known note root.id).run w).1.1 = .ok root ∧
        judge v.now c proof.action inv root = .ok () := by
  have hanswers : ∀ uri c, ((k.ask known note uri).run w).1.1 = .ok c → c.id = uri :=
    fun uri => ((faithful_of_reached hk).ask known note uri w).1
  refine ⟨hanswers, fun v proof inv hresolve h => ?_⟩
  rw [Verifier.run_verify] at h
  obtain ⟨c, uri, root, hc, huri, hroot, hjudge, -⟩ := Verifier.run_examine_eq_ok_iff.mp h
  -- The name that was asked for is the name of the answer.
  rw [hresolve] at hroot
  have hasked : ((k.ask known note uri).run w).1.1 = .ok root := hroot
  obtain rfl := hanswers uri root hasked
  exact ⟨c, root, hc, Verifier.rootedAt_of_judge huri hjudge, hasked, hjudge⟩

/-- Nothing is written down. -/
def unnoted : Log.Event → StateM Int Unit := fun _ => pure ()

/-- Two caches in front of a store with one root.  The world is the time that their clocks
show. -/
def twoCaches : Stack Int Int :=
  .cached get .roomForOne (.cached get .roomForOne
    (.store (Store.ofList [rootHeldBy "did:example:alice"])))

/-- The root was asked for at time zero, and then the store lost it. -/
def outlived : Stack Int Int :=
  (twoCaches.apply (.ask .builtIn unnoted "urn:zcap:root" 0)).apply
    (.behind (.behind (.discard "urn:zcap:root")))

/-- A verifier that asks a stack and demands nothing of proofs. -/
def askingCheck : Verifier (StateM (Stack Int Int × Int)) :=
  { known := .builtIn, resolve := resolver .builtIn unnoted, purposes := [], now := dawn,
    note := fun _ => pure () }

/-- At time five the outer cache still answers, for the name that it is asked for. -/
theorem outlived_root_named :
    Reached outlived ∧ askingCheck.resolve = resolver .builtIn unnoted ∧
    ((askingCheck.verify (submitted (rootHeldBy "did:example:alice"))
      (readBy "did:example:alice" "" "")).run (outlived, 5)).1 = .ok () ∧
    ∃ c root, (submitted (rootHeldBy "did:example:alice")).capability = some c ∧
      RootedAt c root.id ∧ ((outlived.ask .builtIn unnoted root.id).run 5).1.1 = .ok root ∧
      judge dawn c "read" (readBy "did:example:alice" "" "") root = .ok () := by
  have hreached : Reached outlived := by
    have hnew : Cache.empty? (1 : Nat) (some 10) = some CapabilityCache.roomForOne := rfl
    have hcaches : Reached twoCaches := .cached _ hnew (.cached _ hnew (.store _))
    exact .apply (.apply hcaches _) _
  have haccepts : ((askingCheck.verify (submitted (rootHeldBy "did:example:alice"))
      (readBy "did:example:alice" "" "")).run (outlived, 5)).1 = .ok () := by
    rw [Verifier.run_verify, Verifier.run_examine_eq_ok_iff]
    refine ⟨rootHeldBy "did:example:alice", "urn:zcap:root", rootHeldBy "did:example:alice", rfl,
      ?_, rfl, ?_, by decide, rfl⟩
    · exact anchor_eq_ok_iff.mpr ⟨by decide, rfl, (leadsTo_nil rfl).mpr rfl⟩
    · exact judge_eq_ok_iff.mpr ⟨by decide, .inl rfl, .of_free rfl rfl, by decide, .inl rfl⟩
  obtain ⟨-, hlaw⟩ := faithful_resolution_law hreached .builtIn unnoted 5
  exact ⟨hreached, rfl, haccepts, hlaw askingCheck _ _ rfl haccepts⟩

end Stack

end Mandate
