/-
  Mandate.Proofs.Verification.Effects
  ────────────────────────────────
  **WHAT A CHECK ASKS OF OTHERS.**

  A check has two kinds of collaborators, a resolver and demands on proofs, and each of them
  may do anything to the world it lives in.  A recording verifier has the collaborators of
  another one and keeps a history of the calls to them.

      ask      — the resolver is called for a name
      demand   — the demand at a place of the list is looked at

  The history of a check starts empty and can only grow, so whatever is true of it is true of
  the order and the number of the calls.

  Main results:
    * `asksFor_iff`            — when the resolver is asked, and for what;
    * `run_meet_recording`     — the demands are looked at from the first on, up to the first
                                 that is not met;
    * `run_verify_recording`   — a history takes one of three courses, and keeping it changes
                                 nothing;
    * `effects_law`            — so the resolver is called once at most, and before every
                                 demand.
-/
import Mandate.Proofs.Capability.Reading
import Mandate.Proofs.Verification.Acceptance
import Mandate.Proofs.Verification.Stateful

namespace Mandate

/-! ## §1. When the resolver is asked. -/

namespace Verification

/-- The name that a check asks its resolver for: the capability is there, it permits the action,
which is the expected one, its chain has a supported shape, and the name is its own or, if it
has a chain, the one that starts the chain. -/
def AsksFor (known : Registry) (proof : Proof) (inv : Invocation) (uri : Text) : Prop :=
  ∃ c, proof.capability = some c ∧ c.Permits proof.action ∧ inv.action = proof.action ∧
    c.validateChain known = .ok () ∧
    ((c.chain = [] ∧ uri = c.id) ∨ ∃ rest, c.chain = .text uri :: rest)

variable {known : Registry} {proof : Proof} {inv : Invocation} {c : Capability} {uri : Text}

theorem leadsTo_iff :
    LeadsTo known c uri ↔ c.validateChain known = .ok () ∧
      ((c.chain = [] ∧ uri = c.id) ∨ ∃ rest, c.chain = .text uri :: rest) := by
  constructor
  · intro h
    have hchain := h.chain_eq
    obtain ⟨es, hes, hshape, -⟩ := h
    exact ⟨Capability.validateChain_eq_ok_iff.mpr ⟨es, hes, hshape⟩, hchain⟩
  · intro h
    obtain ⟨hvalid, hchain⟩ := h
    obtain ⟨es, hes, hshape⟩ := Capability.validateChain_eq_ok_iff.mp hvalid
    rcases hchain with ⟨hnil, huri⟩ | ⟨rest, hrest⟩
    · exact (leadsTo_nil hnil).mpr huri
    · refine ⟨es, hes, hshape, ?_⟩
      -- A text in front is read as the name of the root, whatever is behind it.
      unfold Capability.entries at hes
      rw [hrest, Capability.readEntries] at hes
      split at hes
      next => cases hes
      next =>
        cases hes
        rfl

theorem asksFor_iff :
    AsksFor known proof inv uri ↔
      ∃ c, proof.capability = some c ∧ anchor known c proof.action inv = .ok uri := by
  unfold AsksFor
  simp only [anchor_eq_ok_iff, leadsTo_iff]

/-- There is one name at most to ask for. -/
theorem AsksFor.eq {uri' : Text} (h : AsksFor known proof inv uri)
    (h' : AsksFor known proof inv uri') : uri = uri' := by
  obtain ⟨c, hc, huri⟩ := asksFor_iff.mp h
  obtain ⟨c', hc', huri'⟩ := asksFor_iff.mp h'
  cases hc.symm.trans hc'
  cases huri.symm.trans huri'
  rfl

end Verification

/-! ## §2. Histories. -/

/-- A call to a collaborator. -/
inductive Call where
  /-- The resolver is called for a name. -/
  | ask (uri : Text)
  /-- The demand at this place is looked at. -/
  | demand (place : Nat)
  deriving DecidableEq, Repr

namespace Call

/-- The name that the resolver is called for, if it is. -/
def uri? : Call → Option Text
  | .ask uri => some uri
  | .demand _ => none

/-- Looking at so many demands, from a place on, one after the other. -/
def demands (place n : Nat) : List Call := (List.range' place n).map .demand

theorem demands_succ (place n : Nat) :
    demands place (n + 1) = .demand place :: demands (place + 1) n := by
  unfold demands
  rw [List.range'_succ, List.map_cons]

theorem uri?_demands (place n : Nat) : (demands place n).filterMap (·.uri?) = [] := by
  rw [List.filterMap_eq_nil_iff]
  intro call hcall
  obtain ⟨i, -, hi⟩ := List.mem_map.mp hcall
  rw [← hi]
  rfl

end Call

/-- A world with a history of calls. -/
abbrev Witnessed (σ : Type) := StateM (σ × List Call)

variable {σ α : Type}

/-- A call, put down in the history. -/
def calling (call : Call) (x : StateM σ α) : Witnessed σ α :=
  fun s => ((x.run s.1).1, (x.run s.1).2, s.2 ++ [call])

/-- A step without a call. -/
def silently (x : StateM σ α) : Witnessed σ α :=
  fun s => ((x.run s.1).1, (x.run s.1).2, s.2)

/-- Demands whose calls are put down, the first of them at the given place. -/
def callingAll (place : Nat) : List (Purpose (StateM σ)) → List (Purpose (Witnessed σ))
  | [] => []
  | p :: ps =>
      (fun proof inv => calling (.demand place) (p proof inv)) :: callingAll (place + 1) ps

/-- The verifier with the same collaborators that keeps a history of the calls to them. -/
def Verifier.recording (v : Verifier (StateM σ)) : Verifier (Witnessed σ) where
  known := v.known
  resolve := fun uri => calling (.ask uri) (v.resolve uri)
  purposes := callingAll 0 v.purposes
  now := v.now
  note := fun e => silently (v.note e)

namespace Verification

variable {proof : Proof} {inv : Invocation}

/-! ## §3. The demands. -/

/-- Every demand is met in the state that the one before it has left. -/
inductive MetInTurn (proof : Proof) (inv : Invocation) : List (Purpose (StateM σ)) → σ → σ → Prop
  | nil (s : σ) : MetInTurn proof inv [] s s
  | cons {p : Purpose (StateM σ)} {ps : List (Purpose (StateM σ))} {s t u : σ}
      (hp : (p proof inv).run s = (.ok (), t)) (hps : MetInTurn proof inv ps t u) :
      MetInTurn proof inv (p :: ps) s u

/-- How far a list of demands is gone through, and with what outcome: to its end if every one
is met, and otherwise up to and with the first that is not, whose failure is the outcome. -/
inductive Pursued (proof : Proof) (inv : Invocation) :
    List (Purpose (StateM σ)) → σ → Except Failure Unit → Nat → Prop
  | met {ps : List (Purpose (StateM σ))} {s t : σ} (h : MetInTurn proof inv ps s t) :
      Pursued proof inv ps s (.ok ()) ps.length
  | unmet {before after : List (Purpose (StateM σ))} {p : Purpose (StateM σ)} {s t : σ}
      {e : Failure} (hbefore : MetInTurn proof inv before s t)
      (hp : ((p proof inv).run t).1 = .error e) :
      Pursued proof inv (before ++ p :: after) s (.error e) (before.length + 1)

theorem Pursued.cons {p : Purpose (StateM σ)} {ps : List (Purpose (StateM σ))} {s t : σ}
    {outcome : Except Failure Unit} {n : Nat} (hp : (p proof inv).run s = (.ok (), t))
    (h : Pursued proof inv ps t outcome n) :
    Pursued proof inv (p :: ps) s outcome (n + 1) := by
  cases h with
  | met hps => exact .met (.cons hp hps)
  | unmet hbefore hq => exact .unmet (.cons hp hbefore) hq

/-- The demands are looked at from the first on, up to the first that is not met, and keeping
a history changes nothing about them. -/
theorem run_meet_recording (ps : List (Purpose (StateM σ))) (place : Nat) (s : σ)
    (calls : List Call) :
    ∃ n, (meet proof inv (callingAll place ps)).run (s, calls)
        = (((meet proof inv ps).run s).1, ((meet proof inv ps).run s).2,
            calls ++ Call.demands place n) ∧
      Pursued proof inv ps s ((meet proof inv ps).run s).1 n := by
  -- With every demand that is met, the place goes up by one and the history grows by its call.
  induction ps generalizing place s calls with
  | nil =>
      refine ⟨0, ?_, .met (.nil s)⟩
      unfold Call.demands
      rw [List.range'_zero, List.map_nil, List.append_nil]
      rfl
  | cons p ps ih =>
      let q : Purpose (Witnessed σ) := fun proof inv => calling (.demand place) (p proof inv)
      have hq : (q proof inv).run (s, calls) = (((p proof inv).run s).1,
          ((p proof inv).run s).2, calls ++ [.demand place]) := rfl
      show ∃ n, (meet proof inv (q :: callingAll (place + 1) ps)).run (s, calls) = _ ∧ _
      cases hp : (p proof inv).run s with
      | mk result t =>
          rw [hp] at hq
          cases result with
          | error e =>
              refine ⟨1, ?_, ?_⟩
              · rw [run_meet_of_error hq, run_meet_of_error hp, Call.demands_succ]
                rfl
              · rw [run_meet_of_error hp]
                exact Pursued.unmet (.nil s) (congrArg Prod.fst hp)
          | ok u =>
              obtain ⟨n, hrun, hpursued⟩ := ih (place + 1) t (calls ++ [.demand place])
              refine ⟨n + 1, ?_, ?_⟩
              · rw [run_meet_of_ok hq, run_meet_of_ok hp, hrun, Call.demands_succ,
                  ← List.append_cons]
              · rw [run_meet_of_ok hp]
                exact hpursued.cons hp

/-! ## §4. A whole check. -/

/-- The courses that a check can take, with its outcome and the calls to its collaborators. -/
inductive Course (v : Verifier (StateM σ)) (proof : Proof) (inv : Invocation) (s : σ) :
    Except Failure Unit → List Call → Prop
  /-- There is no name to ask for, and the check fails without a call. -/
  | unasked (h : ∀ uri, ¬ AsksFor v.known proof inv uri) (e : Failure) :
      Course v proof inv s (.error e) []
  /-- The resolver is asked, and the chain or the signer is refused. -/
  | refused {c : Capability} {uri : Text} {e : Failure} (hc : proof.capability = some c)
      (h : AsksFor v.known proof inv uri)
      (hassess : assess v.now c proof.action inv uri ((v.resolve uri).run s).1 = .error e) :
      Course v proof inv s (.error e) [.ask uri]
  /-- The resolver is asked, chain and signer pass, and the demands are gone through. -/
  | pursued {c : Capability} {uri : Text} {outcome : Except Failure Unit} {n : Nat}
      (hc : proof.capability = some c) (h : AsksFor v.known proof inv uri)
      (hassess : assess v.now c proof.action inv uri ((v.resolve uri).run s).1 = .ok ())
      (hdemands : Pursued proof inv v.purposes ((v.resolve uri).run s).2 outcome n) :
      Course v proof inv s outcome (.ask uri :: Call.demands 0 n)

variable {v : Verifier (StateM σ)} {s : σ} {outcome : Except Failure Unit} {calls : List Call}

/-- The resolver is called for the name that there is to ask for, and for nothing else. -/
theorem Course.asked (h : Course v proof inv s outcome calls) :
    (calls.filterMap (·.uri?) = [] ∧ ∀ uri, ¬ AsksFor v.known proof inv uri) ∨
      ∃ uri, calls.filterMap (·.uri?) = [uri] ∧ AsksFor v.known proof inv uri := by
  cases h with
  | unasked hnone e => exact .inl ⟨rfl, hnone⟩
  | @refused c uri e hc hasks hassess => exact .inr ⟨uri, rfl, hasks⟩
  | @pursued c uri outcome n hc hasks hassess hdemands =>
      refine .inr ⟨uri, ?_, hasks⟩
      rw [List.filterMap_cons, Call.uri?_demands]
      rfl

/-- Where a demand is looked at, chain and signer have passed. -/
theorem Course.passed (h : Course v proof inv s outcome calls) {place : Nat}
    (hplace : .demand place ∈ calls) :
    ∃ c uri root, proof.capability = some c ∧ AsksFor v.known proof inv uri ∧
      ((v.resolve uri).run s).1 = .ok root ∧ judge v.now c proof.action inv root = .ok () ∧
      checkInvoker c inv.method = .ok () := by
  cases h with
  | unasked hnone e => cases hplace
  | refused hc hasks hassess =>
      rw [List.mem_singleton] at hplace
      cases hplace
  | @pursued c uri outcome n hc hasks hassess hdemands =>
      obtain ⟨root, hroot, hjudge, hsigner⟩ := assess_eq_ok_iff.mp hassess
      exact ⟨c, uri, root, hc, hasks, hroot, hjudge, checkInvoker_eq_ok_iff.mpr hsigner⟩

end Verification

namespace Verifier

open Verification

/-- Where there is no name to ask for, a check fails at once, whatever its collaborators are. -/
theorem exists_examine_eq_pure {known : Registry} {proof : Proof} {inv : Invocation}
    (hnone : ∀ uri, ¬ AsksFor known proof inv uri) :
    ∃ e, ∀ (m : Type → Type) [Monad m] (w : Verifier m), w.known = known →
      w.examine proof inv = pure (.error e) := by
  cases hc : proof.capability with
  | none =>
      refine ⟨.denied .missingCapability, fun m _ w hknown => ?_⟩
      unfold examine
      rw [hc]
  | some c =>
      cases huri : anchor known c proof.action inv with
      | error d =>
          refine ⟨.fault (.denial (d.wrap chainLead)), fun m _ w hknown => ?_⟩
          unfold examine
          simp only [hc, hknown, huri]
      | ok uri => exact absurd (asksFor_iff.mpr ⟨c, hc, huri⟩) (hnone uri)

theorem run_examine_recording (v : Verifier (StateM σ)) (proof : Proof) (inv : Invocation)
    (s : σ) :
    ∃ calls, (v.recording.examine proof inv).run (s, [])
        = (((v.examine proof inv).run s).1, ((v.examine proof inv).run s).2, calls) ∧
      Course v proof inv s ((v.examine proof inv).run s).1 calls := by
  by_cases hnone : ∀ uri, ¬ AsksFor v.known proof inv uri
  · obtain ⟨e, he⟩ := exists_examine_eq_pure hnone
    rw [he _ v rfl, he _ v.recording rfl]
    exact ⟨[], rfl, .unasked hnone e⟩
  · obtain ⟨uri, hasks⟩ := not_forall_not.mp hnone
    obtain ⟨c, hc, huri⟩ := asksFor_iff.mp hasks
    -- Both verifiers judge by the same answer, and the one puts the call down.
    have huri' : anchor v.recording.known c proof.action inv = .ok uri := huri
    cases hassess : assess v.now c proof.action inv uri ((v.resolve uri).run s).1 with
    | error e =>
        have hassess' : assess v.recording.now c proof.action inv uri
            ((v.recording.resolve uri).run (s, [])).1 = .error e := hassess
        rw [run_examine_of_refused hc huri hassess, run_examine_of_refused hc huri' hassess']
        exact ⟨[.ask uri], rfl, .refused hc hasks hassess⟩
    | ok u =>
        have hassess' : assess v.recording.now c proof.action inv uri
            ((v.recording.resolve uri).run (s, [])).1 = .ok () := hassess
        rw [run_examine_of_passed hc huri hassess, run_examine_of_passed hc huri' hassess']
        obtain ⟨n, hrun, hpursued⟩ :=
          run_meet_recording v.purposes 0 ((v.resolve uri).run s).2 [.ask uri]
        exact ⟨.ask uri :: Call.demands 0 n, hrun, .pursued hc hasks hassess hpursued⟩

/-- A check takes one of the courses, and keeping a history changes neither its outcome nor
the world that it leaves. -/
theorem run_verify_recording (v : Verifier (StateM σ)) (proof : Proof) (inv : Invocation)
    (s : σ) :
    ∃ calls, (v.recording.verify proof inv).run (s, [])
        = (((v.verify proof inv).run s).1, ((v.verify proof inv).run s).2, calls) ∧
      Course v proof inv s ((v.verify proof inv).run s).1 calls := by
  obtain ⟨calls, hrun, hcourse⟩ := run_examine_recording v proof inv s
  refine ⟨calls, ?_, run_verify ▸ hcourse⟩
  unfold verify
  rw [run_bind, run_bind, hrun]
  cases event? proof ((v.examine proof inv).run s).1 <;> rfl

/-- **WHAT A CHECK ASKS OF OTHERS.**  Whatever the resolver and the demands do, and in whatever
state, the history of a check that keeps one is that of a check that keeps none: the outcome is
the same and the world is left the same.  The resolver is called once at most, and it is called
for a name exactly if the capability is there, its own actions and the expected one pass, its
chain has a supported shape, and the name is the capability's own or starts the chain.  A demand
is looked at only where the chain and the signer have passed, and then the demands are gone
through in their order, each of them once at most, up to the first that is not met, whose
failure is the outcome. -/
theorem effects_law (v : Verifier (StateM σ)) (proof : Proof) (inv : Invocation) (s : σ) :
    ∃ calls, (v.recording.verify proof inv).run (s, [])
        = (((v.verify proof inv).run s).1, ((v.verify proof inv).run s).2, calls) ∧
      Course v proof inv s ((v.verify proof inv).run s).1 calls ∧
      (calls.filterMap (·.uri?)).length ≤ 1 ∧
      (∀ uri, calls.filterMap (·.uri?) = [uri] ↔ AsksFor v.known proof inv uri) ∧
      (∀ place, .demand place ∈ calls →
        ∃ c uri root, proof.capability = some c ∧ AsksFor v.known proof inv uri ∧
          ((v.resolve uri).run s).1 = .ok root ∧ judge v.now c proof.action inv root = .ok () ∧
          checkInvoker c inv.method = .ok ()) := by
  obtain ⟨calls, hrun, hcourse⟩ := run_verify_recording v proof inv s
  refine ⟨calls, hrun, hcourse, ?_, fun uri => ?_, fun place hplace => hcourse.passed hplace⟩
  · rcases hcourse.asked with ⟨hnil, -⟩ | ⟨uri, hone, -⟩
    · rw [hnil]
      exact Nat.zero_le 1
    · rw [hone]
      exact Nat.le_refl 1
  · rcases hcourse.asked with ⟨hnil, hnone⟩ | ⟨uri', hone, hasks⟩
    · rw [hnil]
      exact ⟨nofun, fun h => absurd h (hnone uri)⟩
    · rw [hone]
      constructor
      · intro h
        cases h
        exact hasks
      · intro h
        rw [h.eq hasks]

/-- A verifier in a world that counts the calls of a resolver that never finds anything.  It has
a demand that every proof meets. -/
def stranded : Verifier (StateM Nat) where
  known := .builtIn
  resolve := fun uri => fun calls => (.error (.denied (.capabilityUnknown uri)), calls + 1)
  purposes := [fun _ _ => pure (.ok ())]
  now := dawn
  note := fun _ => pure ()

/-- The resolver is asked for the root, once, and the demand is not looked at. -/
theorem stranded_asks_once :
    ∃ calls, (stranded.recording.verify (submitted (rootHeldBy "did:example:alice"))
        (readBy "did:example:alice" "" "")).run (0, []) =
          (((stranded.verify (submitted (rootHeldBy "did:example:alice"))
            (readBy "did:example:alice" "" "")).run 0).1,
          ((stranded.verify (submitted (rootHeldBy "did:example:alice"))
            (readBy "did:example:alice" "" "")).run 0).2, calls) ∧
      calls.filterMap (·.uri?) = [.plain "urn:zcap:root"] ∧ ∀ place, .demand place ∉ calls := by
  obtain ⟨calls, hrun, -, -, hasked, hpassed⟩ := effects_law stranded
    (submitted (rootHeldBy "did:example:alice")) (readBy "did:example:alice" "" "") 0
  refine ⟨calls, hrun, (hasked _).mpr ?_, fun place hplace => ?_⟩
  · exact ⟨_, rfl, by decide, rfl, Capability.validateChain_of_root rfl, .inl ⟨rfl, rfl⟩⟩
  · -- A demand would only be looked at behind an answer of the resolver.
    obtain ⟨c, uri, root, -, -, hroot, -⟩ := hpassed place hplace
    cases hroot

end Verifier

end Mandate
