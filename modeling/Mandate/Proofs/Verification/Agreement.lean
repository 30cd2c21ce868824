/-
  Mandate.Proofs.Verification.Agreement
  ────────────────────────────────
  **VERDICT, FAULT AND RECORD AGREE.**

  A denial shows in three places: verifying ends in a fault, a check gives a verdict with
  it, and an event tells of it.  They say the same, whatever else is written into the log on
  the way, and however the time goes on while a check is made.

      record   — the events of a log under the name of the verifier
      checkBy  — a check that reads a clock each time that it needs the time

  Main results:
    * `checkBy_pure`         — with a clock that stands still this is a plain check;
    * `Discreet.examineBy`   — up to its outcome, a check leaves the record as it is;
    * `record_checkBy`       — behind it there is the event of the outcome, if it has one;
    * `agreement_law`        — so a verdict comes with exactly one event, which agrees with
                               it and with the outcome of verifying.
-/
import Mandate.Proofs.Verification.Acceptance
import Mandate.Proofs.Verification.Stateful
import Mandate.Proofs.Verification.Verdicts

namespace Mandate

open Json (Value Fields)
open Time (Stamp)

/-! ## §1. A clock that goes on. -/

namespace Verification

/-- What the answer to the question for the root is held to before the time is. -/
def beforeTime (action : Text) (inv : Invocation) (uri : Text) :
    Except Failure Capability → Except Failure Unit
  | .error e => .error (.fault (.denial (.rootUnresolved uri e)))
  | .ok root =>
      if root.excludes action then
        .error (.denied (.actionNotAllowedByRoot action root.allowedAction root.id))
      else checkTarget root inv

/-- What is refused before the time is looked at is refused at any time. -/
theorem assess_of_beforeTime {action uri : Text} {inv : Invocation}
    {answer : Except Failure Capability} {e : Failure}
    (h : beforeTime action inv uri answer = .error e) (now : Stamp) (c : Capability) :
    assess now c action inv uri answer = .error (leadWith chainLead e) := by
  have hjudge : judgeAnswer now c action inv uri answer = .error e := by
    cases answer with
    | error e' => exact h
    | ok root =>
        show judge now c action inv root = .error e
        simp only [beforeTime] at h
        unfold judge
        cases hexcludes : root.excludes action with
        | true =>
            rw [if_pos hexcludes] at h
            exact h
        | false =>
            rw [if_neg (by simp [hexcludes])] at h
            rw [if_neg Bool.false_ne_true, h]
            rfl
  unfold assess
  rw [hjudge]
  rfl

end Verification

namespace Verifier

open Verification

variable {m : Type → Type} [Monad m]

/-- The three phases with a clock.  It is read when the answer of the resolver is there and
the root passes in all that needs no time. -/
def examineBy (v : Verifier m) (clock : m Stamp) (proof : Proof) (inv : Invocation) :
    m (Except Failure Unit) :=
  match proof.capability with
  | none => pure (.error (.denied .missingCapability))
  | some c =>
      match anchor v.known c proof.action inv with
      | .error d => pure (.error (.fault (.denial (d.wrap chainLead))))
      | .ok uri => do
          let answer ← v.resolve uri
          match beforeTime proof.action inv uri answer with
          | .error e => pure (.error (leadWith chainLead e))
          | .ok () => do
              match assess (← clock) c proof.action inv uri answer with
              | .error e => pure (.error e)
              | .ok () => meet proof inv v.purposes

/-- Whether an invocation is authorized by the time of a clock, with a record. -/
def verifyBy (v : Verifier m) (clock : m Stamp) (proof : Proof) (inv : Invocation) :
    m (Except Failure Unit) := do
  let outcome ← v.examineBy clock proof inv
  match event? proof outcome with
  | some e => v.note e
  | none => pure ()
  return outcome

/-- The verdict on an invocation, with the time that the clock shows by then. -/
def checkBy (v : Verifier m) (clock : m Stamp) (proof : Proof) (inv : Invocation) :
    m (Except Failure Verdict) := do
  let outcome ← v.verifyBy clock proof inv
  let now ← clock
  return { v with now }.verdict? proof outcome

section Still

variable [LawfulMonad m] (v : Verifier m) (proof : Proof) (inv : Invocation)

theorem examineBy_pure : v.examineBy (pure v.now) proof inv = v.examine proof inv := by
  unfold examineBy examine
  cases proof.capability with
  | none => rfl
  | some c =>
      simp only [pure_bind]
      cases anchor v.known c proof.action inv with
      | error d => rfl
      | ok uri =>
          refine bind_congr fun answer => ?_
          cases hbefore : beforeTime proof.action inv uri answer with
          | error e => rw [assess_of_beforeTime hbefore]
          | ok u => rfl

theorem verifyBy_pure : v.verifyBy (pure v.now) proof inv = v.verify proof inv := by
  unfold verifyBy verify
  exact congrArg (· >>= _) (examineBy_pure v proof inv)

/-- With a clock that stands still, a check by the clock is a plain one. -/
theorem checkBy_pure : v.checkBy (pure v.now) proof inv = v.check proof inv := by
  unfold checkBy check
  simp only [verifyBy_pure, pure_bind]

end Still

end Verifier

/-! ## §2. Logs and the record in them. -/

/-- A world with a log of events. -/
abbrev Logged (σ : Type) := StateM (σ × List Log.Event)

variable {σ α β : Type}

/-- Take an event down behind the others. -/
def noting (e : Log.Event) : Logged σ Unit := fun w => ((), w.1, w.2 ++ [e])

namespace Verification

/-- The events of a log under the name of the verifier. -/
def record (log : List Log.Event) : List Log.Event := log.filter fun e => e.logger == logger

/-- A step that may write into the log, but not under the name of the verifier. -/
def Discreet (x : Logged σ α) : Prop := ∀ w, record (x.run w).2.2 = record w.2

theorem Discreet.pure (a : α) : Discreet (pure a : Logged σ α) := fun _ => rfl

theorem Discreet.bind {x : Logged σ α} {f : α → Logged σ β} (hx : Discreet x)
    (hf : ∀ a, Discreet (f a)) : Discreet (x >>= f) := by
  intro w
  rw [run_bind, hf, hx]

theorem Discreet.meet {proof : Proof} {inv : Invocation} {ps : List (Purpose (Logged σ))}
    (h : ∀ p ∈ ps, Discreet (p proof inv)) : Discreet (meet proof inv ps) := by
  induction ps with
  | nil => exact .pure _
  | cons p ps ih =>
      obtain ⟨hp, hps⟩ := List.forall_mem_cons.mp h
      refine hp.bind fun result => ?_
      cases result with
      | error e => exact .pure _
      | ok u => exact ih hps

/-- Every event of an outcome is one of the record. -/
theorem logger_event? {proof : Proof} {outcome : Except Failure Unit} {e : Log.Event}
    (h : event? proof outcome = some e) : e.logger = logger := by
  unfold event? at h
  split at h
  next =>
    obtain ⟨c, -, hc⟩ := Option.map_eq_some_iff.mp h
    rw [← hc]
    rfl
  next =>
    cases h
    rfl
  next => cases h

theorem record_append_event? {proof : Proof} {outcome : Except Failure Unit}
    (log : List Log.Event) :
    record (log ++ (event? proof outcome).toList)
      = record log ++ (event? proof outcome).toList := by
  unfold record
  rw [List.filter_append]
  congr 1
  rw [List.filter_eq_self]
  intro e he
  simpa using logger_event? (Option.mem_toList.mp he)

end Verification

/-! ## §3. One event for one outcome. -/

namespace Verifier

open Verification

/-- The events of a verifier go into the log, and it is the only one that writes there under
its name. -/
structure WritesAlone (v : Verifier (Logged σ)) (clock : Logged σ Stamp) : Prop where
  note : v.note = noting
  resolve : ∀ uri, Discreet (v.resolve uri)
  purposes : ∀ p ∈ v.purposes, ∀ proof inv, Discreet (p proof inv)
  clock : Discreet clock

variable {v : Verifier (Logged σ)} {clock : Logged σ Stamp} {proof : Proof} {inv : Invocation}

/-- Up to its outcome, a check leaves the record as it is. -/
theorem WritesAlone.examineBy (h : v.WritesAlone clock) :
    Discreet (v.examineBy clock proof inv) := by
  unfold Verifier.examineBy
  cases proof.capability with
  | none => exact .pure _
  | some c =>
      simp only
      cases anchor v.known c proof.action inv with
      | error d => exact .pure _
      | ok uri =>
          refine (h.resolve uri).bind fun answer => ?_
          cases beforeTime proof.action inv uri answer with
          | error e => exact .pure _
          | ok u =>
              refine h.clock.bind fun now => ?_
              cases assess now c proof.action inv uri answer with
              | error e => exact .pure _
              | ok u => exact .meet fun p hp => h.purposes p hp proof inv

theorem exists_capability_of_examineBy {w : σ × List Log.Event}
    (h : ((v.examineBy clock proof inv).run w).1 = .ok ()) : ∃ c, proof.capability = some c := by
  unfold examineBy at h
  split at h
  next => cases h
  next c hc => exact ⟨c, hc⟩

/-- Verifying ends as the three phases do and takes down the event of the outcome. -/
theorem WritesAlone.run_verifyBy_eq (h : v.WritesAlone clock) {w u : σ × List Log.Event}
    {outcome : Except Failure Unit} (hrun : (v.examineBy clock proof inv).run w = (outcome, u)) :
    (v.verifyBy clock proof inv).run w
      = (outcome, u.1, u.2 ++ (event? proof outcome).toList) := by
  unfold verifyBy
  rw [run_bind, hrun, h.note]
  cases event? proof outcome with
  | none =>
      rw [Option.toList_none, List.append_nil]
      rfl
  | some e => rfl

/-- Verifying ends as the three phases do, with the event of the outcome in the record. -/
theorem WritesAlone.run_verifyBy (h : v.WritesAlone clock) (w : σ × List Log.Event) :
    ((v.verifyBy clock proof inv).run w).1 = ((v.examineBy clock proof inv).run w).1 ∧
    record ((v.verifyBy clock proof inv).run w).2.2
      = record w.2 ++ (event? proof ((v.verifyBy clock proof inv).run w).1).toList := by
  have hquiet : record ((v.examineBy clock proof inv).run w).2.2 = record w.2 := h.examineBy w
  rw [h.run_verifyBy_eq (Prod.eta _).symm, ← hquiet]
  exact ⟨rfl, record_append_event? _⟩

/-- A check gives the verdict of the outcome, with the time that the clock shows by then. -/
theorem run_checkBy (v : Verifier (Logged σ)) (clock : Logged σ Stamp) (proof : Proof)
    (inv : Invocation) (w : σ × List Log.Event) :
    ((v.checkBy clock proof inv).run w).1 =
      { v with now := (clock.run ((v.verifyBy clock proof inv).run w).2).1 }.verdict? proof
        ((v.verifyBy clock proof inv).run w).1 := rfl

/-- Behind a check the event of the outcome is in the record. -/
theorem WritesAlone.record_checkBy (h : v.WritesAlone clock) (proof : Proof) (inv : Invocation)
    (w : σ × List Log.Event) :
    record ((v.checkBy clock proof inv).run w).2.2
      = record w.2 ++ (event? proof ((v.verifyBy clock proof inv).run w).1).toList := by
  rw [← (h.run_verifyBy w).2]
  exact h.clock _

/-! ## §4. Agreement. -/

/-- An authorization: the verdict has no fault, it lets the caller go on, verifying ends well,
and the event is one for those who look into details. -/
structure Granted (verdict : Verdict) (outcome : Except Failure Unit) (event : Log.Event) :
    Prop where
  valid : verdict.isValid = true
  enforced : verdict.enforce = .ok ()
  verified : outcome = .ok ()
  level : event.level = .debug

/-- A denial by a fault: the verdict stops the caller with it, verifying ends in it, and the
event tells of it with the data of the report on the verdict. -/
structure Refused (f : Fault) (verdict : Verdict) (outcome : Except Failure Unit)
    (event : Log.Event) : Prop where
  invalid : verdict.isValid = false
  enforced : verdict.enforce = .error (.fault f)
  verified : outcome = .error (.fault f)
  level : event.level = .info
  message : event.message = "Capability invocation denied: " ++ f.message
  extra : event.extra = some (.object [("capability", .ofText? verdict.capability),
    ("error", .text f.kind.name), ("message", .text f.message), ("details", .object f.details)])
  reported : ∀ report, verdict.fields = .ok report →
    report.lookup (.plain "capability") = some (.ofText? verdict.capability) ∧
    report.lookup (.plain "error") = some (.object [("error", .text f.kind.name),
      ("message", .text f.message), ("details", .object f.details)])

/-- A report on a verdict tells the capability and the fault. -/
theorem lookup_report {verdict : Verdict} {f : Fault} (hfault : verdict.fault = some f)
    {report : Fields} (h : verdict.fields = .ok report) :
    report.lookup (.plain "capability") = some (.ofText? verdict.capability) ∧
      report.lookup (.plain "error") = some f.toJson := by
  unfold Verdict.fields at h
  obtain ⟨t, -, ht⟩ := Capability.bind_eq_ok.mp h
  cases ht
  rw [hfault]
  exact ⟨rfl, rfl⟩

/-- **VERDICT, FAULT AND RECORD AGREE.**  For a verifier that is the only one to write under its
name, with a clock that may go on:  Whenever a check gives a verdict, there is exactly one new
event in the record.  Without a fault the verdict is an authorization for all of them, and with
one it is a denial by just this fault, which stands in the event as it stands in the report.
Where a check fails otherwise, verifying fails in the same way, and there is no new event in the
record.  A plain check is one whose clock stands still. -/
theorem agreement_law (v : Verifier (Logged σ)) (clock : Logged σ Stamp)
    (h : v.WritesAlone clock) (proof : Proof) (inv : Invocation) (w : σ × List Log.Event) :
    (∀ verdict, ((v.checkBy clock proof inv).run w).1 = .ok verdict →
      ∃ event, record ((v.checkBy clock proof inv).run w).2.2 = record w.2 ++ [event] ∧
        verdict.capability = capabilityName proof ∧ verdict.action = proof.action ∧
        verdict.checkedAt = (clock.run ((v.verifyBy clock proof inv).run w).2).1 ∧
        match verdict.fault with
        | none => Granted verdict ((v.verifyBy clock proof inv).run w).1 event
        | some f => Refused f verdict ((v.verifyBy clock proof inv).run w).1 event) ∧
    (∀ e, ((v.checkBy clock proof inv).run w).1 = .error e →
      record ((v.checkBy clock proof inv).run w).2.2 = record w.2 ∧
        ((v.verifyBy clock proof inv).run w).1 = .error e ∧ ∀ f, e ≠ .fault f) ∧
    v.verifyBy (pure v.now) proof inv = v.verify proof inv ∧
    v.checkBy (pure v.now) proof inv = v.check proof inv := by
  have hverdict := run_checkBy v clock proof inv w
  have hrecord := h.record_checkBy proof inv w
  refine ⟨?_, ?_, v.verifyBy_pure proof inv, v.checkBy_pure proof inv⟩
  · intro verdict hcheck
    rw [hcheck] at hverdict
    cases houtcome : ((v.verifyBy clock proof inv).run w).1 with
    | ok u =>
        rw [houtcome] at hverdict hrecord
        cases hverdict
        obtain ⟨c, hc⟩ := exists_capability_of_examineBy
          ((h.run_verifyBy w).1.symm.trans houtcome)
        refine ⟨grantEvent c proof.action, ?_, rfl, rfl, rfl, rfl, rfl, rfl, rfl⟩
        rw [hrecord, event?, hc]
        rfl
    | error e =>
        rw [houtcome] at hverdict hrecord
        cases e with
        | fault f =>
            cases hverdict
            refine ⟨denialEvent proof f, hrecord, rfl, rfl, rfl, ?_⟩
            exact ⟨rfl, rfl, rfl, rfl, rfl, rfl, fun report hreport => lookup_report rfl hreport⟩
        | _ => cases hverdict
  · intro e hcheck
    rw [hcheck] at hverdict
    cases houtcome : ((v.verifyBy clock proof inv).run w).1 with
    | ok u =>
        rw [houtcome] at hverdict
        cases hverdict
    | error e' =>
        rw [houtcome] at hverdict hrecord
        cases e' with
        | fault f => cases hverdict
        | _ =>
            cases hverdict
            exact ⟨hrecord.trans (List.append_nil _), rfl, by simp⟩

/-- A clock that shows the first moment of year one when it is read first, and from then on a
noon in June of 2026.  Its world counts the readings. -/
def leaping : Logged Nat Stamp :=
  fun w => (if w.1 = 0 then dawn else juneNoon, w.1 + 1, w.2)

/-- A verifier with one root at hand, whose resolver writes an event of its own into the log. -/
def chatty : Verifier (Logged Nat) where
  known := .builtIn
  resolve := fun uri => do
    noting (.debug "zcapld.resolver" ("looking up " ++ uri))
    return (Store.ofList [rootHeldBy "did:example:alice"]).resolve uri
  purposes := []
  now := dawn
  note := noting

/-- A stranger's signature is refused, by the time of the second reading, and of the two
events in the log one is the record of it. -/
theorem stranger_recorded_once :
    chatty.WritesAlone leaping ∧
    ∃ verdict event f,
      ((chatty.checkBy leaping (submitted (rootHeldBy "did:example:alice"))
        (readBy "did:example:mallory" "" "")).run (0, [])).1 = .ok verdict ∧
      verdict.checkedAt = juneNoon ∧
      record ((chatty.checkBy leaping (submitted (rootHeldBy "did:example:alice"))
        (readBy "did:example:mallory" "" "")).run (0, [])).2.2 = [event] ∧
      verdict.fault = some f ∧ f.kind = .invokerUnauthorized ∧
      Refused f verdict ((chatty.verifyBy leaping (submitted (rootHeldBy "did:example:alice"))
        (readBy "did:example:mallory" "" "")).run (0, [])).1 event := by
  have halone : chatty.WritesAlone leaping := by
    refine ⟨rfl, fun uri => ?_, nofun, fun w => rfl⟩
    refine Discreet.bind (fun w => ?_) fun u => .pure _
    show record (w.2 ++ [_]) = record w.2
    rw [record, List.filter_append]
    exact List.append_nil _
  let f : Fault :=
    .denial (.plain (.unauthorized "did:example:mallory" "" [.text "did:example:alice"]))
  have hexamine : (chatty.examineBy leaping (submitted (rootHeldBy "did:example:alice"))
      (readBy "did:example:mallory" "" "")).run (0, []) = (.error (.fault f),
        (1, [.debug "zcapld.resolver" "looking up urn:zcap:root"])) := by
    have hanchor : anchor chatty.known (rootHeldBy "did:example:alice") "read"
        (readBy "did:example:mallory" "" "") = .ok "urn:zcap:root" :=
      anchor_eq_ok_iff.mpr ⟨by decide, rfl, (leadsTo_nil rfl).mpr rfl⟩
    simp only [examineBy, submitted, hanchor]
    rfl
  have hcheck : ((chatty.checkBy leaping (submitted (rootHeldBy "did:example:alice"))
      (readBy "did:example:mallory" "" "")).run (0, [])).1
        = .ok ⟨"urn:zcap:root", "read", juneNoon, some f⟩ := by
    rw [run_checkBy, halone.run_verifyBy_eq hexamine]
    rfl
  obtain ⟨hagree, -⟩ := agreement_law chatty leaping halone
    (submitted (rootHeldBy "did:example:alice")) (readBy "did:example:mallory" "" "") (0, [])
  obtain ⟨event, hrecord, -, -, -, hrefused⟩ := hagree _ hcheck
  exact ⟨halone, _, event, f, hcheck, rfl, hrecord, rfl, rfl, hrefused⟩

end Verifier

end Mandate
