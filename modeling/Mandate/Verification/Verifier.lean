/-
  Mandate.Verification.Verifier
  ────────────────────────────────
  **CHECKING AN INVOCATION.**

  A check has three phases: the chain, the invoker, and whatever purposes the
  proof has to meet besides.  It asks its resolver at most once, and the
  purposes in their order up to the first that is not met.  Everything else is
  a function of what it was given, so a verifier may work over any monad that
  its collaborators need.
-/
import Mandate.Verification.Chain
import Mandate.Verification.Verdict

namespace Mandate

open Time (Stamp)

/-- Finds the capability of a name. -/
abbrev Resolver (m : Type → Type) := Text → m (Except Failure Capability)

/-- A demand on the proof of an invocation. -/
abbrev Purpose (m : Type → Type) := Proof → Invocation → m (Except Failure Unit)

/-- What a check works with. -/
structure Verifier (m : Type → Type) where
  /-- The known types of caveats. -/
  known : Registry
  resolve : Resolver m
  purposes : List (Purpose m)
  now : Stamp
  /-- Takes down an event. -/
  note : Log.Event → m Unit

namespace Verification

/-! ## §1. The chain. -/

/-- A text in front of a denial; any other failure stays. -/
def leadWith (lead : Text) : Failure → Failure
  | .fault (.denial d) => .fault (.denial (d.wrap lead))
  | e => e

/-- Judge by the answer to the question for the root. -/
def judgeAnswer (now : Stamp) (c : Capability) (action : Text) (inv : Invocation)
    (uri : Text) : Except Failure Capability → Except Failure Unit
  | .error e => .error (.fault (.denial (.rootUnresolved uri e)))
  | .ok root => judge now c action inv root

/-! ## §2. The invoker. -/

/-- The signing method, or its controller, is one of the invokers. -/
def checkInvoker (c : Capability) (m : Method) : Except Failure Unit :=
  match c.invokerNames with
  | .error v => .error (.malformed (.invokersUnavailable c.id v))
  | .ok names =>
      if Capability.lists names m then .ok ()
      else .error (.denied (.unauthorized m.id m.controller (names.map .text)))

/-- The phases behind the question for the root. -/
def assess (now : Stamp) (c : Capability) (action : Text) (inv : Invocation) (uri : Text)
    (answer : Except Failure Capability) : Except Failure Unit := do
  (judgeAnswer now c action inv uri answer).mapError (leadWith chainLead)
  checkInvoker c inv.method

/-! ## §3. The purposes. -/

/-- The purposes one after the other, up to the first that is not met. -/
def meet {m : Type → Type} [Monad m] (proof : Proof) (inv : Invocation) :
    List (Purpose m) → m (Except Failure Unit)
  | [] => pure (.ok ())
  | p :: ps => do
      match ← p proof inv with
      | .error e => pure (.error e)
      | .ok () => meet proof inv ps

end Verification

namespace Verifier

open Verification

variable {m : Type → Type} [Monad m]

/-- The three phases, without the record. -/
def examine (v : Verifier m) (proof : Proof) (inv : Invocation) : m (Except Failure Unit) :=
  match proof.capability with
  | none => pure (.error (.denied .missingCapability))
  | some c =>
      match anchor v.known c proof.action inv with
      | .error d => pure (.error (.fault (.denial (d.wrap chainLead))))
      | .ok uri => do
          match assess v.now c proof.action inv uri (← v.resolve uri) with
          | .error e => pure (.error e)
          | .ok () => meet proof inv v.purposes

/-- Whether an invocation is authorized, with a record of the verdict. -/
def verify (v : Verifier m) (proof : Proof) (inv : Invocation) : m (Except Failure Unit) := do
  let outcome ← v.examine proof inv
  match event? proof outcome with
  | some e => v.note e
  | none => pure ()
  return outcome

/-- The verdict of an outcome; a failure other than a fault is none. -/
def verdict? (v : Verifier m) (proof : Proof) : Except Failure Unit → Except Failure Verdict
  | .ok () => .ok (of none)
  | .error (.fault f) => .ok (of (some f))
  | .error e => .error e
where
  of (fault : Option Fault) : Verdict :=
    { capability := capabilityName proof, action := proof.action, checkedAt := v.now, fault }

/-- The verdict on an invocation. -/
def check (v : Verifier m) (proof : Proof) (inv : Invocation) : m (Except Failure Verdict) := do
  return v.verdict? proof (← v.verify proof inv)

end Verifier

end Mandate
