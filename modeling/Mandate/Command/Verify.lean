/-
  Mandate.Command.Verify
  ────────────────────────────────
  **VERIFYING ON THE COMMAND LINE.**

  The invoked capability comes from a file.  It is at hand itself, and so are
  the capabilities of the store, each of which takes the place of an earlier one
  of its name — of the invoked one, too.
-/
import Mandate.Command.Report
import Mandate.Command.Task
import Mandate.Resolver.Store

namespace Mandate.Command

open Json (Value)
open Verification (Verdict)

/-! ## §1. What is at hand. -/

/-- The invoked capability and everything at hand. -/
structure Case where
  capability : Capability
  store : Store

/-- A store with the capabilities that documents become, one after the other. -/
def takeUp (room : Headroom) (s : Store) : List Value → Except NotTaken Store
  | [] => .ok s
  | d :: ds =>
      match Capability.take room .builtIn d with
      | .error e => .error e
      | .ok c => takeUp room (s.add c) ds

/-- A capability among those of further documents. -/
def Case.of (room : Headroom) (c : Capability) (more : List Value) : Except NotTaken Case :=
  (takeUp room (Store.ofList [c]) more).map (.mk c)

/-- Why there is no case. -/
inductive CaseFault where
  | load (fault : LoadFault)
  | taken (fault : NotTaken)

variable {m : Type → Type} [Monad m]

/-- The case in the files of a task.  The capability is looked at before any
file of the store is read. -/
def loadCase (room : Headroom) (files : Files.Access m) (t : VerifyTask) :
    m (Except CaseFault Case) := do
  match ← loadValue room.brackets files (Files.Path.parse t.capability) with
  | .error f => return .error (.load f)
  | .ok document =>
      match Capability.take room .builtIn document with
      | .error e => return .error (.taken e)
      | .ok c =>
          match ← loadDocuments room.brackets files t.store with
          | .error f => return .error (.load f)
          | .ok more => return (Case.of room c more).mapError .taken

/-! ## §2. What is asked. -/

/-- What is submitted. -/
def Case.proof (c : Case) (t : VerifyTask) : Proof :=
  { capability := some c.capability, action := t.action, method := t.method, created := none }

/-- What is expected. -/
def VerifyTask.invocation (t : VerifyTask) : Invocation :=
  { action := t.expectedAction.getD t.action
    method := { id := t.method, controller := t.controller, type := "" }
    target := t.expectedTarget
    root := t.expectedRoot }

/-! ## §3. What is answered. -/

/-- A verdict as an object, with the identifier of the check. -/
def jsonAnswer (v : Verdict) (id : Text) : Except Failure String := do
  return (Value.object (Table.put (← v.fields) "correlation_id" (.text id))).indented

/-- A verdict as a line. -/
def lineAnswer (c : Case) (t : VerifyTask) (v : Verdict) : Text :=
  match v.fault with
  | none =>
      "OK: " ++ c.capability.id ++ " authorizes " ++ Text.quoted t.action ++ " for " ++ t.method
  | some f => "DENIED: " ++ f.message

/-- The status of a verdict. -/
def statusOf (v : Verdict) : Status :=
  if v.isValid then .ok else .denied

/-- The report of a verdict. -/
def verdictReport (c : Case) (t : VerifyTask) (id : Text) (v : Verdict) :
    Except Failure Report := do
  if t.json then return .line (statusOf v) (← jsonAnswer v id)
  else return .line (statusOf v) (lineAnswer c t v)

/-! ## §4. The command. -/

/-- The event of a store that is at hand. -/
def loadedEvent (store : Store) : Log.Event :=
  .debug "zcapld.cli" ("Loaded " ++ toString store.size ++ " capabilities")

/-- The verifier of a case. -/
def Case.verifier (c : Case) (now : Time.Stamp) (note : Log.Event → m Unit) : Verifier m :=
  { known := .builtIn, resolve := fun uri => pure (c.store.resolve uri), purposes := [], now, note }

/-- Verify the invocation of a case. -/
def checkCase (h : Host m) (setup : Log.Setup) (c : Case) (t : VerifyTask) :
    m (Except Halt Report) := do
  h.note setup none (loadedEvent c.store)
  let id ← h.freshId
  let verifier := c.verifier (← h.now) (h.note setup (some id))
  match ← verifier.check (c.proof t) t.invocation with
  | .error e => return .error (.failure e)
  | .ok v => return (verdictReport c t id v).mapError .failure >>= Report.deliver h

/-- Verify an invocation of a capability. -/
def verify (h : Host m) (setup : Log.Setup) (t : VerifyTask) : m (Except Halt Report) := do
  match ← loadCase h.headroom h.files t with
  | .error (.load f) => return Report.unreadable "capability documents" f
  | .error (.taken (.refused r)) => return .ok (.invalid r.message)
  | .error (.taken .exhausted) => return .error (.failure .exhausted)
  | .ok c => checkCase h setup c t

end Mandate.Command
