/-
  Mandate.Verification.Verdict
  ────────────────────────────────
  **VERDICTS AND THEIR RECORD.**

  A verdict says whether an invocation is authorized, and if not, by what
  fault.  Every verdict leaves one event for the audit: a denial at the level
  of general interest with the capability and the fault, an authorization at
  the level of details.
-/
import Mandate.Invocation.Basic
import Mandate.Log.Event

namespace Mandate.Verification

open Json (Value Fields)
open Time (Stamp)

/-- The outcome of a check. -/
structure Verdict where
  capability : Option Text
  action : Text
  checkedAt : Stamp
  /-- Why the invocation is not authorized; nothing if it is. -/
  fault : Option Fault

namespace Verdict

/-- The invocation is authorized. -/
def isValid (v : Verdict) : Bool := v.fault.isNone

/-- Go on with an authorized invocation only: what is not authorized ends in its fault. -/
def enforce (v : Verdict) : Except Failure Unit :=
  match v.fault with
  | some f => .error (.fault f)
  | none => .ok ()

/-- A verdict as it stands in reports. -/
def fields (v : Verdict) : Except Failure Fields := do
  return [("valid", .bool v.isValid),
    ("capability", .ofText? v.capability),
    ("action", .text v.action),
    ("checked_at", .text (← Document.timeText v.checkedAt)),
    ("error", match v.fault with
      | some f => f.toJson
      | none => .null)]

/-- A verdict as it stands in reports. -/
def toJson (v : Verdict) : Except Failure Value :=
  v.fields.map .object

end Verdict

/-- The logger of verdicts. -/
def logger : String := "zcapld.verifier"

/-- The name of the capability that a proof carries. -/
def capabilityName (proof : Proof) : Option Text :=
  proof.capability.map (·.id)

/-- The event of a denial. -/
def denialEvent (proof : Proof) (f : Fault) : Log.Event :=
  .info logger ("Capability invocation denied: " ++ f.message)
    (Table.putAll [("capability", .ofText? (capabilityName proof))] f.fields)

/-- The event of an authorization. -/
def grantEvent (c : Capability) (action : Text) : Log.Event :=
  .debug logger
    ("Capability invocation verified: " ++ c.id ++ " action=" ++ Text.quoted action)

/-- The event that an outcome leaves, if it is a verdict. -/
def event? (proof : Proof) : Except Failure Unit → Option Log.Event
  | .ok () => proof.capability.map fun c => grantEvent c proof.action
  | .error (.fault f) => some (denialEvent proof f)
  | .error _ => none

end Mandate.Verification
