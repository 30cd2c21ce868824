/-
  Mandate.Fault.Format
  ────────────────────────────────
  **MALFORMED DOCUMENTS.**

  Every way in which a document or one of its fields can be malformed is a
  constructor of its own.  What is reported follows from it: a message, the
  field at fault and the value found there.
-/
import Mandate.Json.Literal

namespace Mandate

open Json (Value Fields)

/-- What is wrong with a document or one of its fields. -/
inductive FormatFault where
  /-- A text that is no time. -/
  | timeUnreadable (field : String) (value : Value)
  /-- A time that is not a text. -/
  | timeNotText (field : String) (value : Value)
  /-- A list of names with a member that is not a text. -/
  | entryNotText (field : String) (value : Value)
  /-- Neither a name nor a list of names. -/
  | notNames (field : String) (value : Value)
  | target (value : Value)
  | documentNotObject (value : Value)
  | capabilityId (value : Value)
  | parent (value : Value)
  | caveatList (value : Value)
  | proofList
  /-- An invoker that is not a non-empty text. -/
  | invoker (capability : Text) (value : Value)
  | methodId (value : Value)
  | methodController (value : Value)
  | caveatNotObject (value : Value)
  | caveatType (value : Value)
  | caveatExpires
  | caveatActions
  | caveatTarget (value : Value)
  | controllerId (value : Value)
  | controllerMethod (value : Value)
  | controllerEntry (value : Value)
  /-- Neither a value nor a list of values. -/
  | notValues (field : String) (value : Value)
  /-- The invokers of a capability could not be listed, one of them being no
  non-empty text. -/
  | invokersUnavailable (capability : Text) (value : Value)
  /-- A fault stated from outside, with its own words. -/
  | stated (text : Text) (field : Option Text) (value : Value)

namespace FormatFault

/-- The fault in words. -/
def message : FormatFault → Text
  | .timeUnreadable field _ => "Invalid timestamp in '" ++ field ++ "'"
  | .timeNotText field _ => "'" ++ field ++ "' must be a timestamp string"
  | .entryNotText field _ => "'" ++ field ++ "' entries must be strings"
  | .notNames field _ => "'" ++ field ++ "' must be a string or a list of strings"
  | .target _ => "Invalid invocationTarget"
  | .documentNotObject _ => "Capability document must be an object"
  | .capabilityId _ => "Capability requires an 'id'"
  | .parent _ => "'parentCapability' must be a URI"
  | .caveatList _ => "'caveat' must be a list"
  | .proofList => "'proof' must be an object or a list of objects"
  | .invoker capability _ => "Invalid invoker in capability " ++ capability
  | .methodId _ => "Verification method requires an 'id'"
  | .methodController _ => "'controller' must be a string"
  | .caveatNotObject _ => "caveat must be an object"
  | .caveatType value => "Unknown caveat type: " ++ value.literal
  | .caveatExpires => "ExpirationCaveat requires 'expires'"
  | .caveatActions => "AllowedActionCaveat requires 'allowedAction'"
  | .caveatTarget _ => "InvocationTargetCaveat requires 'invocationTarget'"
  | .controllerId _ => "Controller document requires an 'id'"
  | .controllerMethod _ => "'verificationMethod' entries must be objects"
  | .controllerEntry _ => "Invalid 'capabilityInvocation' entry"
  | .notValues field _ => "'" ++ field ++ "' must be a value or a list"
  | .invokersUnavailable capability _ =>
      "isInvoker: failed to fetch invokers: Invalid invoker in capability " ++ capability
  | .stated text _ _ => text

/-- The field at fault, if it has a name. -/
def field : FormatFault → Option Text
  | .timeUnreadable field _ | .timeNotText field _ | .entryNotText field _ | .notNames field _
  | .notValues field _ => some field
  | .target _ => some "invocationTarget"
  | .documentNotObject _ => none
  | .capabilityId _ | .methodId _ | .controllerId _ => some "id"
  | .parent _ => some "parentCapability"
  | .caveatList _ | .caveatNotObject _ => some "caveat"
  | .proofList => some "proof"
  | .invoker .. | .invokersUnavailable .. => some "invoker"
  | .methodController _ => some "controller"
  | .caveatType _ => some "caveat.type"
  | .caveatExpires => some "caveat.expires"
  | .caveatActions => some "caveat.allowedAction"
  | .caveatTarget _ => some "caveat.invocationTarget"
  | .controllerMethod _ => some "verificationMethod"
  | .controllerEntry _ => some "capabilityInvocation"
  | .stated _ field _ => field

/-- The value found; null where there is none to show. -/
def value : FormatFault → Value
  | .timeUnreadable _ v | .timeNotText _ v | .entryNotText _ v | .notNames _ v
  | .notValues _ v | .invokersUnavailable _ v | .target v | .documentNotObject v
  | .capabilityId v | .methodId v
  | .controllerId v | .parent v | .caveatList v | .caveatNotObject v | .invoker _ v
  | .methodController v | .caveatType v | .caveatTarget v | .controllerMethod v
  | .controllerEntry v | .stated _ _ v => v
  | .proofList | .caveatExpires | .caveatActions => .null

/-- The field and the value found, as far as there are any. -/
def details (f : FormatFault) : Fields :=
  (match f.field with
    | some name => if name.isEmpty then [] else [("field", .text name)]
    | none => []) ++
  (match f.value with
    | .null => []
    | v => [("value", .text v.display)])

/-- The fault behind this one: listing invokers fails for a fault of its own. -/
def cause? : FormatFault → Option FormatFault
  | .invokersUnavailable capability value => some (.invoker capability value)
  | _ => none

end FormatFault

end Mandate
