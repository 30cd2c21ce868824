/-
  Mandate.Fault.Failure
  ────────────────────────────────
  **FAILURES AND THEIR CAUSES.**

  Three layers, one inside the other.

      Denial   — an invocation is not authorized: a reason, or another
                 failure passed on
      Fault    — a denial, a malformed document or an unusable setting
      Failure  — a fault, or an event outside the library's own rules

  Faults are ordinary answers: they carry a kind, a message and details, and a
  check reports them.  Other failures leave a check as they are.  A failure that
  was met on the way is never lost: `Failure.cause?` leads from a failure to the
  one behind it, and `Denial.wrap` puts a text in front of a denial and keeps
  its kind, its details and its cause.
-/
import Mandate.Fault.Reason
import Mandate.Text.Decode
import Mandate.Text.Encode

namespace Mandate

open Json (Value Fields)

/-! ## §1. Settings. -/

/-- An unusable setting. -/
inductive SettingFault where
  /-- No known logging level. -/
  | unknownLevel (level : Text)
  /-- An entry that is not of the form `module=LEVEL`. -/
  | moduleLevel (entry : String)
  /-- A fault stated from outside, with its own words. -/
  | stated (text : Text) (setting : Option Text)

namespace SettingFault

/-- The fault in words. -/
def message : SettingFault → Text
  | .unknownLevel level => "Unknown log level: " ++ Text.quoted level
  | .moduleLevel entry => "Invalid module log level entry: " ++ Text.quoted entry
  | .stated text _ => text

/-- The setting at fault. -/
def setting : SettingFault → Option Text
  | .unknownLevel _ => some "log_level"
  | .moduleLevel _ => some "module_log_levels"
  | .stated _ setting => setting

/-- The setting, if it has a name. -/
def details (f : SettingFault) : Fields :=
  match f.setting with
  | some name => if name.isEmpty then [] else [("setting", .text name)]
  | none => []

end SettingFault

/-! ## §2. Denials, faults and failures. -/

mutual

/-- An invocation is not authorized. -/
inductive Denial where
  | plain (reason : Reason)
  /-- The root of the chain could not be resolved. -/
  | rootUnresolved (uri : Text) (cause : Failure)
  /-- What was fetched is not a capability. -/
  | fetchedMalformed (uri : Text) (cause : Refusal)
  /-- The controller of the signing method could not be resolved. -/
  | controllerUnresolved (controller : Text) (cause : Denial)
  /-- A denial with a text in front of its message. -/
  | wrapped (lead : Text) (inner : Denial)
  /-- A denial stated from outside, with its own words and cause. -/
  | stated (kind : FaultKind) (text : Text) (details : Fields) (uri : Option Text)
      (cause : Option Failure)

/-- An answer of the library other than the one hoped for. -/
inductive Fault where
  | general (text : Text) (details : Fields)
  | format (f : FormatFault)
  | setting (f : SettingFault)
  | denial (d : Denial)

/-- Any way in which an operation can end without a value. -/
inductive Failure where
  | fault (f : Fault)
  /-- A time that lies in the years 1 to 9999 only away from UTC. -/
  | dateOutOfRange
  /-- A text that is no time. -/
  | noTime (text : Text)
  /-- A value without the operation that its place asks for. -/
  | shape (value : Value) (operation : String)
  | misread (cause : Json.Misread)
  | undecodable (cause : Text.Undecodable)
  | unencodable (cause : Text.Unencodable)
  | transport (cause : TransportFault)
  /-- A failure of a collaborator, by its own name and words. -/
  | foreign (name : String) (text : Text)

end

/-- A failed check, for a reason of its own. -/
abbrev Failure.denied (r : Reason) : Failure := .fault (.denial (.plain r))

/-- A malformed document. -/
abbrev Failure.malformed (f : FormatFault) : Failure := .fault (.format f)

/-- A document that is not taken as a capability. -/
def Failure.refused : Refusal → Failure
  | .malformed f => .malformed f
  | .chain f => .denied (.chain f)

/-! ## §3. What is reported. -/

/-- The word for the shape of a value. -/
def shapeName : Value → String
  | .null => "NoneType"
  | .bool _ => "bool"
  | .number (.int _) => "int"
  | .number (.double _) => "float"
  | .text _ => "str"
  | .list _ => "list"
  | .object _ => "dict"

/-- The kind of a denial. -/
def Denial.kind : Denial → FaultKind
  | .plain reason => reason.kind
  | .rootUnresolved .. | .fetchedMalformed .. => .resolution
  | .controllerUnresolved .. => .proofPurpose
  | .wrapped _ inner => inner.kind
  | .stated kind .. => kind

/-- The kind of a fault. -/
def Fault.kind : Fault → FaultKind
  | .general .. => .general
  | .format .. => .format
  | .setting .. => .setting
  | .denial d => d.kind

/-- What stands in front of the failure that hid a root. -/
def rootUnresolvedLead (uri : Text) : Text :=
  "failed to resolve root capability URI " ++ uri ++ ": "

/-- What stands in front of the reason why a fetched document was not taken. -/
def fetchedMalformedLead (uri : Text) : Text :=
  "capability " ++ uri ++ " is malformed: "

/-- What stands in front of the denial that hid a controller. -/
def controllerUnresolvedLead (controller : Text) : Text :=
  "cannot resolve controller " ++ controller ++ ": "

/-- The words for a time that UTC has no year for. -/
def dateOutOfRangeText : String := "date value out of range"

/-- The words for a text that is no time. -/
def noTimeText (text : Text) : String :=
  "Invalid isoformat string: " ++ Text.quoted text

/-- The words for a value without an operation. -/
def shapeText (value : Value) (operation : String) : String :=
  "'" ++ shapeName value ++ "' object has no attribute '" ++ operation ++ "'"

mutual

/-- A denial in words. -/
def Denial.message : Denial → Text
  | .plain reason => reason.message
  | .rootUnresolved uri cause => rootUnresolvedLead uri ++ cause.message
  | .fetchedMalformed uri cause => fetchedMalformedLead uri ++ cause.message
  | .controllerUnresolved controller cause => controllerUnresolvedLead controller ++ cause.message
  | .wrapped lead inner => lead ++ (": " ++ inner.message)
  | .stated _ text _ _ _ => text

/-- A fault in words. -/
def Fault.message : Fault → Text
  | .general text _ => text
  | .format f => f.message
  | .setting f => f.message
  | .denial d => d.message

/-- A failure in words. -/
def Failure.message : Failure → Text
  | .fault f => f.message
  | .dateOutOfRange => dateOutOfRangeText
  | .noTime text => noTimeText text
  | .shape value operation => shapeText value operation
  | .misread cause => cause.message
  | .undecodable cause => cause.message
  | .unencodable cause => cause.message
  | .transport cause => cause.text
  | .foreign _ text => text

end

@[simp] theorem Denial.message_plain (r : Reason) : (Denial.plain r).message = r.message := rfl

@[simp] theorem Denial.message_rootUnresolved (uri : Text) (cause : Failure) :
    (Denial.rootUnresolved uri cause).message = rootUnresolvedLead uri ++ cause.message := rfl

@[simp] theorem Denial.message_fetchedMalformed (uri : Text) (cause : Refusal) :
    (Denial.fetchedMalformed uri cause).message = fetchedMalformedLead uri ++ cause.message := rfl

@[simp] theorem Denial.message_controllerUnresolved (controller : Text) (cause : Denial) :
    (Denial.controllerUnresolved controller cause).message
      = controllerUnresolvedLead controller ++ cause.message := rfl

@[simp] theorem Fault.message_denial (d : Denial) : (Fault.denial d).message = d.message := rfl

@[simp] theorem Fault.message_format (f : FormatFault) :
    (Fault.format f).message = f.message := rfl

@[simp] theorem Failure.message_fault (f : Fault) : (Failure.fault f).message = f.message := rfl

/-- The URI that a failed resolution was about. -/
def Denial.uri? : Denial → Option Text
  | .plain reason => reason.uri?
  | .rootUnresolved uri _ | .fetchedMalformed uri _ => some uri
  | .controllerUnresolved .. => none
  | .wrapped _ inner => inner.uri?
  | .stated _ _ _ uri _ => uri

mutual

/-- What was expected and found. -/
def Denial.details : Denial → Fields
  | .plain reason => reason.details
  | .rootUnresolved uri cause => withUri cause.resolutionDetails uri
  | .fetchedMalformed uri _ => withUri [] uri
  | .controllerUnresolved controller _ => [("controller", .text controller)]
  | .wrapped _ inner => inner.details
  | .stated _ _ details uri _ =>
      match uri with
      | some uri => withUri details uri
      | none => details

/-- The details of a failed resolution; none of any other failure. -/
def Failure.resolutionDetails : Failure → Fields
  | .fault (.denial d) => if d.kind = .resolution then d.details else []
  | _ => []

end

/-- What was expected and found. -/
def Fault.details : Fault → Fields
  | .general _ details => details
  | .format f => f.details
  | .setting f => f.details
  | .denial d => d.details

/-- The fields of a fault in reports: kind, message and details. -/
def Fault.fields (f : Fault) : Fields :=
  [("error", .text f.kind.name), ("message", .text f.message), ("details", .object f.details)]

/-- A fault as it stands in reports. -/
def Fault.toJson (f : Fault) : Value := .object f.fields

/-! ## §4. Causes. -/

/-- The failure behind a malformed document. -/
def FormatFault.causeFailure? : FormatFault → Option Failure
  | .timeUnreadable _ value => some (.noTime value.display)
  | f => f.cause?.map .malformed

/-- The failure behind a reason. -/
def Reason.cause? : Reason → Option Failure
  | .chain (.document _ cause) => some (.malformed cause)
  | .fetchFailed _ cause => some (.transport cause)
  | .fetchedNoJson _ cause => some (.misread cause)
  | _ => none

/-- The failure behind a denial.  A text in front changes nothing about it. -/
def Denial.cause? : Denial → Option Failure
  | .plain reason => reason.cause?
  | .rootUnresolved _ cause => some cause
  | .fetchedMalformed _ cause => some (.refused cause)
  | .controllerUnresolved _ cause => some (.fault (.denial cause))
  | .wrapped _ inner => inner.cause?
  | .stated _ _ _ _ cause => cause

/-- The failure behind a fault. -/
def Fault.cause? : Fault → Option Failure
  | .format f => f.causeFailure?
  | .denial d => d.cause?
  | .general .. | .setting .. => none

/-- The failure behind a failure. -/
def Failure.cause? : Failure → Option Failure
  | .fault f => f.cause?
  | _ => none

/-! ## §5. Putting a text in front. -/

/-- The same denial with a text in front of its message. -/
def Denial.wrap (d : Denial) (lead : Text) : Denial := .wrapped lead d

end Mandate
