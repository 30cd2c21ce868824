/-
  Mandate.Fault.Reason
  ────────────────────────────────
  **REASONS FOR A DENIAL.**

  The ways in which an invocation fails to be authorized that rest on nothing
  but the invocation, the capabilities and what was fetched.  Each has a kind, a
  message and details; denials that pass on another failure are built on top of
  them in `Mandate.Fault.Failure`.
-/
import Mandate.Fault.Chain
import Mandate.Json.Reader

namespace Mandate

open Json (Value Fields)

/-! ## §1. Kinds. -/

/-- The kinds of faults, each with its name in reports. -/
inductive FaultKind where
  | general
  | format
  | setting
  | verification
  | missingCapability
  | chainStructure
  | actionNotAllowed
  | actionMismatch
  | resolution
  | targetMismatch
  | rootMismatch
  | rootIntegrity
  | chainDepth
  | invokerUnauthorized
  | expired
  | caveatViolation
  | proofPurpose
  deriving DecidableEq, Repr

namespace FaultKind

/-- All kinds, from the general to the special. -/
def all : List FaultKind :=
  [.general, .format, .setting, .verification, .missingCapability, .chainStructure,
   .actionNotAllowed, .actionMismatch, .resolution, .targetMismatch, .rootMismatch,
   .rootIntegrity, .chainDepth, .invokerUnauthorized, .expired, .caveatViolation, .proofPurpose]

/-- The name of a kind in reports. -/
def name : FaultKind → String
  | .general => "ZcapException"
  | .format => "CapabilityFormatError"
  | .setting => "ConfigException"
  | .verification => "CapabilityVerificationError"
  | .missingCapability => "MissingCapabilityError"
  | .chainStructure => "ChainStructureError"
  | .actionNotAllowed => "ActionNotAllowedError"
  | .actionMismatch => "ActionMismatchError"
  | .resolution => "ResolutionError"
  | .targetMismatch => "TargetMismatchError"
  | .rootMismatch => "RootMismatchError"
  | .rootIntegrity => "RootIntegrityError"
  | .chainDepth => "UnsupportedChainDepthError"
  | .invokerUnauthorized => "InvokerUnauthorizedError"
  | .expired => "CapabilityExpiredError"
  | .caveatViolation => "CaveatViolationError"
  | .proofPurpose => "ProofPurposeError"

/-- The kind of a name. -/
def ofName? (name : String) : Option FaultKind :=
  all.find? (·.name == name)

/-- Kinds of denials. -/
def isDenial (k : FaultKind) : Bool :=
  k != .general && k != .format && k != .setting

end FaultKind

/-! ## §2. Reasons. -/

/-- A failure of the network, by its own name and words. -/
structure TransportFault where
  name : String
  text : Text
  /-- The answer took too long. -/
  timedOut : Bool
  deriving DecidableEq, Repr

/-- Why an invocation is not authorized. -/
inductive Reason where
  | missingCapability
  /-- A delegation chain of an unsupported shape. -/
  | chain (fault : ChainFault)
  | actionNotAllowed (action : Text) (allowed : List Value)
  | actionNotAllowedByRoot (action : Text) (allowed : List Value) (root : Text)
  | actionMismatch (expected actual : Text)
  | capabilityUnknown (uri : Text)
  | controllerUnknown (controller : Text)
  | noBaseUrl (uri : Text)
  | fetchFailed (uri : Text) (cause : TransportFault)
  | fetchStatus (uri : Text) (status : Int)
  | fetchedNoJson (uri : Text) (cause : Json.Misread)
  | fetchedOther (uri : Text) (actual : Text)
  | targetMismatch (expected actual : Text)
  | rootMismatch (expected actual : Text)
  | rootTarget (root target : Text)
  | chainDepth (capability : Text) (depth : Nat)
  | unauthorized (method controller : Text) (invokers : List Value)
  | expired (capability : Text) (expires : String)
  | expirationCaveat (expires : String)
  | actionCaveat (action : Text) (allowed : List Text)
  | targetCaveat (pinned actual : Text)
  /-- A caveat of a declared type that does not hold. -/
  | declaredCaveat (text : Text)
  | proofUndated
  | proofOutsideWindow (created expected : String) (skew : Number)
  | proofMethod (expected actual : Text)
  | controllerOther (expected actual : Text)
  | methodUnauthorized (controller method : Text)

namespace Reason

/-- The kind of a denial for this reason. -/
def kind : Reason → FaultKind
  | .missingCapability => .missingCapability
  | .chain _ => .chainStructure
  | .actionNotAllowed .. | .actionNotAllowedByRoot .. => .actionNotAllowed
  | .actionMismatch .. => .actionMismatch
  | .capabilityUnknown .. | .controllerUnknown .. | .noBaseUrl .. | .fetchFailed ..
  | .fetchStatus .. | .fetchedNoJson .. | .fetchedOther .. => .resolution
  | .targetMismatch .. => .targetMismatch
  | .rootMismatch .. => .rootMismatch
  | .rootTarget .. => .rootIntegrity
  | .chainDepth .. => .chainDepth
  | .unauthorized .. => .invokerUnauthorized
  | .expired .. => .expired
  | .expirationCaveat .. | .actionCaveat .. | .targetCaveat .. | .declaredCaveat .. =>
      .caveatViolation
  | .proofUndated | .proofOutsideWindow .. | .proofMethod .. | .controllerOther ..
  | .methodUnauthorized .. => .proofPurpose

/-- The actions or invokers of a list, as a literal. -/
def entriesLiteral (entries : List Value) : String :=
  (Value.list entries).literal

/-- The reason in words. -/
def message : Reason → Text
  | .missingCapability => "\"capability\" was not found in the capability invocation proof"
  | .chain fault => fault.message
  | .actionNotAllowed action allowed =>
      "capability action \"" ++ action
        ++ "\" is not allowed by the capability; allowed actions are: " ++ entriesLiteral allowed
  | .actionNotAllowedByRoot action allowed _ =>
      "capability action \"" ++ action
        ++ "\" is not allowed by the root capability; allowed actions are: "
        ++ entriesLiteral allowed
  | .actionMismatch expected actual =>
      "capability action \"" ++ actual ++ "\" does not match the expected capability action of \""
        ++ expected ++ "\""
  | .capabilityUnknown uri => "capability not found: " ++ uri
  | .controllerUnknown controller => "controller not found: " ++ controller
  | .noBaseUrl uri => "no base URL configured to resolve " ++ uri
  | .fetchFailed uri cause =>
      if cause.timedOut then "timed out fetching capability " ++ uri
      else "cannot fetch capability " ++ uri ++ ": " ++ cause.text
  | .fetchStatus uri status =>
      "fetching capability " ++ uri ++ " returned HTTP " ++ toString status
  | .fetchedNoJson uri _ => "capability " ++ uri ++ " is not valid JSON"
  | .fetchedOther uri actual =>
      "fetched capability id " ++ actual ++ " does not match requested " ++ uri
  | .targetMismatch expected actual =>
      "expected target does not match root capability target: expected=\"" ++ expected
        ++ "\" target=\"" ++ actual ++ "\""
  | .rootMismatch expected actual =>
      "expected root capability does not match actual root capability: expected=(" ++ expected
        ++ ") actual=(" ++ actual ++ ")"
  | .rootTarget _ _ => "the root capability must not specify a different invocation target"
  | .chainDepth _ _ => "multiple capability chains not supported yet"
  | .unauthorized _ _ _ =>
      "the authorized invoker does not match the verification method or its controller"
  | .expired capability expires => "capability " ++ capability ++ " expired at " ++ expires
  | .expirationCaveat expires => "expiration caveat passed at " ++ expires
  | .actionCaveat action allowed =>
      "action \"" ++ action ++ "\" is restricted by caveat; allowed actions are: "
        ++ entriesLiteral (allowed.map .text)
  | .targetCaveat pinned actual =>
      "invocation target \"" ++ actual ++ "\" is restricted by caveat to \"" ++ pinned ++ "\""
  | .declaredCaveat text => text
  | .proofUndated => "the invocation proof has no 'created' timestamp"
  | .proofOutsideWindow created expected _ =>
      "proof created at " ++ created ++ " is outside the allowed window around " ++ expected
  | .proofMethod expected actual =>
      "proof verification method " ++ actual
        ++ " does not match invocation verification method " ++ expected
  | .controllerOther expected actual =>
      "resolved controller document " ++ actual ++ " does not match " ++ expected
  | .methodUnauthorized controller method =>
      "verification method " ++ method ++ " is not authorized by controller " ++ controller
        ++ " for capabilityInvocation"

/-- The URI that a failed resolution was about. -/
def uri? : Reason → Option Text
  | .capabilityUnknown uri | .controllerUnknown uri | .noBaseUrl uri | .fetchFailed uri _
  | .fetchStatus uri _ | .fetchedNoJson uri _ | .fetchedOther uri _ => some uri
  | _ => none

end Reason

/-- Details with the URI that a resolution was about, unless it is empty. -/
def withUri (details : Fields) (uri : Text) : Fields :=
  if uri.isEmpty then details else Table.put details "uri" (.text uri)

/-- The details of a denial for this reason. -/
def Reason.details : Reason → Fields
  | .missingCapability | .declaredCaveat _ | .proofUndated => []
  | .chain fault => fault.details
  | .actionMismatch expected actual
  | .targetMismatch expected actual | .rootMismatch expected actual
  | .proofMethod expected actual | .controllerOther expected actual =>
      expectedActual expected actual
  | .actionNotAllowed action allowed => [("action", .text action), ("allowed", .list allowed)]
  | .actionNotAllowedByRoot action allowed root =>
      [("action", .text action), ("allowed", .list allowed), ("root", .text root)]
  | .capabilityUnknown uri | .controllerUnknown uri | .noBaseUrl uri | .fetchFailed uri _
  | .fetchedNoJson uri _ => withUri [] uri
  | .fetchStatus uri status => withUri [("status_code", .int status)] uri
  | .fetchedOther uri actual => withUri [("actual", .text actual)] uri
  | .rootTarget root target => [("root", .text root), ("target", .text target)]
  | .chainDepth capability depth => [("capability", .text capability), ("depth", .int depth)]
  | .unauthorized method controller invokers =>
      [("verification_method", .text method), ("controller", .text controller),
       ("invokers", .list invokers)]
  | .expired capability expires => [("capability", .text capability), ("expires", .text expires)]
  | .expirationCaveat expires =>
      [("caveat", .text "ExpirationCaveat"), ("expires", .text expires)]
  | .actionCaveat action allowed =>
      [("caveat", .text "AllowedActionCaveat"), ("action", .text action),
       ("allowed", .texts allowed)]
  | .targetCaveat pinned actual =>
      ("caveat", .text "InvocationTargetCaveat") :: expectedActual pinned actual
  | .proofOutsideWindow created expected skew =>
      [("created", .text created), ("expected", .text expected),
       ("max_clock_skew_seconds", .number skew)]
  | .methodUnauthorized controller method =>
      [("controller", .text controller), ("verification_method", .text method)]

end Mandate
