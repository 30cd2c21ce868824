/-
  Mandate.Invocation.Basic
  ────────────────────────────────
  **INVOCATIONS.**

  Two things meet in a check.  An invocation is what the verifying service
  expects: an action, the method that signed, and optionally a target and a
  root.  A proof is what was submitted: a capability, the action that it is used
  for, the name of the method and the time of its making.
-/
import Mandate.Capability.Writer

namespace Mandate

open Json (Value Fields)

/-! ## §1. Methods. -/

/-- A key or identity that signs. -/
structure Method where
  id : Text
  controller : Text
  type : Text
  deriving DecidableEq, Repr

namespace Method

/-- A method by the fields of its document.  Its type is whatever stands there,
shown by itself. -/
def ofFields (fields : Fields) : Except FormatFault Method :=
  match Document.properText? (Document.field fields "id") with
  | none => .error (.methodId (Document.field fields "id"))
  | some id =>
      match (fields.lookup (.plain "controller")).getD (.text "") with
      | .text controller =>
          .ok { id, controller, type := ((fields.lookup (.plain "type")).getD (.text "")).display }
      | v => .error (.methodController v)

/-- The method that a document denotes. -/
def read : Value → Except Failure Method
  | .object fields =>
      match ofFields fields with
      | .ok m => .ok m
      | .error f => .error (.malformed f)
  | v => .error (.shape v "get")

/-- A method as documents carry it. -/
def toJson (m : Method) : Value :=
  .object <| ([("id", .text m.id)] : Fields)
    ++ (if m.type.isEmpty then [] else [("type", .text m.type)] : Fields)
    ++ (if m.controller.isEmpty then [] else [("controller", .text m.controller)] : Fields)

/-- The part of a name in front of the first `#`. -/
def document (id : Text) : Text :=
  .ofPoints (id.points.takeWhile (· != .char '#'))

/-- Who answers for a method: its controller, otherwise the document that its
name points into. -/
def principal (m : Method) : Text :=
  if m.controller.isEmpty then document m.id else m.controller

end Method

/-! ## §2. Invocations and proofs. -/

/-- What the verifying service expects. -/
structure Invocation where
  action : Text
  /-- The method that signed. -/
  method : Method
  /-- The required target; any if empty. -/
  target : Text
  /-- The required root; the target itself if empty. -/
  root : Text
  deriving DecidableEq, Repr

/-- What was submitted. -/
structure Proof where
  capability : Option Capability
  action : Text
  /-- The name of the method; none if empty. -/
  method : Text
  created : Option Time.Moment

/-! ## §3. Invokers. -/

namespace Capability

/-- Whether a method is listed, by its own name or by its controller's. -/
def lists (invokers : List Text) (m : Method) : Bool :=
  invokers.contains m.id || (!m.controller.isEmpty && invokers.contains m.controller)

/-- Whether a method may invoke a capability. -/
def isInvoker (c : Capability) (m : Method) : Except FormatFault Bool :=
  c.invokers.map fun names => lists names m

end Capability

end Mandate
