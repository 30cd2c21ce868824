/-
  Mandate.Capability.Caveat
  ────────────────────────────────
  **CAVEATS.**

  A caveat narrows what a capability may be used for.  There are three of them
  — an end of validity, a set of actions, one target — and an application may
  declare further types of its own.  Which types are known is a table
  (`Registry`), and a document with a caveat of an unknown type is refused, so
  that no restriction passes unread.

  A caveat is held against an `Occasion`: the time, the action and the target
  of one invocation.
-/
import Mandate.Document.Field

namespace Mandate

open Json (Value Fields)
open Time (Stamp)

/-! ## §1. Types. -/

/-- A restriction on the use of a capability. -/
inductive Caveat where
  /-- Not from this time on. -/
  | expiration (expires : Stamp)
  /-- For these actions only. -/
  | allowedAction (actions : List Text)
  /-- For this target only. -/
  | invocationTarget (target : Text)
  /-- A restriction of a declared type, which holds unless it comes with a
  text. -/
  | declared (type : Text) (text : Option Text)
  deriving DecidableEq

/-- What the documents of a type of caveat denote. -/
inductive CaveatKind where
  | expiration
  | allowedAction
  | invocationTarget
  | declared (text : Option Text)
  deriving DecidableEq

/-- The known types of caveats, the latest declaration of a type first. -/
abbrev Registry := List (Text × CaveatKind)

namespace Registry

/-- The types that are always known. -/
def builtIn : Registry :=
  [("ExpirationCaveat", .expiration), ("AllowedActionCaveat", .allowedAction),
   ("InvocationTargetCaveat", .invocationTarget)]

/-- Declare a type, in place of any earlier one of its name. -/
def declare (r : Registry) (type : Text) (text : Option Text) : Registry :=
  (type, .declared text) :: r

end Registry

/-! ## §2. Reading. -/

/-- The caveat of a known type that an object denotes. -/
def CaveatKind.read (type : Text) (fields : Fields) : CaveatKind → Except FormatFault Caveat
  | .expiration => do
      match ← Document.readTime "caveat.expires" (Document.field fields "expires") with
      | some expires => .ok (.expiration expires)
      | none => .error .caveatExpires
  | .allowedAction => do
      let actions ←
        Document.readNames "caveat.allowedAction" (Document.field fields "allowedAction")
      if actions.isEmpty then .error .caveatActions else .ok (.allowedAction actions)
  | .invocationTarget =>
      let value := Document.field fields "invocationTarget"
      match Document.properText? value with
      | some target => .ok (.invocationTarget target)
      | none => .error (.caveatTarget value)
  | .declared text => .ok (.declared type text)

/-- The caveat that a document denotes. -/
def Caveat.read (known : Registry) : Value → Except FormatFault Caveat
  | .object fields =>
      let type := Document.field fields "type"
      match type.text?.bind fun name => (known.lookup name).map fun kind => (name, kind) with
      | some (name, kind) => kind.read name fields
      | none => .error (.caveatType type)
  | v => .error (.caveatNotObject v)

/-! ## §3. Writing. -/

namespace Caveat

/-- The name of a caveat's type. -/
def type : Caveat → Text
  | .expiration _ => "ExpirationCaveat"
  | .allowedAction _ => "AllowedActionCaveat"
  | .invocationTarget _ => "InvocationTargetCaveat"
  | .declared type _ => type

/-- A caveat as documents carry it. -/
def toJson (c : Caveat) : Except Failure Value :=
  match c with
  | .expiration expires => do
      return .object [("type", .text c.type), ("expires", .text (← Document.timeText expires))]
  | .allowedAction actions =>
      .ok (.object [("type", .text c.type), ("allowedAction", .texts actions)])
  | .invocationTarget target =>
      .ok (.object [("type", .text c.type), ("invocationTarget", .text target)])
  | .declared .. => .ok (.object [("type", .text c.type)])

/-- A caveat as a literal. -/
def literal : Caveat → String
  | .expiration expires => Json.recordLiteral "ExpirationCaveat" [("expires", expires.literal)]
  | .allowedAction actions =>
      Json.recordLiteral "AllowedActionCaveat"
        [("allowed_action", Json.sequenceLiteral (actions.map Text.quoted))]
  | .invocationTarget target =>
      Json.recordLiteral "InvocationTargetCaveat" [("invocation_target", Text.quoted target)]
  | .declared type _ => Json.recordLiteral type.withoutHalves []

/-- The same restriction: times by their instants. -/
def alike : Caveat → Caveat → Bool
  | .expiration a, .expiration b => a.instant == b.instant
  | .allowedAction a, .allowedAction b => a == b
  | .invocationTarget a, .invocationTarget b => a == b
  | .declared a s, .declared b t => a == b && s == t
  | _, _ => false

end Caveat

/-! ## §4. Holding. -/

/-- What a restriction is held against. -/
structure Occasion where
  now : Stamp
  action : Text
  target : Text

/-- A time has come: it is now or past. -/
def Occasion.reached (o : Occasion) (t : Stamp) : Bool :=
  t.instant ≤ o.now.instant

/-- Whether a caveat holds, and why it does not. -/
def Caveat.check (o : Occasion) : Caveat → Except Failure Unit
  | .expiration expires =>
      if o.reached expires then do
        .error (.denied (.expirationCaveat (← Document.timeText expires)))
      else .ok ()
  | .allowedAction actions =>
      if actions.contains o.action then .ok ()
      else .error (.denied (.actionCaveat o.action actions))
  | .invocationTarget target =>
      if o.target = target then .ok ()
      else .error (.denied (.targetCaveat target o.target))
  | .declared _ none => .ok ()
  | .declared _ (some text) => .error (.denied (.declaredCaveat text))

end Mandate
