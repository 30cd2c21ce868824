/-
  Mandate.Capability.Basic
  ────────────────────────────────
  **CAPABILITIES.**

  A capability grants its invokers actions on a target.  One without a
  delegation chain is a root; the chain of any other starts with the name of
  its root.

  The entries of a capability read from a document are texts.  One that is put
  together by hand may hold any values, so the lists of names and the chain are
  lists of values, and listing the invokers can fail.
-/
import Mandate.Capability.Caveat

namespace Mandate

open Json (Value Fields)
open Time (Stamp)

/-! ## §1. Targets. -/

/-- What a capability authorizes action on. -/
structure Target where
  id : Text
  type : Text
  deriving DecidableEq, Repr

namespace Target

/-- A target is written as its name, or as an object with a name and a type. -/
def read : Value → Except FormatFault Target
  | .object fields =>
      match Document.properText? (Document.field fields "id"),
          ((fields.lookup (.plain "type")).getD (.text "")).text? with
      | some id, some type => .ok ⟨id, type⟩
      | _, _ => .error (.target (.object fields))
  | v =>
      match Document.properText? v with
      | some id => .ok ⟨id, ""⟩
      | none => .error (.target v)

/-- A target as documents carry it. -/
def toJson (t : Target) : Value :=
  if t.type.isEmpty then .text t.id else .object [("id", .text t.id), ("type", .text t.type)]

/-- A target as a literal. -/
def literal (t : Target) : String :=
  Json.recordLiteral "InvocationTarget"
    [("id", Text.quoted t.id), ("type", Text.quoted t.type)]

/-- A target with a name is read back from its written form. -/
theorem read_toJson (t : Target) (h : t.id.isEmpty = false) : read t.toJson = .ok t := by
  obtain ⟨id, type⟩ := t
  by_cases ht : type.isEmpty
  · have : type = "" := Text.isEmpty_iff.mp ht
    subst this
    simp_all [toJson, read, Document.properText?]
  · simp_all [toJson, read, Document.properText?, Document.field, Value.text?, List.lookup_cons]

end Target

/-! ## §2. Capabilities. -/

/-- A grant of authority over a target. -/
structure Capability where
  id : Text
  target : Target
  /-- Permitted actions; none means every one. -/
  allowedAction : List Value
  /-- Principals that control the capability. -/
  controller : List Value
  /-- Principals that may invoke it. -/
  invoker : List Value
  /-- Principals that may delegate it. -/
  delegator : List Value
  /-- The capability that this one was delegated from. -/
  parent : Option Text
  expires : Option Stamp
  caveats : List Caveat
  /-- The chain of the delegation proof, root first. -/
  chain : List Value
  /-- The proofs of the document, as they were. -/
  proof : List Value

namespace Capability

/-- A capability of the given name and target without any entries. -/
def bare (id : Text) (target : Target) : Capability :=
  { id, target, allowedAction := [], controller := [], invoker := [], delegator := [],
    parent := none, expires := none, caveats := [], chain := [], proof := [] }

/-- A capability without a chain is its own root. -/
def isRoot (c : Capability) : Bool := c.chain.isEmpty

/-- Past its end of validity, or right at it. -/
def isExpired (c : Capability) (now : Stamp) : Bool :=
  c.expires.any fun t => t.instant ≤ now.instant

/-- An action that the capability does not list although it lists some.  The
empty action is never excluded. -/
def excludes (c : Capability) (action : Text) : Bool :=
  !c.allowedAction.isEmpty && !action.isEmpty && !c.allowedAction.contains (.text action)

/-! ## §3. Invokers. -/

/-- The entries that name the invokers: those for invokers, if there are any,
otherwise those for controllers. -/
def invokerEntries (c : Capability) : List Value :=
  if c.invoker.isEmpty then c.controller else c.invoker

/-- The texts of entries that all are non-empty texts, or the first entry that
is none. -/
def properTexts : List Value → Except Value (List Text)
  | [] => .ok []
  | v :: vs =>
      match Document.properText? v with
      | some s => (properTexts vs).map (s :: ·)
      | none => .error v

/-- The principals that may invoke a capability, or the entry that names
none. -/
def invokerNames (c : Capability) : Except Value (List Text) :=
  properTexts c.invokerEntries

/-- The principals that may invoke a capability. -/
def invokers (c : Capability) : Except FormatFault (List Text) :=
  c.invokerNames.mapError (.invoker c.id)

/-! ## §4. Sameness. -/

/-- The same times by their instants. -/
def alikeTimes : Option Stamp → Option Stamp → Bool
  | some a, some b => a.instant == b.instant
  | none, none => true
  | _, _ => false

/-- The same caveats, one by one. -/
def alikeCaveats (as bs : List Caveat) : Bool :=
  as.length == bs.length && (as.zip bs).all fun p => p.1.alike p.2

/-- The same grant: everything but the proofs, times by their instants, entries
and chains up to the form of numbers and the order of fields. -/
def alike (a b : Capability) : Bool :=
  a.id == b.id && a.target == b.target &&
  Value.alikeAll a.allowedAction b.allowedAction && Value.alikeAll a.controller b.controller &&
  Value.alikeAll a.invoker b.invoker && Value.alikeAll a.delegator b.delegator &&
  a.parent == b.parent && alikeTimes a.expires b.expires && alikeCaveats a.caveats b.caveats &&
  Value.alikeAll a.chain b.chain

/-! ## §5. Literals. -/

/-- Several values as a literal. -/
def valuesLiteral (vs : List Value) : String :=
  Json.sequenceLiteral (vs.map (·.literal))

/-- A capability as a literal. -/
def literal (c : Capability) : String :=
  Json.recordLiteral "Capability"
    [("id", Text.quoted c.id),
     ("invocation_target", c.target.literal),
     ("allowed_action", valuesLiteral c.allowedAction),
     ("controller", valuesLiteral c.controller),
     ("invoker", valuesLiteral c.invoker),
     ("delegator", valuesLiteral c.delegator),
     ("parent_capability", (Value.ofText? c.parent).literal),
     ("expires", match c.expires with
       | some t => t.literal
       | none => Value.null.literal),
     ("caveats", Json.sequenceLiteral (c.caveats.map (·.literal))),
     ("delegation_chain", valuesLiteral c.chain),
     ("proof", valuesLiteral c.proof)]

end Capability

end Mandate
