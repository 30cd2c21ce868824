/-
  Mandate.Resolver.Store
  ────────────────────────────────
  **CAPABILITIES AT HAND.**

  A store is a table of capabilities by their names.  A capability taken up
  later takes the place of an earlier one of its name.
-/
import Mandate.Verification.Verifier

namespace Mandate

open Json (Value)

/-- Capabilities by name. -/
abbrev Store := Table Text Capability

namespace Store

/-- Take up a capability. -/
def add (s : Store) (c : Capability) : Store :=
  Table.put s c.id c

/-- The capabilities of a list, taken up one after the other. -/
def ofList (cs : List Capability) : Store :=
  cs.foldl add []

/-- Take up the capability that a document denotes. -/
def addDocument (known : Registry) (s : Store) (document : Value) :
    Except Refusal (Capability × Store) :=
  match Capability.read known document with
  | .ok c => .ok (c, s.add c)
  | .error r => .error r

/-- Take up the capabilities of several documents, one after the other. -/
def addDocuments (known : Registry) (s : Store) : List Value → Except Refusal Store
  | [] => .ok s
  | d :: ds =>
      match s.addDocument known d with
      | .ok (_, s) => s.addDocuments known ds
      | .error r => .error r

/-- Remove the capability of a name, and tell whether there was one. -/
def discard (s : Store) (uri : Text) : Bool × Store :=
  (Table.has s uri, Table.remove s uri)

/-- The number of capabilities. -/
def size (s : Store) : Nat := s.length

/-- The capability of a name. -/
def resolve (s : Store) (uri : Text) : Except Failure Capability :=
  match s.lookup uri with
  | some c => .ok c
  | none => .error (.denied (.capabilityUnknown uri))

end Store

end Mandate
