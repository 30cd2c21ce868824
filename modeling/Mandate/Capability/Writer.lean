/-
  Mandate.Capability.Writer
  ────────────────────────────────
  **WRITING CAPABILITIES.**

  The document of a capability has its fields in a fixed order and leaves out
  what is empty.  Its proofs are those of the document it was read from; a
  capability that has a chain but no proofs gets a delegation proof that carries
  the chain.

  Writing fails for one reason only: a time that UTC has no year for.
-/
import Mandate.Capability.Reader

namespace Mandate

open Json (Value Fields)

namespace Capability

/-- The vocabulary that the documents are written in. -/
def context : String := "https://w3id.org/security/v2"

/-- A field of names in their shortest form, left out if there are none. -/
def namesField (name : String) (vs : List Value) : Fields :=
  match Document.compact vs with
  | .null => []
  | v => [(name, v)]

/-- A proof that does nothing but carry a chain. -/
def chainProof (chain : List Value) : Value :=
  .object [("proofPurpose", .text delegationPurpose), ("capabilityChain", .list chain)]

/-- The field of the parent, left out if it has no name. -/
def parentField (c : Capability) : Fields :=
  match c.parent with
  | some p => if p.isEmpty then [] else [("parentCapability", .text p)]
  | none => []

/-- The field of the permitted actions, left out if there are none. -/
def actionsField (c : Capability) : Fields :=
  if c.allowedAction.isEmpty then [] else [("allowedAction", .list c.allowedAction)]

/-- The field of the end of validity. -/
def expiresField (c : Capability) : Except Failure Fields :=
  match c.expires with
  | none => .ok []
  | some t => do return [("expires", .text (← Document.timeText t))]

/-- The caveats as documents. -/
def caveatValues (c : Capability) : Except Failure (List Value) :=
  c.caveats.mapM (·.toJson)

/-- The field of the caveats, left out if there are none. -/
def caveatField (values : List Value) : Fields :=
  if values.isEmpty then [] else [("caveat", .list values)]

/-- The field of the proofs. -/
def proofField (c : Capability) : Fields :=
  if !c.proof.isEmpty then [("proof", .list c.proof)]
  else if !c.chain.isEmpty then [("proof", .list [chainProof c.chain])]
  else []

/-- A capability as documents carry it. -/
def toJson (c : Capability) : Except Failure Value := do
  let expires ← c.expiresField
  let caveats ← c.caveatValues
  return .object <|
    ([("@context", .text context), ("id", .text c.id), ("invocationTarget", c.target.toJson)]
        : Fields)
      ++ c.parentField
      ++ namesField "controller" c.controller
      ++ namesField "invoker" c.invoker
      ++ namesField "delegator" c.delegator
      ++ c.actionsField
      ++ expires
      ++ caveatField caveats
      ++ c.proofField

end Capability

end Mandate
