/-
  Mandate.Fault.Chain
  ────────────────────────────────
  **UNSUPPORTED CHAINS.**

  A delegation chain is a root's name followed by capability documents, and its
  last entry is the parent that the capability names.  Every way of not being
  one is a constructor.  A document that is not taken as a capability is either
  malformed itself or carries a chain of that kind (`Refusal`).
-/
import Mandate.Fault.Format

namespace Mandate

open Json (Value Fields)

/-- What was expected and found. -/
def expectedActual (expected actual : Text) : Fields :=
  [("expected", .text expected), ("actual", .text actual)]

/-! ## §1. Chains. -/

/-- What is wrong with a delegation chain. -/
inductive ChainFault where
  /-- An entry that is an object but no capability. -/
  | document (index : Nat) (cause : FormatFault)
  /-- An entry that is neither a text nor an object. -/
  | stray (index : Nat) (value : Value)
  | rootEmpty
  /-- A text behind the first entry. -/
  | reference (index : Nat) (uri : Text)
  /-- A last entry other than the parent. -/
  | parent (expected actual : Text)
  /-- A delegation proof without a chain. -/
  | missing (chain : Value)
  /-- A first entry that is a document, shown as a literal. -/
  | root (capability : Text) (shown : String)

namespace ChainFault

/-- The fault in words. -/
def message : ChainFault → Text
  | .document index cause =>
      "capabilityChain entry " ++ toString index ++ " is not a valid capability: " ++ cause.message
  | .stray index value =>
      "capabilityChain entry " ++ toString index ++ " must be a URI or a capability document: "
        ++ value.literal
  | .rootEmpty => "capabilityChain root URI must not be empty"
  | .reference index uri =>
      "capabilityChain entry " ++ toString index
        ++ " must be a full capability document, got URI " ++ Text.quoted uri
  | .parent expected actual =>
      "last capabilityChain entry " ++ Text.quoted actual ++ " does not match parentCapability "
        ++ Text.quoted expected
  | .missing _ =>
      "capabilityDelegation proof must carry a non-empty 'capabilityChain' list"
  | .root _ shown => "invalid rootURI format: " ++ shown

/-- The place in the chain, or what was expected and found. -/
def details : ChainFault → Fields
  | .document index cause => Table.putAll [("index", .int index)] cause.details
  | .stray index _ | .reference index _ => [("index", .int index)]
  | .rootEmpty => []
  | .parent expected actual => expectedActual expected actual
  | .missing chain => [("capabilityChain", .text chain.literal)]
  | .root capability _ => [("capability", .text capability)]

end ChainFault

/-! ## §2. Documents that are not taken. -/

/-- Why a document is not taken as a capability. -/
inductive Refusal where
  | malformed (f : FormatFault)
  | chain (f : ChainFault)

/-- The refusal in words. -/
def Refusal.message : Refusal → Text
  | .malformed f => f.message
  | .chain f => f.message

/-- A malformed field refuses the document. -/
def Refusal.ofFormat {α : Type} : Except FormatFault α → Except Refusal α
  | .ok a => .ok a
  | .error f => .error (.malformed f)

@[simp] theorem Refusal.ofFormat_ok {α : Type} (a : α) :
    Refusal.ofFormat (.ok a) = .ok a := rfl

@[simp] theorem Refusal.ofFormat_error {α : Type} (f : FormatFault) :
    (Refusal.ofFormat (.error f) : Except Refusal α) = .error (.malformed f) := rfl

end Mandate
