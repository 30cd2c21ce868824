/-
  Mandate.Capability.Reader
  ────────────────────────────────
  **READING CAPABILITIES.**

  A document is read in two steps.  The first looks at its own fields only
  (`draft`); the second reads the documents inside its delegation chain, in the
  same way, and checks the shape of the chain.

      chain   — empty, or a root's name followed by capabilities, the last of
                which is the parent if the document names one

  The documents of a chain are parts of the document that carries it
  (`sizeOf_chain_draft`), which is why reading ends.
-/
import Mandate.Capability.Basic

namespace Mandate

open Json (Value Fields)

namespace Capability

/-- The purpose of the proof that carries the chain. -/
def delegationPurpose : String := "capabilityDelegation"

/-! ## §1. The fields of a document. -/

/-- The name of the document. -/
def readId (fields : Fields) : Except FormatFault Text :=
  match Document.properText? (Document.field fields "id") with
  | some id => .ok id
  | none => .error (.capabilityId (Document.field fields "id"))

/-- The name of the parent, or nothing. -/
def readParent (fields : Fields) : Except FormatFault (Option Text) :=
  match Document.field fields "parentCapability" with
  | .null => .ok none
  | .text s => .ok (some s)
  | v => .error (.parent v)

/-- The documents of the caveats: one, or a list of them. -/
def caveatDocuments (fields : Fields) : Except FormatFault (List Value) :=
  match fields.lookup (.plain "caveat") with
  | none => .ok []
  | some (.object fs) => .ok [.object fs]
  | some (.list vs) => .ok vs
  | some v => .error (.caveatList v)

/-- An object of a document. -/
def isObject : Value → Bool
  | .object _ => true
  | _ => false

/-- The proofs: none, one object, or a list of objects. -/
def proofList : Value → Except FormatFault (List Value)
  | .null => .ok []
  | .object fs => .ok [.object fs]
  | .list ps => if ps.all isObject then .ok ps else .error .proofList
  | _ => .error .proofList

/-- Everything but the chain. -/
def readOwn (known : Registry) (fields : Fields) : Except FormatFault Capability := do
  let id ← readId fields
  let parent ← readParent fields
  let caveats ← caveatDocuments fields
  let proof ← proofList (Document.field fields "proof")
  let target ← Target.read ((fields.lookup (.plain "invocationTarget")).getD (.text id))
  let names (name : String) : Except FormatFault (List Value) :=
    (Document.readNames name (Document.field fields name)).map (·.map .text)
  let allowedAction ← names "allowedAction"
  let controller ← names "controller"
  let invoker ← names "invoker"
  let delegator ← names "delegator"
  let expires ← Document.readTime "expires" (Document.field fields "expires")
  let caveats ← caveats.mapM (Caveat.read known)
  return { id, target, allowedAction, controller, invoker, delegator, parent, expires, caveats,
           chain := [], proof }

/-- The chain of the first delegation proof. -/
def delegationChain : List Value → Except ChainFault (List Value)
  | [] => .ok []
  | .object fs :: ps =>
      if Document.field fs "proofPurpose" = .text delegationPurpose then
        match Document.field fs "capabilityChain" with
        | .list (e :: es) => .ok (e :: es)
        | v => .error (.missing v)
      else delegationChain ps
  | _ :: ps => delegationChain ps

/-- A document by its own fields: its chain is taken, but not yet looked at. -/
def draft (known : Registry) : Value → Except Refusal Capability
  | .object fields =>
      match readOwn known fields with
      | .error f => .error (.malformed f)
      | .ok c =>
          match delegationChain c.proof with
          | .error f => .error (.chain f)
          | .ok chain => .ok { c with chain }
  | v => .error (.malformed (.documentNotObject v))

/-! ## §2. A chain is a part of its document. -/

theorem sizeOf_lookup {fields : Fields} {name : Text} {v : Value}
    (h : fields.lookup name = some v) : sizeOf v < sizeOf fields := by
  induction fields with
  | nil => simp at h
  | cons f fs ih =>
      obtain ⟨k, a⟩ := f
      simp only [List.lookup_cons] at h
      split at h
      · cases h
        simp only [List.cons.sizeOf_spec, Prod.mk.sizeOf_spec]
        omega
      · have := ih h
        simp only [List.cons.sizeOf_spec]
        omega

theorem sizeOf_field (fields : Fields) (name : String) :
    sizeOf (Document.field fields name) ≤ sizeOf fields := by
  unfold Document.field
  cases h : fields.lookup (.plain name) with
  | none =>
      cases fields <;> simp
      omega
  | some v => exact Nat.le_of_lt (sizeOf_lookup h)

/-- A chain that is there is well inside the list of proofs. -/
theorem sizeOf_delegationChain {ps chain : List Value} (h : delegationChain ps = .ok chain) :
    chain = [] ∨ sizeOf chain + 4 ≤ sizeOf ps := by
  induction ps with
  | nil => simp_all [delegationChain]
  | cons p ps ih =>
      unfold delegationChain at h
      split at h
      · next heq => simp at heq
      · next fs qs heq =>
          cases heq
          split at h
          · have hf := sizeOf_field fs "capabilityChain"
            split at h
            · next e es hv =>
                cases h
                rw [hv] at hf
                refine .inr ?_
                simp only [Value.list.sizeOf_spec, List.cons.sizeOf_spec,
                  Value.object.sizeOf_spec] at hf ⊢
                have : 1 ≤ sizeOf ps := by cases ps <;> simp; omega
                omega
            · simp at h
          · refine (ih h).imp_right fun hle => ?_
            simp only [List.cons.sizeOf_spec]
            omega
      · next heq =>
          cases heq
          refine (ih h).imp_right fun hle => ?_
          simp only [List.cons.sizeOf_spec]
          omega

theorem sizeOf_proofList {v : Value} {ps : List Value} (h : proofList v = .ok ps) :
    sizeOf ps ≤ sizeOf v + 2 := by
  cases v <;> simp only [proofList] at h
  case null => cases h; simp
  case object => cases h; simp; omega
  case list =>
    split at h
    · cases h; simp; omega
    · simp at h
  all_goals simp at h

/-- A step behind another that ends well follows on a first step that ends
well. -/
theorem bind_eq_ok {ε α β : Type} {x : Except ε α} {f : α → Except ε β} {b : β} :
    (x >>= f) = .ok b ↔ ∃ a, x = .ok a ∧ f a = .ok b := by
  cases x <;> simp [bind, Except.bind]

theorem proof_readOwn {known : Registry} {fields : Fields} {c : Capability}
    (h : readOwn known fields = .ok c) :
    proofList (Document.field fields "proof") = .ok c.proof := by
  simp only [readOwn, bind_eq_ok] at h
  obtain ⟨_, _, _, _, _, _, ps, hp, _, _, _, _, _, _, _, _, _, _, _, _, _, _, hc⟩ := h
  cases hc
  exact hp

/-- The chain of a document is smaller than the document. -/
theorem sizeOf_chain_draft {known : Registry} {doc : Value} {c : Capability}
    (h : draft known doc = .ok c) : sizeOf c.chain < sizeOf doc := by
  unfold draft at h
  split at h
  · next fields =>
      split at h
      · simp at h
      · next own hown =>
          split at h
          · simp at h
          · next chain hchain =>
              cases h
              have h₁ := sizeOf_delegationChain hchain
              have h₂ := sizeOf_proofList (proof_readOwn hown)
              have h₃ := sizeOf_field fields "proof"
              simp only [Value.object.sizeOf_spec]
              rcases h₁ with h₁ | h₁
              · subst h₁
                have : 1 ≤ sizeOf fields := by cases fields <;> simp; omega
                simp
                omega
              · omega
  · simp at h

/-! ## §3. Chains. -/

/-- An entry of a delegation chain. -/
inductive ChainEntry where
  /-- The name of the root. -/
  | root (uri : Text)
  /-- A capability further down. -/
  | embedded (c : Capability)

/-- The name that an entry stands for. -/
def ChainEntry.id : ChainEntry → Text
  | .root uri => uri
  | .embedded c => c.id

/-- An entry as a literal. -/
def ChainEntry.literal : ChainEntry → String
  | .root uri => Json.recordLiteral "RootReference" [("uri", Text.quoted uri)]
  | .embedded c => Json.recordLiteral "EmbeddedCapability" [("capability", c.literal)]

/-- What a refused document in a chain means for the chain. -/
def inChain (index : Nat) : Refusal → ChainFault
  | .malformed f => .document index f
  | .chain f => f

/-- No text stands behind the first entry. -/
def checkReferences : Nat → List ChainEntry → Except ChainFault Unit
  | _, [] => .ok ()
  | index, .root uri :: _ => .error (.reference index uri)
  | index, .embedded _ :: es => checkReferences (index + 1) es

/-- The last entry is the parent, if there is one. -/
def checkParent (parent : Option Text) (last : ChainEntry) : Except ChainFault Unit :=
  match parent with
  | none => .ok ()
  | some expected =>
      if last.id = expected then .ok () else .error (.parent expected last.id)

/-- The shape of a chain. -/
def checkChain (parent : Option Text) : List ChainEntry → Except ChainFault Unit
  | [] => .ok ()
  | .root (.plain "") :: _ => .error .rootEmpty
  | e :: es => do
      checkReferences 1 es
      checkParent parent ((e :: es).getLast (by simp))

mutual

/-- The capability that a document denotes. -/
def read (known : Registry) (doc : Value) : Except Refusal Capability :=
  match _h : draft known doc with
  | .error r => .error r
  | .ok c =>
      match readEntries known 0 c.chain with
      | .error f => .error (.chain f)
      | .ok es =>
          match checkChain c.parent es with
          | .error f => .error (.chain f)
          | .ok () => .ok c
termination_by sizeOf doc
decreasing_by exact sizeOf_chain_draft _h

/-- The entries of a chain, the first of them at the given place. -/
def readEntries (known : Registry) (index : Nat) (chain : List Value) :
    Except ChainFault (List ChainEntry) :=
  match chain with
  | [] => .ok []
  | .text uri :: es =>
      match readEntries known (index + 1) es with
      | .error f => .error f
      | .ok rest => .ok (.root uri :: rest)
  | .object fields :: es =>
      match read known (.object fields) with
      | .error r => .error (inChain index r)
      | .ok c =>
          match readEntries known (index + 1) es with
          | .error f => .error f
          | .ok rest => .ok (.embedded c :: rest)
  | v :: _ => .error (.stray index v)
termination_by sizeOf chain

end

/-- The entries of a capability's chain. -/
def entries (known : Registry) (c : Capability) : Except ChainFault (List ChainEntry) :=
  readEntries known 0 c.chain

/-- The chain of a capability has a supported shape. -/
def validateChain (known : Registry) (c : Capability) : Except ChainFault Unit :=
  match c.entries known with
  | .error f => .error f
  | .ok es => checkChain c.parent es

/-- Reading a document is drafting it and checking the shape of its chain. -/
theorem read_eq (known : Registry) (doc : Value) :
    read known doc =
      match draft known doc with
      | .error r => .error r
      | .ok c =>
          match c.validateChain known with
          | .error f => .error (.chain f)
          | .ok () => .ok c := by
  rw [read]
  unfold validateChain entries
  split <;> rename_i h <;> rw [h]
  simp only
  split <;> simp_all

end Capability

end Mandate
