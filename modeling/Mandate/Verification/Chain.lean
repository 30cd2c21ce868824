/-
  Mandate.Verification.Chain
  ────────────────────────────────
  **THE CHAIN PHASE.**

  Whether a capability may be used for an action is decided in two halves, with
  one question to a resolver between them.

      anchor   — from the capability alone: which root has to be asked for
      judge    — from the capability and that root: whether the action is
                 authorized

  The root is always asked for.  A root that was submitted carries no proof and
  counts for nothing but its name, its actions and its invokers.
-/
import Mandate.Invocation.Basic

namespace Mandate.Verification

open Time (Stamp)

/-- What stands in front of every denial of this phase. -/
def chainLead : String := "invalid capability chain"

/-! ## §1. Which root. -/

/-- The name of the root of a capability whose chain has the given entries. -/
def rootName (c : Capability) : List Capability.ChainEntry → Except ChainFault Text
  | [] => .ok c.id
  | .root uri :: _ => .ok uri
  | .embedded d :: _ =>
      .error (.root c.id (Capability.ChainEntry.embedded d).literal)

/-- The name of the root to ask for, once the capability has passed on its
own. -/
def anchor (known : Registry) (c : Capability) (action : Text) (inv : Invocation) :
    Except Denial Text :=
  if c.excludes action then
    .error (.plain (.actionNotAllowed action c.allowedAction))
  else if inv.action ≠ action then
    .error (.plain (.actionMismatch inv.action action))
  else
    match c.entries known with
    | .error f => .error ((Denial.plain (.chain f)).wrap chainLead)
    | .ok es =>
        match Capability.checkChain c.parent es with
        | .error f => .error ((Denial.plain (.chain f)).wrap chainLead)
        | .ok () =>
            match rootName c es with
            | .error f => .error (.plain (.chain f))
            | .ok uri => .ok uri

/-! ## §2. Restrictions. -/

/-- The caveats and the end of validity of one capability of the chain. -/
def checkRestrictions (o : Occasion) (c : Capability) : Except Failure Unit := do
  c.caveats.forM (Caveat.check o)
  match c.expires with
  | none => .ok ()
  | some t =>
      if o.reached t then do
        .error (.denied (.expired c.id (← Document.timeText t)))
      else .ok ()

/-! ## §3. Judging by the root. -/

/-- The invocation agrees with the root on the target. -/
def checkTarget (root : Capability) (inv : Invocation) : Except Failure Unit :=
  if inv.target ≠ "" ∧ inv.target ≠ root.target.id then
    .error (.denied (.targetMismatch inv.target root.target.id))
  else .ok ()

/-- The root is the expected one; where none is expected, it is its own
target. -/
def checkRoot (root : Capability) (inv : Invocation) : Except Failure Unit :=
  if inv.root ≠ "" ∧ inv.root ≠ root.id then
    .error (.denied (.rootMismatch inv.root root.id))
  else if inv.root = "" ∧ root.target.id ≠ root.id then
    .error (.denied (.rootTarget root.id root.target.id))
  else .ok ()

/-- The occasion that restrictions are held against: the expected target, or
the root's target if none is expected. -/
def occasion (now : Stamp) (action : Text) (inv : Invocation) (root : Capability) : Occasion :=
  { now, action, target := if inv.target = "" then root.target.id else inv.target }

/-- Whether a capability may be used for an action, given its root. -/
def judge (now : Stamp) (c : Capability) (action : Text) (inv : Invocation)
    (root : Capability) : Except Failure Unit := do
  if root.excludes action then
    .error (.denied (.actionNotAllowedByRoot action root.allowedAction root.id))
  checkTarget root inv
  checkRestrictions (occasion now action inv root) root
  checkRoot root inv
  if c.isRoot then .ok ()
  else if 1 < c.chain.length then
    .error (.denied (.chainDepth c.id c.chain.length))
  else checkRestrictions (occasion now action inv root) c

end Mandate.Verification
