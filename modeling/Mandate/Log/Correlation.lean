/-
  Mandate.Log.Correlation
  ────────────────────────────────
  **CORRELATION IDENTIFIERS.**

  What is logged on behalf of one request carries the request's identifier.
  Requests may nest: leaving one brings back whatever identifier was current
  when it was entered.
-/
import Mandate.Text.Basic

namespace Mandate.Log

/-- The current identifier, and those to come back to. -/
structure Correlation where
  current : Option Text
  outer : List (Option Text)
  deriving DecidableEq, Repr

namespace Correlation

/-- No identifier. -/
def none : Correlation := ⟨Option.none, []⟩

/-- Change the current identifier. -/
def set (c : Correlation) (id : Option Text) : Correlation :=
  { c with current := id }

/-- The identifier of a request: the given one, or a fresh one. -/
def choose (fresh : Text) (given : Option Text) : Text :=
  match given with
  | some id => if id.isEmpty then fresh else id
  | Option.none => fresh

/-- Enter a request. -/
def enter (c : Correlation) (id : Text) : Correlation :=
  ⟨some id, c.current :: c.outer⟩

/-- Leave the innermost request. -/
def leave (c : Correlation) : Correlation :=
  match c.outer with
  | id :: outer => ⟨id, outer⟩
  | [] => c

@[simp] theorem leave_set_enter (c : Correlation) (id : Text) (changed : Option Text) :
    ((c.enter id).set changed).leave = c := rfl

end Correlation

end Mandate.Log
