/-
  Mandate.Capability.Headroom
  ────────────────────────────────
  **ROOM ON THE CALL STACK.**

  Documents nest, and whoever reads one goes as deep.  How deep a process can go
  is its own affair (`Headroom`): some texts have more brackets open at once
  than there is room for, and some documents need more room still before they
  are capabilities.  Where it runs out, the process is not told that the
  document is malformed; it fails in a way of its own (`Failure.exhausted`).
-/
import Mandate.Capability.Reader

namespace Mandate

open Json (Value)

/-- How deep a process can go. -/
structure Headroom where
  /-- The brackets that may be open at once while a text is read. -/
  brackets : Json.Room
  /-- The documents that there is room for, from taking them as capabilities on. -/
  bears : Value → Bool

/-- Room for anything. -/
def Headroom.ample : Headroom := ⟨none, fun _ => true⟩

/-- The failure of a process that has no room left. -/
def Failure.exhausted : Failure :=
  .foreign "RecursionError" "maximum recursion depth exceeded"

/-- Why a document does not become a capability. -/
inductive NotTaken where
  | refused (r : Refusal)
  /-- There is no room left. -/
  | exhausted

namespace Capability

/-- Take a document as a capability. -/
def take (room : Headroom) (known : Registry) (document : Value) : Except NotTaken Capability :=
  if room.bears document then
    match read known document with
    | .ok c => .ok c
    | .error r => .error (.refused r)
  else .error .exhausted

variable {room : Headroom} {known : Registry} {document : Value}

/-- What becomes a capability is what there is room for and can be read. -/
theorem take_eq_ok_iff {c : Capability} :
    take room known document = .ok c ↔
      room.bears document = true ∧ read known document = .ok c := by
  unfold take
  cases room.bears document <;> cases read known document <;> simp

theorem take_eq_refused_iff {r : Refusal} :
    take room known document = .error (.refused r) ↔
      room.bears document = true ∧ read known document = .error r := by
  unfold take
  cases room.bears document <;> cases read known document <;> simp

theorem take_eq_exhausted_iff :
    take room known document = .error .exhausted ↔ room.bears document = false := by
  unfold take
  cases room.bears document <;> cases read known document <;> simp

end Capability

end Mandate
