/-
  Mandate.Command.Inspect
  ────────────────────────────────
  **INSPECTING ON THE COMMAND LINE.**

  The summary of a capability has what a check looks at: its target, actions,
  invokers, parent, chain and caveats.
-/
import Mandate.Capability.Writer
import Mandate.Command.Report

namespace Mandate.Command

open Json (Value Fields)

/-- An entry of a chain in a summary. -/
def entryValue : Capability.ChainEntry → Value
  | .root uri => .object [("root", .text uri)]
  | .embedded c => .object [("capability", .text c.id)]

/-- The summary of a capability with the given invokers. -/
def summary (c : Capability) (invokers : List Text) : Except Failure Value := do
  let entries ← (c.entries .builtIn).mapError fun f => .refused (.chain f)
  let caveats ← c.caveats.mapM (·.toJson)
  return .object
    [("id", .text c.id),
     ("invocationTarget", c.target.toJson),
     ("allowedAction", .list c.allowedAction),
     ("invokers", .texts invokers),
     ("parentCapability", .ofText? c.parent),
     ("root", .bool c.isRoot),
     ("capabilityChain", .list (entries.map entryValue)),
     ("caveats", .list caveats)]

/-- The report on the value of a file. -/
def inspectValue (room : Headroom) (document : Value) : Except Failure Report :=
  match Capability.take room .builtIn document with
  | .error (.refused r) => .ok (.invalid r.message)
  | .error .exhausted => .error .exhausted
  | .ok c =>
      match c.invokers with
      | .error f => .ok (.invalid f.message)
      | .ok invokers => (summary c invokers).map fun v => .line .ok v.indented

/-- Show the parts of a capability that a check looks at. -/
def inspect {m : Type → Type} [Monad m] (h : Host m) (path : Text) : m (Except Halt Report) := do
  match ← loadValue h.headroom.brackets h.files (Files.Path.parse path) with
  | .error f => return Report.unreadable "capability document" f
  | .ok document =>
      return (inspectValue h.headroom document).mapError .failure >>= Report.deliver h

end Mandate.Command
