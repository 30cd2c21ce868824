/-
  Mandate.Command.Run
  ────────────────────────────────
  **RUNNING THE PROGRAM.**

  The arguments are taken first, logging is set up next, and then the task is
  done.  A misuse of the program ends it before anything else happens.
-/
import Mandate.Command.Inspect
import Mandate.Command.Verify

namespace Mandate.Command

/-- How a run of the program ends. -/
inductive Outcome where
  | done (r : Report)
  | help
  | misuse (program : String) (fault : ArgumentFault)

variable {m : Type → Type} [Monad m]

/-- Set up logging.  What is asked for on the command line comes first, and log
lines on the error stream are texts. -/
def setUp (h : Host m) (logLevel : Option Text) : m (Except Halt Log.Setup) :=
  h.configure
    { level := logLevel.map .text
      json := some false, file := none, table := none }

/-- Do a task. -/
def perform (h : Host m) (setup : Log.Setup) : Task → m (Except Halt Report)
  | .verify t => verify h setup t
  | .inspect path => inspect h path

/-- Run the program. -/
def run (h : Host m) (arguments : List Text) : m (Except Halt Outcome) := do
  match parseCall arguments with
  | .error .help => return .ok .help
  | .error (.misuse program fault) => return .ok (.misuse program fault)
  | .ok call =>
      match ← setUp h call.logLevel with
      | .error e => return .error e
      | .ok setup => return (← perform h setup call.task).map .done

end Mandate.Command
