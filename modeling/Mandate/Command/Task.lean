/-
  Mandate.Command.Task
  ────────────────────────────────
  **THE TASKS OF THE PROGRAM.**

  The program has two tasks, each a subcommand: to verify an invocation of a
  capability, and to inspect a capability.
-/
import Mandate.Command.Arguments

namespace Mandate.Command

/-! ## §1. Tasks. -/

/-- An invocation to verify. -/
structure VerifyTask where
  /-- The file of the invoked capability. -/
  capability : Text
  /-- Files and directories of further capabilities. -/
  store : List Text
  action : Text
  /-- The action that is expected; the same one if not given. -/
  expectedAction : Option Text
  method : Text
  controller : Text
  expectedTarget : Text
  expectedRoot : Text
  json : Bool
  deriving DecidableEq, Repr

/-- What the program is asked to do. -/
inductive Task where
  | verify (t : VerifyTask)
  /-- Inspect the capability in a file. -/
  | inspect (capability : Text)
  deriving DecidableEq, Repr

/-- What the program is called with. -/
structure Call where
  logLevel : Option Text
  task : Task
  deriving DecidableEq, Repr

/-! ## §2. Grammars. -/

/-- The name of the program. -/
def programName : String := "zcapld"

/-- The option of all commands. -/
def helpOption : OptionSpec := ⟨["-h", "--help"], .help, false⟩

/-- An option with a value that may be left out. -/
def valueOption (name : String) : OptionSpec := ⟨[name], .value, false⟩

/-- The arguments of the program. -/
def programGrammar : Grammar :=
  { program := programName
    options := [helpOption, valueOption "--log-level"]
    operand := .subcommand "command" ["verify", "inspect"] }

/-- The arguments of verifying. -/
def verifyGrammar : Grammar :=
  { program := programName ++ " verify"
    options :=
      [helpOption, ⟨["--capability", "-c"], .value, true⟩, ⟨["--store", "-s"], .list, false⟩,
       ⟨["--action", "-a"], .value, true⟩, valueOption "--expected-action",
       ⟨["--verification-method", "-m"], .value, true⟩, valueOption "--controller",
       valueOption "--expected-target", valueOption "--expected-root", ⟨["--json"], .flag, false⟩]
    operand := .none }

/-- The arguments of inspecting. -/
def inspectGrammar : Grammar :=
  { program := programName ++ " inspect", options := [helpOption], operand := .single "capability" }

/-! ## §3. Calls. -/

/-- Why there is no task. -/
inductive NoTask where
  /-- Help is asked for. -/
  | help
  /-- A command is called with unusable arguments. -/
  | misuse (program : String) (fault : ArgumentFault)
  deriving DecidableEq, Repr

/-- A misuse as a line for the user. -/
def misuseText (program : String) (fault : ArgumentFault) : Text :=
  program ++ ": error: " ++ fault.message

/-- The arguments of a command by its grammar. -/
def parseWith (g : Grammar) (arguments : List Text) : Except NoTask Taken :=
  (g.parse arguments).mapError fun
    | .help => .help
    | .fault f => .misuse g.program f

/-- Verifying, by its arguments. -/
def VerifyTask.of (t : Taken) : VerifyTask :=
  let text (name : String) : Text := (t.value? name).getD ""
  { capability := text "--capability", store := t.values "--store", action := text "--action"
    expectedAction := t.value? "--expected-action"
    method := text "--verification-method", controller := text "--controller"
    expectedTarget := text "--expected-target", expectedRoot := text "--expected-root"
    json := t.has "--json" }

/-- A subcommand's task, and the arguments that it does not take. -/
def parseTask : List Text → Except NoTask (Task × List Text)
  | .plain "inspect" :: arguments =>
      (parseWith inspectGrammar arguments).map fun t =>
        (.inspect (t.operand.headD ""), t.unrecognized)
  | arguments =>
      (parseWith verifyGrammar (arguments.drop 1)).map fun t =>
        (.verify (.of t), t.unrecognized)

/-- What the program is called with.  Arguments that no command takes are a
misuse of the program. -/
def parseCall (arguments : List Text) : Except NoTask Call := do
  let taken ← parseWith programGrammar arguments
  let (task, left) ← parseTask taken.operand
  let unrecognized := taken.unrecognized ++ left
  if unrecognized.isEmpty then return { logLevel := taken.value? "--log-level", task }
  else throw (.misuse programName (.unrecognized unrecognized))

end Mandate.Command
