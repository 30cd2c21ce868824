/-
  Mandate.Command.Report
  ────────────────────────────────
  **REPORTS.**

  What a command leaves behind: a status, what it says on the output, and what
  it says on the error stream behind any log lines.
-/
import Mandate.Command.Documents

namespace Mandate.Command

/-- The end of a command. -/
inductive Status where
  /-- Done, or authorized. -/
  | ok
  | denied
  /-- The input cannot be read, or is none. -/
  | inputError
  deriving DecidableEq, Repr

/-- The number of a status. -/
def Status.code : Status → Nat
  | .ok => 0
  | .denied => 1
  | .inputError => 2

/-- What a command leaves behind. -/
structure Report where
  status : Status
  output : Text
  complaint : Text
  deriving DecidableEq, Repr

namespace Report

/-- A line on the output. -/
def line (status : Status) (text : Text) : Report :=
  { status, output := text ++ "\n", complaint := "" }

/-- A complaint about the input. -/
def complain (text : Text) : Report :=
  { status := .inputError, output := "", complaint := text ++ "\n" }

/-- The input cannot be read.  `what` says which part of it. -/
def unreadable (what : String) (fault : LoadFault) : Except Halt Report :=
  match fault.message? with
  | some text => .ok (complain ("Cannot read " ++ what ++ ": " ++ text))
  | none => .error fault.halt

/-- The input is no capability. -/
def invalid (text : Text) : Report :=
  complain ("Invalid capability document: " ++ text)

/-- A report is left behind, unless the output does not take what it says. -/
def deliver {m : Type → Type} (h : Host m) (r : Report) : Except Halt Report :=
  if r.output.isEmpty then .ok r
  else
    match h.outputFault? r.output with
    | some f => .error (.failure f)
    | none => .ok r

end Report

end Mandate.Command
