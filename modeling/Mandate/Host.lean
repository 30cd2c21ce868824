/-
  Mandate.Host
  ────────────────────────────────
  **THE SURROUNDINGS OF A COMMAND.**

  What a command needs of the process that it runs in: files, settings, the
  time, fresh identifiers, the standard streams and the call stack.  They may
  need any monad, so a command can run against the world or against values.
-/
import Mandate.Capability.Headroom
import Mandate.Files.Basic
import Mandate.Log.Setup

namespace Mandate

open Files (Path OpenFault)

/-- Why a command ends without having done its work. -/
inductive Halt where
  | failure (f : Failure)
  /-- Unusable settings. -/
  | settings (problems : List Settings.Problem)
  /-- A file of the process itself that cannot be opened. -/
  | file (path : Path) (fault : OpenFault)

/-- The surroundings of a command. -/
structure Host (m : Type → Type) where
  files : Files.Access m
  /-- Read the settings. -/
  settings : m (Except Halt Settings)
  now : m Time.Stamp
  freshId : m String
  /-- The error stream is a terminal. -/
  terminal : Bool
  /-- Write to the error stream, which takes anything. -/
  complain : String → m Unit
  /-- The failure with which the output does not take a text, if it does not. -/
  outputFault? : Text → Option Failure
  headroom : Headroom

namespace Host

variable {m : Type → Type} [Monad m]

/-- The failure of a stream in UTF-8 with a text, which must not have halves. -/
def utf8Fault? (text : Text) : Option Failure :=
  match text.encoded with
  | .ok _ => none
  | .error u => some (.unencodable u)

/-- The path of a file of log lines. -/
def logPath (name : String) : Path := (Path.parse name).collapse

/-- Set up logging.  A file of log lines is there from now on. -/
def configure (h : Host m) (r : Log.Request) : m (Except Halt Log.Setup) := do
  match ← h.settings with
  | .error e => return .error e
  | .ok s =>
      match Log.Setup.of s h.terminal r with
      | .error e => return .error (.failure e)
      | .ok setup =>
          match setup.file with
          | none => return .ok setup
          | some name =>
              match ← h.files.append (logPath name) "" with
              | .error f => return .error (.file (logPath name) f)
              | .ok () => return .ok setup

/-- Write a line somewhere, if there is one. -/
def writeLine (write : String → m Unit) : Except Log.Template.Fault Text → m Unit
  | .ok line => write (line.withoutHalves ++ "\n")
  | .error _ => pure ()

/-- Write a record to wherever the setup says.  A record whose message cannot be
filled in is not written. -/
def write (h : Host m) (s : Log.Setup) (correlation : Option Text) (r : Log.Record) :
    m Unit := do
  if s.loggers.isEnabled r.logger r.level then
    let now ← h.now
    let r := s.present r
    writeLine h.complain (s.console.line r now correlation)
    match s.file with
    | none => pure ()
    | some name =>
        writeLine (fun text => do let _ ← h.files.append (logPath name) text)
          (Log.Form.json.line r now correlation)

/-- Write down an event of the library. -/
def note (h : Host m) (s : Log.Setup) (correlation : Option Text) (e : Log.Event) : m Unit :=
  h.write s correlation e.record

end Host

end Mandate
