/-
  Mandate.Log.Setup
  ────────────────────────────────
  **SETTING UP LOGGING.**

  Records go to the error stream, and to a file if one is named.  On the error
  stream they have the form that is asked for, or that is set, or else a text
  for a terminal and objects for anything else.  In a file they are objects.

  What is asked for comes before what is set, and what is set before the
  defaults.
-/
import Mandate.Log.Hierarchy
import Mandate.Log.Record
import Mandate.Settings.Basic

namespace Mandate.Log

open Json (Value)

/-- What a caller asks for. -/
structure Request where
  /-- The level of the root, as a number or a name. -/
  level : Option Value
  /-- Objects on the error stream, or texts. -/
  json : Option Bool
  /-- The file to write to; an empty name is none. -/
  file : Option String
  table : Option Thresholds

/-- How a process logs. -/
structure Setup where
  root : Level
  table : Thresholds
  /-- The form of records on the error stream. -/
  console : Form
  file : Option String

namespace Setup

/-- The form that a setting asks for, if it asks for one. -/
def wantsJson (s : Settings) : Option Bool :=
  match s.logFormat.toLower with
  | "json" => some true
  | "text" => some false
  | _ => none

/-- The form of records on the error stream. -/
def consoleForm (s : Settings) (terminal : Bool) (json : Option Bool) : Form :=
  if (json.or (wantsJson s)).getD !terminal then .json else .text terminal

/-- The level of the root. -/
def rootLevel (s : Settings) (level : Option Value) : Except Failure Level :=
  Level.read (level.getD (.text s.logLevel))

/-- The table of thresholds: the given one, or the one that is set. -/
def chooseTable (s : Settings) (root : Level) : Option Thresholds → Except Failure Thresholds
  | some t => .ok t
  | none => (Thresholds.ofSpec s.moduleLevels root).mapError fun f => .fault (.setting f)

/-- How a process logs that has the given settings and asks for the given
things. -/
def of (s : Settings) (terminal : Bool) (r : Request) : Except Failure Setup := do
  let root ← rootLevel s r.level
  let table ← chooseTable s root r.table
  return { root, table, console := consoleForm s terminal r.json,
           file := (r.file.or s.logFile).filter fun name => !name.isEmpty }

/-- Libraries that report too much, and the level that they are held to. -/
def heldBack : Table String Level :=
  [("httpx", .warning), ("httpcore", .warning)]

/-- The loggers of the process, once everything is set up. -/
def loggers (s : Setup) : Loggers :=
  (Loggers.applyAll ⟨s.root, []⟩ s.table.levels).applyAll heldBack

/-- A record as the setup shows it: whether its source is shown is up to the
table. -/
def present (s : Setup) (r : Record) : Record :=
  { r with showCaller := s.table.showsCaller r.logger r.level }

end Setup

end Mandate.Log
