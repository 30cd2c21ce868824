/-
  Mandate.Log.Event
  ────────────────────────────────
  **EVENTS.**

  What a part of the library reports while it works: which part, how grave it
  is, a message, and data for an audit.  Where an event is written, and in what
  form, is decided elsewhere.
-/
import Mandate.Log.Level

namespace Mandate.Log

open Json (Value Fields)

/-- A reported event. -/
structure Event where
  logger : String
  level : Level
  message : Text
  extra : Option Value

namespace Event

/-- An event for those who look into details. -/
def debug (logger : String) (message : Text) : Event :=
  { logger, level := .debug, message, extra := none }

/-- An event of general interest, with its data. -/
def info (logger : String) (message : Text) (extra : Fields) : Event :=
  { logger, level := .info, message, extra := some (.object extra) }

end Event

end Mandate.Log
