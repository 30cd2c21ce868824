/-
  Mandate.Settings.Basic
  ────────────────────────────────
  **SETTINGS.**

  Everything that a user may set has a default.  Where the values come from, and
  which texts are values, is left to whoever reads the settings: they are read
  as a whole, or all that is wrong with them is told.
-/
import Mandate.Number.Binary64

namespace Mandate

/-- The settings of a process. -/
structure Settings where
  /-- The level of the root logger. -/
  logLevel : String
  /-- The form of log lines; any word but two leaves the choice open. -/
  logFormat : String
  logFile : Option String
  /-- Thresholds by module, as a specification. -/
  moduleLevels : String
  /-- The most capabilities that a cache of capabilities holds. -/
  cacheSize : Int
  /-- The seconds that a capability stays in a cache. -/
  cacheLifetime : Binary64
  /-- The seconds that a fetch may take. -/
  timeout : Binary64
  /-- The address that names are looked up below. -/
  baseUrl : Option String
  /-- The seconds that a proof's time may be off. -/
  clockSkew : Binary64
  deriving DecidableEq

namespace Settings

/-- A whole number of seconds. -/
def seconds (n : Nat) : Binary64 :=
  Binary64.ofRatio false n 1

/-- The settings of a process without variables. -/
def default : Settings :=
  { logLevel := "INFO", logFormat := "", logFile := none, moduleLevels := "", cacheSize := 1000,
    cacheLifetime := seconds 300, timeout := seconds 10, baseUrl := none,
    clockSkew := seconds 300 }

/-- An unusable setting: the variable, a word for what is wrong with its value, and the same in
words. -/
structure Problem where
  name : String
  type : String
  message : String
  deriving DecidableEq, Repr

end Settings

end Mandate
