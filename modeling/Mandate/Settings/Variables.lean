/-
  Mandate.Settings.Variables
  ────────────────────────────────
  **SETTINGS IN VARIABLES.**

  One way of reading settings, the one that the program is run with: values come
  from variables, those of the environment and behind them those of a file.  The
  names of variables are read without regard to case, and of two variables of
  one name the later counts.

  Nothing that is said about commands rests on this.  They take their settings
  as they come (`Host.settings`).
-/
import Mandate.Host
import Mandate.Settings.Assignment
import Mandate.Settings.Numeral

namespace Mandate.Settings

open Files (Path)

/-! ## §1. Variables. -/

/-- A character of a name without its case.  The sign of a unit counts as the
letter that it is drawn as. -/
def foldCase (c : Char) : Char :=
  if c = '\u212A' then 'k' else c.toLower

/-- Two names are the same but for case. -/
def sameName (a b : String) : Bool :=
  a.toList.map foldCase == b.toList.map foldCase

/-- The value of a variable: that of the last entry of its name. -/
def value? (entries : Table String (Option String)) (name : String) : Option String :=
  (entries.reverse.find? fun e => sameName e.1 name).bind (·.2)

/-- Where values come from: the environment, and a file behind it. -/
structure Sources where
  environment : Table String String
  file : Table String (Option String)

/-- The value of a variable in the environment or else in the file. -/
def Sources.value? (s : Sources) (name : String) : Option String :=
  (Settings.value? (s.environment.map fun e => (e.1, some e.2)) name).or
    (Settings.value? s.file name)

/-- The sources of an environment and the characters of a file, if there is
one. -/
def Sources.of (environment : Table String String) (file : Option (List Char)) : Sources :=
  { environment, file := (file.map (fileVariables environment)).getD [] }

/-! ## §2. Problems. -/

/-- A variable whose value is no number of the kind that is asked for. -/
def numberProblem (name : String) : NumberFault → Problem
  | .noInteger =>
      { name, type := "int_parsing"
        message := "Input should be a valid integer, unable to parse string as an integer" }
  | .longInteger =>
      { name, type := "int_parsing_size"
        message := "Unable to parse input string as an integer, exceeded maximum size" }
  | .noNumber =>
      { name, type := "float_parsing"
        message := "Input should be a valid number, unable to parse string as a number" }

/-! ## §3. Reading. -/

/-- A value that is read if there is one, or a problem with it. -/
def readWith {α : Type} (read : String → Except NumberFault α) (s : Sources) (name : String)
    (default : α) : Except Problem α :=
  match s.value? name with
  | none => .ok default
  | some text => (read text).mapError (numberProblem name)

/-- The problem of a reading, if it has one. -/
def problem {α : Type} : Except Problem α → List Problem
  | .ok _ => []
  | .error p => [p]

/-- The names of the variables of numbers. -/
def cacheSizeName : String := "ZCAPLD_CACHE_MAX_SIZE"
def cacheLifetimeName : String := "ZCAPLD_RESOLVER_CACHE_TTL"
def timeoutName : String := "ZCAPLD_RESOLVER_TIMEOUT"
def clockSkewName : String := "ZCAPLD_PROOF_MAX_CLOCK_SKEW"

/-- The settings that sources hold, or all problems with them. -/
def read (s : Sources) : Except (List Problem) Settings :=
  let text (name default : String) : String := (s.value? name).getD default
  let double := readWith number s
  let cacheSize := readWith integer s cacheSizeName default.cacheSize
  let cacheLifetime := double cacheLifetimeName default.cacheLifetime
  let timeout := double timeoutName default.timeout
  let clockSkew := double clockSkewName default.clockSkew
  match cacheSize, cacheLifetime, timeout, clockSkew with
  | .ok cacheSize, .ok cacheLifetime, .ok timeout, .ok clockSkew =>
      .ok { logLevel := text "ZCAPLD_LOG_LEVEL" default.logLevel
            logFormat := text "ZCAPLD_LOG_FORMAT" default.logFormat
            logFile := s.value? "ZCAPLD_LOG_FILE"
            moduleLevels := text "ZCAPLD_MODULE_LOG_LEVELS" default.moduleLevels
            cacheSize, cacheLifetime, timeout
            baseUrl := s.value? "ZCAPLD_RESOLVER_BASE_URL"
            clockSkew }
  | _, _, _, _ =>
      .error (problem cacheSize ++ problem cacheLifetime ++ problem timeout ++ problem clockSkew)

/-! ## §4. The process. -/

variable {m : Type → Type} [Monad m]

/-- The file that settings are kept in. -/
def file : Path := Path.parse ".env"

/-- The characters of the settings' file, if there is one. -/
def fileText (files : Files.Access m) : m (Except Halt (Option (List Char))) := do
  if ← files.isFile file then
    match ← files.read file with
    | .error f => return .error (.file file f)
    | .ok bytes =>
        match Files.textOf bytes with
        | .error u => return .error (.failure (.undecodable u))
        | .ok cs => return .ok (some cs)
  else return .ok none

/-- The settings of a process with these files and this environment. -/
def ofProcess (files : Files.Access m) (environment : Table String String) :
    m (Except Halt Settings) := do
  match ← fileText files with
  | .error e => return .error e
  | .ok text => return (read (.of environment text)).mapError .settings

end Mandate.Settings
