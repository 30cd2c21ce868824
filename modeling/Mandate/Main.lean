/-
  Mandate.Main
  ────────────────────────────────
  **THE PROGRAM.**

  Runs a command against the world: files on disk, the variables of the
  process, the clock, and the standard streams.
-/
import Mandate.Command.Run
import Mandate.Log.Identifier
import Mandate.Settings.Variables
import Std.Time.DateTime.Timestamp

namespace Mandate.Program

open Files (Path OpenFault)

/-! ## §1. Files. -/

/-- The fault of a failed access. -/
def faultOf : IO.Error → OpenFault
  | .noFileOrDirectory .. => .missing
  | .permissionDenied _ code _ => .other code.toNat "Permission denied"
  | .otherError code details => .other code.toNat details
  | e => .other 5 (toString e)

/-- Bytes of a file on disk. -/
def readFile (p : Path) : IO (Except OpenFault (List UInt8)) := do
  let place := (← IO.currentDir) / p.text.withoutHalves
  if ← place.isDir then return .error .isDirectory
  try return .ok (← IO.FS.readBinFile place).data.toList
  catch e => return .error (faultOf e)

/-- Write at the end of a file on disk. -/
def appendFile (p : Path) (text : String) : IO (Except OpenFault Unit) := do
  let place := (← IO.currentDir) / p.text.withoutHalves
  if ← place.isDir then return .error .isDirectory
  try
    let handle ← IO.FS.Handle.mk place .append
    handle.putStr text
    return .ok ()
  catch e => return .error (faultOf e)

/-- The files on disk. -/
def disk : Files.Access IO where
  isDirectory p := do ((← IO.currentDir) / p.text.withoutHalves).isDir
  isFile p := do
    let place := (← IO.currentDir) / p.text.withoutHalves
    return (← place.pathExists) && !(← place.isDir)
  names p := do
    let entries ← ((← IO.currentDir) / p.text.withoutHalves).readDir
    return entries.toList.map fun entry => entry.fileName
  read := readFile
  append := appendFile

/-! ## §2. Surroundings. -/

/-- The start of the system's clock, in microseconds from the start of year
one. -/
def clockStart : Int := 719162 * (Time.day : Int)

/-- The current time; the start of the clock if the years of stamps are over. -/
def currentTime : IO Time.Stamp := do
  let nanos := (← Std.Time.Timestamp.now).toNanosecondsSinceUnixEpoch.val
  return (Time.Stamp.ofInstant? (clockStart + nanos.fdiv 1000)).getD ⟨⟨0, by decide⟩, .utc⟩

/-- A variable as the system lists it. -/
def variableOf (cs : List Char) : Option (String × String) :=
  (Text.cut? '=' cs).map fun p => (String.ofList p.1, String.ofList p.2)

/-- The variables of the process, as the system lists them. -/
def environment : IO (Table String String) := do
  try
    let bytes ← IO.FS.readBinFile "/proc/self/environ"
    match Text.decodeFile bytes.data.toList with
    | .ok cs => return (Text.splitOn '\x00' cs).filterMap variableOf
    | .error _ => return []
  catch _ => return []

/-- The world as the surroundings of a command. -/
def world : IO (Host IO) := do
  let stderr ← IO.getStderr
  return { files := disk
           settings := Settings.ofProcess disk (← environment)
           now := currentTime
           freshId := return Log.identifier (← IO.getRandomBytes 16).data.toList
           terminal := ← stderr.isTty
           complain := stderr.putStr
           outputFault? := Host.utf8Fault?
           headroom := .ample }

/-! ## §3. Endings. -/

/-- A run that did not do its work, as a line for the user. -/
def haltText : Halt → String
  | .failure f => f.message.withoutHalves
  | .settings problems =>
      String.intercalate "\n" (problems.map fun p => p.name ++ ": " ++ p.message)
  | .file path fault => fault.message path

/-- How the program is called. -/
def usage : String :=
  "usage: zcapld [-h] [--log-level LOG_LEVEL] \x7bverify,inspect\x7d ..."

/-- Say how a run ended, and give its status. -/
def finish : Except Halt Command.Outcome → IO UInt32
  | .ok (.done r) => do
      IO.print r.output.withoutHalves
      IO.eprint r.complaint.withoutHalves
      return r.status.code.toUInt32
  | .ok .help => do
      IO.println usage
      return 0
  | .ok (.misuse program fault) => do
      IO.eprintln (Command.misuseText program fault).withoutHalves
      return 2
  | .error e => do
      IO.eprintln (haltText e)
      return 1

end Mandate.Program

/-- Run the program. -/
def main (arguments : List String) : IO UInt32 := do
  Mandate.Program.finish (← Mandate.Command.run (← Mandate.Program.world)
    (arguments.map .plain))
