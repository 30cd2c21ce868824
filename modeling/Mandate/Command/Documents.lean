/-
  Mandate.Command.Documents
  ────────────────────────────────
  **DOCUMENTS IN FILES.**

  A file holds one document or a list of documents.  A directory stands for its
  files of documents, in the order of their names.
-/
import Mandate.Host

namespace Mandate.Command

open Files (Path OpenFault)
open Json (Value)

/-! ## §1. Faults. -/

/-- Why documents cannot be read. -/
inductive LoadFault where
  /-- No file can have the path. -/
  | unnamable (fault : Path.Fault)
  | unopened (path : Path) (fault : OpenFault)
  | misread (cause : Json.Misread)
  | undecodable (cause : Text.Undecodable)

namespace LoadFault

/-- The words of a fault that a user is told about.  Paths of no file, bytes that
are no text, numerals that no number is made of, and brackets that there is no
room for, are beyond that. -/
def message? : LoadFault → Option String
  | .unnamable _ => none
  | .unopened path fault => some (fault.message path)
  | .misread cause => if cause.cause.isLimit then none else some cause.message
  | .undecodable _ => none

/-- The end of a command that leaves it at the fault. -/
def halt : LoadFault → Halt
  | .unnamable (.halves u) => .failure (.unencodable u)
  | .unnamable .null => .failure (.foreign "ValueError" "embedded null byte")
  | .unopened path fault => .file path fault
  | .misread cause => .failure (.misread cause)
  | .undecodable cause => .failure (.undecodable cause)

end LoadFault

/-! ## §2. Reading. -/

/-- The value in the bytes of a file. -/
def readBytes (room : Json.Room) (bytes : List UInt8) : Except LoadFault Value :=
  match Files.textOf bytes with
  | .error u => .error (.undecodable u)
  | .ok cs => (Json.readWithin room (String.ofList cs)).mapError .misread

/-- The documents in a value: its items, or the value itself. -/
def documentsOf : Value → List Value
  | .list vs => vs
  | v => [v]

/-- A file of documents, by its name. -/
def isDocumentName (name : Text) : Bool :=
  (".json".toList.map Point.char).isSuffixOf name.points

/-- The files of documents in a directory, in the order of their names. -/
def documentPaths (directory : Path) (names : List Text) : List Path :=
  ((names.filter isDocumentName).mergeSort Text.le).map directory.child

variable {m : Type → Type} [Monad m]

section Loading

variable (room : Json.Room) (files : Files.Access m)

/-- The value in a file. -/
def loadValue (path : Path) : m (Except LoadFault Value) := do
  match path.fault? with
  | some fault => return .error (.unnamable fault)
  | none =>
      match ← files.read path with
      | .error fault => return .error (.unopened path fault)
      | .ok bytes => return readBytes room bytes

/-- The documents of several files, one after the other. -/
def loadFiles : List Path → m (Except LoadFault (List Value))
  | [] => return .ok []
  | path :: more => do
      match ← loadValue room files path with
      | .error e => return .error e
      | .ok v => return (← loadFiles more).map (documentsOf v ++ ·)

/-- The files that a path stands for. -/
def filesOf (path : Path) : m (List Path) := do
  if ← files.isDirectory path then return documentPaths path (← files.names path)
  else return [path]

/-- The documents at several paths, one after the other. -/
def loadDocuments : List Text → m (Except LoadFault (List Value))
  | [] => return .ok []
  | text :: more => do
      match ← loadFiles room files (← filesOf files (Path.parse text)) with
      | .error e => return .error e
      | .ok documents => return (← loadDocuments more).map (documents ++ ·)

end Loading

end Mandate.Command
