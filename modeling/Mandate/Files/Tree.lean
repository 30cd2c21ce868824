/-
  Mandate.Files.Tree
  ────────────────────────────────
  **A TREE OF FILES.**

  Files kept as a value: a table of paths, each with the bytes of a file or
  with a directory.  Whatever leads to an entry is a directory too, and so is
  the empty path.
-/
import Mandate.Files.Basic

namespace Mandate.Files

/-- The bytes of a file, or a directory. -/
inductive Entry where
  | file (bytes : List UInt8)
  | directory
  deriving DecidableEq

/-- Files and directories by the names that lead to them. -/
structure Tree where
  entries : List (List Text × Entry)

namespace Tree

/-- A tree without files. -/
def empty : Tree := ⟨[]⟩

/-- Add an entry, in place of an earlier one of its path. -/
def add (t : Tree) (names : List Text) (entry : Entry) : Tree :=
  ⟨(names, entry) :: t.entries.filter (·.1 != names)⟩

/-- What names lead to, if they lead to anything. -/
def entry? (t : Tree) (names : List Text) : Option Entry :=
  match t.entries.lookup names with
  | some entry => some entry
  | none =>
      if names.isEmpty || t.entries.any fun e => names.isPrefixOf e.1 then some .directory
      else none

/-- Follow names from a directory. -/
def follow (t : Tree) : (done : List Text) → List Text → Except OpenFault (List Text)
  | done, [] => .ok done
  | done, name :: more =>
      match t.entry? done with
      | none => .error .missing
      | some (.file _) => .error .notDirectory
      | some .directory => t.follow (Path.step done name) more

/-- The names that a path leads to.  Nothing is kept below the root. -/
def locate (t : Tree) (p : Path) : Except OpenFault (List Text) :=
  if p.root.isEmpty then t.follow [] p.names else .error .missing

/-- What a path leads to. -/
def find (t : Tree) (p : Path) : Except OpenFault Entry :=
  match t.locate p with
  | .error f => .error f
  | .ok names =>
      match t.entry? names with
      | some entry => .ok entry
      | none => .error .missing

/-- A path leads to a directory. -/
def isDirectory (t : Tree) (p : Path) : Bool :=
  match t.find p with
  | .ok .directory => true
  | _ => false

/-- A path leads to a file. -/
def isFile (t : Tree) (p : Path) : Bool :=
  match t.find p with
  | .ok (.file _) => true
  | _ => false

/-- The name behind a path that leads directly to an entry. -/
def nameBelow (names : List Text) (entry : List Text) : Option Text :=
  if names.isPrefixOf entry then entry[names.length]? else none

/-- The names in a directory, each of them once. -/
def names (t : Tree) (p : Path) : List Text :=
  match t.locate p with
  | .error _ => []
  | .ok names => (t.entries.filterMap fun e => nameBelow names e.1).eraseDups

/-- The bytes of a file. -/
def read (t : Tree) (p : Path) : Except OpenFault (List UInt8) :=
  match t.find p with
  | .ok (.file bytes) => .ok bytes
  | .ok .directory => .error .isDirectory
  | .error f => .error f

/-- Write at the end of a file. -/
def append (t : Tree) (p : Path) (bytes : List UInt8) : Except OpenFault Tree :=
  match t.locate p with
  | .error f => .error f
  | .ok names =>
      match t.entry? names with
      | some .directory => .error .isDirectory
      | some (.file old) => .ok (t.add names (.file (old ++ bytes)))
      | none => .ok (t.add names (.file bytes))

/-- A tree as the place where files are kept. -/
def files : Access (StateM Tree) where
  isDirectory p := return (← get).isDirectory p
  isFile p := return (← get).isFile p
  names p := return (← get).names p
  read p := return (← get).read p
  append p text := do
    match (← get).append p text.toUTF8.data.toList with
    | .ok t => set t; return .ok ()
    | .error f => return .error f

end Tree

end Mandate.Files
