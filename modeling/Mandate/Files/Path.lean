/-
  Mandate.Files.Path
  ────────────────────────────────
  **PATHS.**

  A path is a list of names, below the root or below the current directory.
  Empty names and single dots are no names, so a path has one written form.
-/
import Mandate.Text.Encode
import Mandate.Text.Split

namespace Mandate.Files

/-- The names that lead to a file. -/
structure Path where
  /-- What stands in front of the names of a path below the root. -/
  root : String
  names : List Text
  deriving DecidableEq, Repr

namespace Path

/-- What stands for the root at the head of a path: one slash, or two of them
that are not followed by a third. -/
def rootOf (ps : List Point) : String :=
  match ps with
  | .char '/' :: .char '/' :: .char '/' :: _ => "/"
  | .char '/' :: .char '/' :: _ => "//"
  | .char '/' :: _ => "/"
  | _ => ""

/-- The path that a text denotes. -/
def parse (text : Text) : Path :=
  let ps := text.points
  { root := rootOf ps
    names := ((Text.splitOn (.char '/') ps).map Text.ofPoints).filter fun name =>
      !(name.isEmpty || name == ".") }

/-- A path in its written form. -/
def text (p : Path) : Text :=
  if p.root.isEmpty && p.names.isEmpty then "." else p.root ++ Text.joined "/" p.names

/-- Why no file can have a path. -/
inductive Fault where
  /-- It cannot be written in bytes. -/
  | halves (u : Text.Unencodable)
  /-- It has a null character. -/
  | null
  deriving DecidableEq, Repr

/-- Why no file can have the path, if so. -/
def fault? (p : Path) : Option Fault :=
  match p.text.fileFault? 0 with
  | some u => some (.halves u)
  | none => if p.text.points.contains (.char '\x00') then some .null else none

/-- The path of a file in a directory. -/
def child (p : Path) (name : Text) : Path :=
  { p with names := p.names ++ [name] }

/-- One name further, two dots leading back. -/
def step (done : List Text) (name : Text) : List Text :=
  if name = ".." then done.dropLast else done ++ [name]

/-- A path without the names that two dots lead back over. -/
def collapse (p : Path) : Path :=
  { p with names := p.names.foldl step [] }

end Path

end Mandate.Files
