/-
  Mandate.Files.Basic
  ────────────────────────────────
  **FILES.**

  What the library asks of the place where files are kept: whether there is a
  directory, which names it holds, what a file holds, and to write at the end
  of a file.  The answers may need any monad.
-/
import Mandate.Files.Path
import Mandate.Text.Decode
import Mandate.Text.Lines
import Mandate.Text.Quoted

namespace Mandate.Files

/-! ## §1. Faults. -/

/-- Why a file cannot be opened. -/
inductive OpenFault where
  | missing
  | notDirectory
  | isDirectory
  /-- Any other fault, by its number and words. -/
  | other (code : Nat) (text : String)
  deriving DecidableEq, Repr

namespace OpenFault

/-- The number of a fault. -/
def code : OpenFault → Nat
  | .missing => 2
  | .notDirectory => 20
  | .isDirectory => 21
  | .other code _ => code

/-- A fault in words. -/
def text : OpenFault → String
  | .missing => "No such file or directory"
  | .notDirectory => "Not a directory"
  | .isDirectory => "Is a directory"
  | .other _ text => text

/-- A fault in words, with its number and the path. -/
def message (f : OpenFault) (path : Path) : String :=
  "[Errno " ++ toString f.code ++ "] " ++ f.text ++ ": " ++ Text.quoted path.text

end OpenFault

/-! ## §2. Access. -/

/-- The place where files are kept. -/
structure Access (m : Type → Type) where
  isDirectory : Path → m Bool
  isFile : Path → m Bool
  /-- The names in a directory. -/
  names : Path → m (List Text)
  read : Path → m (Except OpenFault (List UInt8))
  /-- Write at the end of a file, which is made if there is none. -/
  append : Path → String → m (Except OpenFault Unit)

/-- The characters of a file's bytes, every line ending with a line feed. -/
def textOf (bytes : List UInt8) : Except Text.Undecodable (List Char) :=
  (Text.decodeFile bytes).map Text.withLineFeeds

end Mandate.Files
