/-
  Mandate.Log.Level
  ────────────────────────────────
  **LEVELS.**

  A level is an integer: the higher, the graver.  Six of them have names, two
  of which have a second name.  A name is read without regard to case and to
  blanks around it, and case is that of all scripts: a dotless i is an I, a
  ligature its letters.
-/
import Mandate.Fault.Failure
import Mandate.Text.Blank

namespace Mandate.Log

open Json (Value)

/-- A level of gravity: a number, or a truth value that counts as one or
zero. -/
inductive Level where
  | number (n : Int)
  | flag (b : Bool)
  deriving DecidableEq, Inhabited, Repr

namespace Level

/-- The number that a level counts as. -/
def value : Level → Int
  | .number n => n
  | .flag b => if b then 1 else 0

/-- A level as a document value. -/
def toJson : Level → Value
  | .number n => .int n
  | .flag b => .bool b

def debug : Level := .number 10
def info : Level := .number 20
def warning : Level := .number 30
def error : Level := .number 40
def critical : Level := .number 50

/-! ## §1. Names. -/

/-- The levels that have a name of their own. -/
def names : List (Int × String) :=
  [(50, "CRITICAL"), (40, "ERROR"), (30, "WARNING"), (20, "INFO"), (10, "DEBUG"), (0, "NOTSET")]

/-- The level of each name, second names included. -/
def ofNames : List (String × Int) :=
  [("CRITICAL", 50), ("FATAL", 50), ("ERROR", 40), ("WARN", 30), ("WARNING", 30), ("INFO", 20),
   ("DEBUG", 10), ("NOTSET", 0)]

/-- The name that a level is shown by. -/
def name (l : Level) : String :=
  match names.lookup l.value with
  | some n => n
  | none =>
      match l with
      | .number n => "Level " ++ toString n
      | .flag b => "Level " ++ (Value.bool b).literal

/-! ## §2. Reading. -/

/-- The letters outside ASCII whose capitals are letters of ASCII. -/
def capitalsOutside : List (Char × List Char) :=
  [('ß', ['S', 'S']), ('ı', ['I']), ('ſ', ['S']), ('ﬀ', ['F', 'F']), ('ﬁ', ['F', 'I']),
   ('ﬂ', ['F', 'L']), ('ﬃ', ['F', 'F', 'I']), ('ﬄ', ['F', 'F', 'L']), ('ﬅ', ['S', 'T']),
   ('ﬆ', ['S', 'T'])]

/-- The capitals of a letter as far as they are letters of ASCII; any other
character stays. -/
def capitals (c : Char) : List Char :=
  (capitalsOutside.lookup c).getD [c.toUpper]

/-- The level of a name. -/
def ofName? (s : String) : Option Level :=
  let key := String.ofList ((Text.trimChars s.toList).flatMap capitals)
  (ofNames.lookup key).map .number

/-- The level that a text names. -/
def parse (s : String) : Except SettingFault Level :=
  match ofName? s with
  | some l => .ok l
  | none => .error (.unknownLevel s)

/-- The level that a value stands for: a number or a truth value for itself, a
text for the level of its name. -/
def read : Value → Except Failure Level
  | .number (.int n) => .ok (.number n)
  | .bool b => .ok (.flag b)
  | .text (.plain s) =>
      match parse s with
      | .ok l => .ok l
      | .error f => .error (.fault (.setting f))
  | .text (.torn front half rest) =>
      .error (.fault (.setting (.unknownLevel (.torn front half rest))))
  | v => .error (.shape v "strip")

end Level

end Mandate.Log
