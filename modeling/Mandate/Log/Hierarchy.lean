/-
  Mandate.Log.Hierarchy
  ────────────────────────────────
  **LOGGERS AND THEIR LEVELS.**

  The loggers of a process form a tree by their dotted names, with one root
  above all of them.  A logger without a level, or with the level zero, has
  that of its nearest ancestor with another one, and at last that of the root.

  These are the loggers that every library of the process shares.  They know
  nothing of tables of thresholds; a table is applied to them.
-/
import Mandate.Log.Thresholds

namespace Mandate.Log

/-! ## §1. Ancestors. -/

/-- The names above a logger, the nearest first.  What stands in front of a dot
at the very beginning is no name, and of two dots side by side only the second
counts. -/
def ancestorsChars (cs : List Char) : List (List Char) :=
  if _h : cs = [] then []
  else
    let above := parentName cs
    if above.isEmpty then [] else above :: ancestorsChars above.dropLast
termination_by cs.length
decreasing_by
  have := parentName_length_lt _h
  simp only [List.length_dropLast]
  omega

/-- The names above a logger, the nearest first. -/
def ancestors (name : String) : List String :=
  (ancestorsChars name.toList).map String.ofList

/-! ## §2. Loggers. -/

/-- The levels that loggers have been given. -/
structure Loggers where
  root : Level
  own : Table String Level

namespace Loggers

/-- The names of the root. -/
def isRootName (name : String) : Bool := name == "" || name == "root"

/-- Give a logger a level. -/
def setLevel (l : Loggers) (name : String) (level : Level) : Loggers :=
  if isRootName name then { l with root := level } else { l with own := l.own.put name level }

/-- The level that a logger has been given, or zero. -/
def ownLevel (l : Loggers) (name : String) : Level :=
  if isRootName name then l.root else (l.own.lookup name).getD (.number 0)

/-- A level other than zero. -/
def proper? (level : Level) : Option Level :=
  if level.value = 0 then none else some level

/-- The level of a logger: its own or that of an ancestor, but for zeros. -/
def effective (l : Loggers) (name : String) : Level :=
  if isRootName name then l.root
  else ((name :: ancestors name).findSome? fun n => (l.own.lookup n).bind proper?).getD l.root

/-- Records of a level are written.  Levels below one never are. -/
def isEnabled (l : Loggers) (name : String) (level : Level) : Bool :=
  0 < level.value && (l.effective name).value ≤ level.value

/-- Give loggers the thresholds of a table, one after the other. -/
def applyAll (l : Loggers) (levels : Table String Level) : Loggers :=
  levels.foldl (fun l e => l.setLevel e.1 e.2) l

end Loggers

end Mandate.Log
