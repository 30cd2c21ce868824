/-
  Mandate.Log.Thresholds
  ────────────────────────────────
  **THRESHOLDS BY MODULE.**

  Modules have dotted names, and a module without a threshold of its own has
  that of its nearest ancestor, or the default if no ancestor has one.  The
  same ancestors decide for which levels the source location is shown.

  The ancestors of a name are the name itself and what is left of it in front
  of each dot, from the last to the first (`lineage`).

  A table may be given as a text, `module=LEVEL,module=LEVEL`.
-/
import Mandate.Log.Level
import Mandate.Text.Split

namespace Mandate.Log

/-! ## §1. Ancestors. -/

/-- What stands in front of the last dot; nothing without a dot. -/
def parentName (cs : List Char) : List Char :=
  ((cs.reverse.dropWhile (· != '.')).drop 1).reverse

theorem parentName_length_lt {cs : List Char} (h : cs ≠ []) :
    (parentName cs).length < cs.length := by
  have hle := (List.dropWhile_sublist (l := cs.reverse) (· != '.')).length_le
  have : cs.length ≠ 0 := by simpa using h
  simp only [parentName, List.length_reverse, List.length_drop]
  rw [List.length_reverse] at hle
  omega

/-- A name and its ancestors, the nearest first.  The empty name is none. -/
def lineageChars (cs : List Char) : List (List Char) :=
  if _h : cs = [] then [] else cs :: lineageChars (parentName cs)
termination_by cs.length
decreasing_by exact parentName_length_lt _h

/-- A module and its ancestors, the nearest first. -/
def lineage (module : String) : List String :=
  (lineageChars module.toList).map String.ofList

/-! ## §2. Tables. -/

/-- Thresholds by module, and the levels for which a module shows where an
event came from. -/
structure Thresholds where
  default : Level
  levels : Table String Level
  shown : List (String × Int)

namespace Thresholds

/-- A table that knows nothing but its default. -/
def plain (default : Level) : Thresholds :=
  { default, levels := [], shown := [] }

/-- Set the threshold of a module. -/
def setLevel (t : Thresholds) (module : String) (level : Level) : Thresholds :=
  { t with levels := t.levels.put module level }

/-- The threshold of a module: that of its nearest ancestor with one. -/
def level (t : Thresholds) (module : String) : Level :=
  ((lineage module).findSome? fun name => t.levels.lookup name).getD t.default

/-- An event of a level passes the threshold of a module. -/
def isEnabled (t : Thresholds) (module : String) (level : Level) : Bool :=
  (t.level module).value ≤ level.value

/-- Show where events of a module and a level came from. -/
def showCaller (t : Thresholds) (module : String) (level : Level) : Thresholds :=
  if t.shown.contains (module, level.value) then t
  else { t with shown := t.shown ++ [(module, level.value)] }

/-- Show it no more. -/
def hideCaller (t : Thresholds) (module : String) (level : Level) : Thresholds :=
  { t with shown := t.shown.filter (· != (module, level.value)) }

/-- The source is shown for a module, or for an ancestor of it, and a level. -/
def showsCaller (t : Thresholds) (module : String) (level : Level) : Bool :=
  (lineage module).any fun name => t.shown.contains (name, level.value)

/-- Set several thresholds, one after the other, each read from a value. -/
def setAll {ε : Type} {α : Type} (read : α → Except ε Level) :
    Thresholds → Table String α → Except ε Thresholds
  | t, [] => .ok t
  | t, (module, value) :: more =>
      match read value with
      | .error e => .error e
      | .ok level => setAll read (t.setLevel module level) more

/-! ## §3. Tables as texts. -/

/-- The module and the level of an entry; nothing for a blank entry. -/
def readEntry (entry : List Char) : Except SettingFault (Option (String × String)) :=
  let entry := Text.trimChars entry
  if entry.isEmpty then .ok none
  else
    let refused : Except SettingFault (Option (String × String)) :=
      .error (.moduleLevel (String.ofList entry))
    match Text.cut? '=' entry with
    | none => refused
    | some (module, level) =>
        let module := Text.trimChars module
        if module.isEmpty || (Text.trimChars level).isEmpty then refused
        else .ok (some (String.ofList module, String.ofList level))

/-- The entries of a text, the last one of each module. -/
def readEntries : Table String String → List (List Char) → Except SettingFault (Table String String)
  | seen, [] => .ok seen
  | seen, e :: es =>
      match readEntry e with
      | .error f => .error f
      | .ok none => readEntries seen es
      | .ok (some (module, level)) => readEntries (seen.put module level) es

/-- The entries of a specification. -/
def entries (spec : String) : Except SettingFault (Table String String) :=
  readEntries [] (Text.splitOn ',' spec.toList)

/-- The table of a specification. -/
def ofSpec (spec : String) (default : Level) : Except SettingFault Thresholds :=
  match entries spec with
  | .error f => .error f
  | .ok table => setAll Level.parse (plain default) table

end Thresholds

end Mandate.Log
