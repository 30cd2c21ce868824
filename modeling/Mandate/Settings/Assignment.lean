/-
  Mandate.Settings.Assignment
  ────────────────────────────────
  **FILES OF ASSIGNMENTS.**

  A file of settings has one assignment on a line, `NAME=value`, and comments
  behind `#`.

      name     — bare, or between single quotes; `export` may stand in front
      value    — bare, to the end of the line or a comment; or between quotes,
                 over several lines, with escapes
      no `=`   — the name is there, but has no value

  A line that is none of these is passed over.  A value may refer to variables,
  those of the environment or of earlier lines, by `$` and braces, with a
  default behind `:-`.
-/
import Mandate.Table
import Mandate.Text.Blank
import Mandate.Text.Split

namespace Mandate.Settings

open Text (isBlank)

/-! ## §1. Steps. -/

/-- A part of a line and what follows it, or the place where a line is none. -/
abbrev Step (α : Type) := Except (List Char) (α × List Char)

/-- A blank that ends no line. -/
def isGap (c : Char) : Bool :=
  isBlank c && c != '\n' && c != '\r'

/-- The characters behind any gap. -/
def skipGap (cs : List Char) : List Char :=
  cs.dropWhile isGap

/-- The characters from the end of the line on. -/
def skipLine (cs : List Char) : List Char :=
  cs.dropWhile fun c => c != '\n' && c != '\r'

/-- The characters behind the word in front of a name, if it is there. -/
def skipExport (cs : List Char) : List Char :=
  let word := "export".toList
  if word.isPrefixOf cs && (cs.drop word.length).head?.any isGap then
    skipGap (cs.drop word.length)
  else cs

/-! ## §2. Names. -/

/-- A character of a bare name. -/
def isNameChar (c : Char) : Bool :=
  c != '=' && c != '#' && !isBlank c

/-- The name at the head of a line; none in front of a comment. -/
def readName : List Char → Step (Option String)
  | '#' :: cs => .ok (none, '#' :: cs)
  | '\'' :: cs =>
      match Text.cut? '\'' cs with
      | some (name, rest) =>
          if name.isEmpty then .error ('\'' :: cs) else .ok (some (String.ofList name), rest)
      | none => .error ('\'' :: cs)
  | cs =>
      let name := cs.takeWhile isNameChar
      if name.isEmpty then .error cs
      else .ok (some (String.ofList name), cs.dropWhile isNameChar)

/-! ## §3. Values. -/

/-- The characters in front of and behind the first quote without a backslash
in front of it. -/
def closingQuote? (quote : Char) (escaped : Bool) : List Char → Option (List Char × List Char)
  | [] => none
  | c :: cs =>
      if c = quote && !escaped then some ([], cs)
      else (closingQuote? quote (c == '\\') cs).map fun p => (c :: p.1, p.2)

/-- The characters in front of and behind the last quote. -/
def lastQuote? (quote : Char) (cs : List Char) : Option (List Char × List Char) :=
  (Text.cut? quote cs.reverse).map fun p => (p.2.reverse, p.1.reverse)

/-- The escapes between single quotes. -/
def singleEscapes : List (Char × Char) :=
  [('\\', '\\'), ('\'', '\'')]

/-- The escapes between double quotes. -/
def doubleEscapes : List (Char × Char) :=
  [('\\', '\\'), ('\'', '\''), ('"', '"'), ('a', '\x07'), ('b', '\x08'), ('f', '\x0C'),
   ('n', '\n'), ('r', '\r'), ('t', '\t'), ('v', '\x0B')]

/-- Characters with their escapes replaced; other backslashes stay. -/
def unescape (escapes : List (Char × Char)) : List Char → List Char
  | '\\' :: c :: cs =>
      match escapes.lookup c with
      | some e => e :: unescape escapes cs
      | none => '\\' :: unescape escapes (c :: cs)
  | c :: cs => c :: unescape escapes cs
  | [] => []
termination_by cs => cs.length

/-- A value between quotes.  It ends at the first quote without a backslash in
front of it, or at the last one if they all have one. -/
def readQuoted (quote : Char) (escapes : List (Char × Char)) (cs : List Char) :
    Step (List Char) :=
  match (closingQuote? quote false cs).or (lastQuote? quote cs) with
  | some (value, rest) => .ok (unescape escapes value, rest)
  | none => .error (quote :: cs)

/-- The characters in front of a comment, which begins behind a blank. -/
def uncommented (behindBlank : Bool) : List Char → List Char
  | [] => []
  | c :: cs => if c = '#' && behindBlank then [] else c :: uncommented (isBlank c) cs

/-- A bare value: the rest of the line without a comment and blanks at its
end. -/
def readBare (cs : List Char) : List Char × List Char :=
  let line := cs.takeWhile fun c => c != '\n' && c != '\r'
  (((uncommented false line).reverse.dropWhile isBlank).reverse, skipLine cs)

/-- The value behind a name; none without `=`. -/
def readValue : List Char → Step (Option (List Char))
  | '=' :: cs =>
      match skipGap cs with
      | '\'' :: rest => (readQuoted '\'' singleEscapes rest).map fun p => (some p.1, p.2)
      | '"' :: rest => (readQuoted '"' doubleEscapes rest).map fun p => (some p.1, p.2)
      | rest => .ok ((readBare rest).map some id)
  | cs => .ok (none, cs)

/-- The end of a line, behind a comment if there is one. -/
def readEnd (cs : List Char) : Step Unit :=
  let rest := match skipGap cs with
    | '#' :: more => skipLine more
    | rest => rest
  match rest with
  | [] => .ok ((), [])
  | c :: more => if c = '\n' || c = '\r' then .ok ((), more) else .error rest

/-! ## §4. Lines. -/

/-- A name, and its value if it has one. -/
abbrev Assignment := String × Option (List Char)

/-- The assignment of a line, if it has one. -/
def readAssignment (cs : List Char) : Step (Option Assignment) :=
  match readName (skipExport cs) with
  | .error place => .error place
  | .ok (name, rest) =>
      match readValue (skipGap rest) with
      | .error place => .error place
      | .ok (value, rest) => (readEnd rest).map fun p => (name.map fun n => (n, value), p.2)

/-- The assignment at the head of a file and the rest of the file; a line that
is none is passed over. -/
def readLine (cs : List Char) : Option Assignment × List Char :=
  match readAssignment cs with
  | .ok found => found
  | .error place => (none, (skipLine place).drop 1)

/-- The assignments of a file.  Every line takes something from the file. -/
def readAssignments (cs : List Char) : List Assignment :=
  match cs.dropWhile isBlank with
  | [] => []
  | c :: rest =>
      let line := readLine (c :: rest)
      if _h : line.2.length < cs.length then line.1.toList ++ readAssignments line.2
      else line.1.toList
termination_by cs.length

/-! ## §5. References. -/

/-- A reference to a variable, with the text that stands for it if it has no
value. -/
structure Reference where
  name : String
  fallback : String

/-- A reference at the head of a text behind `$` and an opening brace. -/
def reference? (cs : List Char) : Option (Reference × List Char) :=
  let name := String.ofList (cs.takeWhile fun c => c != '\x7d' && c != ':')
  match cs.dropWhile fun c => c != '\x7d' && c != ':' with
  | ':' :: '-' :: rest =>
      (Text.cut? '\x7d' rest).map fun p => (⟨name, String.ofList p.1⟩, p.2)
  | '\x7d' :: rest => some (⟨name, ""⟩, rest)
  | _ => none

/-- The value of a reference. -/
def Reference.value (lookup : String → Option String) (r : Reference) : List Char :=
  ((lookup r.name).getD r.fallback).toList

/-- A text with the values of the variables that it refers to.  The first `n`
characters belong to a reference that has been replaced. -/
def substitute (lookup : String → Option String) : (skip : Nat) → List Char → List Char
  | _, [] => []
  | skip + 1, _ :: cs => substitute lookup skip cs
  | 0, c :: cs =>
      match c, cs with
      | '$', '\x7b' :: more =>
          match reference? more with
          | some (r, rest) =>
              r.value lookup ++ substitute lookup (cs.length - rest.length) cs
          | none => c :: substitute lookup 0 cs
      | _, _ => c :: substitute lookup 0 cs

/-- The variables of a file: the last value of each name, with the references in
it replaced.  Earlier lines hide the environment. -/
def resolve (environment : Table String String) (assignments : List Assignment) :
    Table String (Option String) :=
  assignments.foldl (fun seen (name, value) =>
    let lookup (n : String) : Option String :=
      match seen.lookup n with
      | some found => some (found.getD "")
      | none => environment.lookup n
    seen.put name (value.map fun v => String.ofList (substitute lookup 0 v))) []

/-- The variables of a file. -/
def fileVariables (environment : Table String String) (text : List Char) :
    Table String (Option String) :=
  resolve environment (readAssignments text)

end Mandate.Settings
