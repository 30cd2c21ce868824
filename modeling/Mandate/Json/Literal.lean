/-
  Mandate.Json.Literal
  ────────────────────────────────
  **VALUES INSIDE MESSAGES.**

  Messages and details show a value as a literal: texts in quotes, the words
  `None`, `True` and `False`, lists in brackets, objects in braces, doubles by
  their shortest text.  A text that is shown by itself is not quoted
  (`Value.display`).  Records are shown by their name and their fields.
-/
import Mandate.Json.Printer
import Mandate.Text.Quoted

namespace Mandate.Json

/-- The words for the doubles that are not finite, inside messages. -/
def literalTexts : Binary64.SpecialTexts := ⟨"nan", "inf"⟩

/-- A number inside a message. -/
def numberLiteral : Number → List Char
  | .int n => intChars n
  | .double x => x.render literalTexts

namespace Value

mutual

/-- A value as a literal. -/
def literalChars : Value → List Char
  | .null => "None".toList
  | .bool true => "True".toList
  | .bool false => "False".toList
  | .number n => numberLiteral n
  | .text t => Text.quotedChars t
  | .list [] => ['[', ']']
  | .list (v :: vs) => '[' :: literalChars v ++ moreLiterals vs ++ [']']
  | .object [] => ['{', '}']
  | .object ((k, v) :: fs) =>
      '{' :: Text.quotedChars k ++ [':', ' '] ++ literalChars v ++ moreFieldLiterals fs
        ++ ['}']

/-- The items behind the first. -/
def moreLiterals : List Value → List Char
  | [] => []
  | v :: vs => ',' :: ' ' :: literalChars v ++ moreLiterals vs

/-- The fields behind the first. -/
def moreFieldLiterals : List (Text × Value) → List Char
  | [] => []
  | (k, v) :: fs =>
      ',' :: ' ' :: Text.quotedChars k ++ [':', ' '] ++ literalChars v
        ++ moreFieldLiterals fs

end

/-- A value as a literal. -/
def literal (v : Value) : String :=
  String.ofList v.literalChars

/-- A value by itself: a text as it is, anything else as a literal. -/
def display : Value → Text
  | .text t => t
  | v => v.literal

end Value

/-- A fixed sequence as a literal; a single item is followed by a comma. -/
def sequenceLiteral : List String → String
  | [item] => "(" ++ item ++ ",)"
  | items => "(" ++ String.intercalate ", " items ++ ")"

/-- A record as a literal. -/
def recordLiteral (name : String) (fields : List (String × String)) : String :=
  name ++ "(" ++ String.intercalate ", " (fields.map fun f => f.1 ++ "=" ++ f.2) ++ ")"

end Mandate.Json
