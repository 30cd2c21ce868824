/-
  Mandate.Settings.Numeral
  ────────────────────────────────
  **NUMBERS IN SETTINGS.**

  The numbers of settings are written by people, so there is more than one way
  to write each of them.

      integers  — white space around them, a sign, leading zeros, single
                  underscores between digits, and a fraction of zeros
      numbers   — white space around them or single underscores between
                  characters, a sign, a point anywhere, an exponent, and the
                  words for infinity and for no number, in any case
-/
import Mandate.Json.Reader
import Mandate.Text.Blank
import Mandate.Text.Split

namespace Mandate.Settings

open Json (isDigit digitsValue)

/-! ## §1. Underscores. -/

/-- No two underscores stand side by side. -/
def singleUnderscores : List Char → Bool
  | '_' :: '_' :: _ => false
  | _ :: cs => singleUnderscores cs
  | [] => true

/-- Characters without their underscores, each of which has to stand alone and
between two others. -/
def withoutUnderscores? (cs : List Char) : Option (List Char) :=
  if cs.contains '_' && cs.head? != some '_' && cs.getLast? != some '_' && singleUnderscores cs then
    some (cs.filter (· != '_'))
  else none

/-! ## §2. Integers. -/

/-- Why a text shows no number of the kind that is asked for. -/
inductive NumberFault where
  | noInteger
  /-- More characters than integers may have. -/
  | longInteger
  | noNumber
  deriving DecidableEq, Repr

/-- The most characters of an integer, its sign included. -/
def maxIntegerLength : Nat := 4300

/-- An integer without leading zeros, with a minus sign if it is negative. -/
def plainInteger (cs : List Char) : Except NumberFault Int :=
  let (negative, digits) := match cs with
    | '-' :: rest => (true, rest)
    | _ => (false, cs)
  let run := digits.takeWhile isDigit
  if run.isEmpty || (run.head? == some '0' && 1 < run.length) then .error .noInteger
  else if maxIntegerLength < run.length + (if negative then 1 else 0) then .error .longInteger
  else if run.length < digits.length then .error .noInteger
  else
    let value : Int := digitsValue run
    .ok (if negative then -value else value)

/-- Characters without a point and the zeros behind it, of which there is at
least one. -/
def withoutZeroFraction? (cs : List Char) : Option (List Char) :=
  match Text.cut? '.' cs with
  | some (whole, fraction) =>
      if !fraction.isEmpty && fraction.all (· == '0') then some whole else none
  | none => some cs

/-- Characters without leading zeros and the underscores among them; a zero that
is the whole of an integer stays.  Behind the zeros there may be a minus sign. -/
def withoutLeadingZeros? : List Char → Option (List Char)
  | [] => none
  | c :: cs =>
      if c = '0' then
        let isFiller (d : Char) : Bool := d == '0' || d == '_'
        let last := (cs.takeWhile isFiller).getLast?.getD '0'
        match cs.dropWhile isFiller with
        | [] => some [last]
        | d :: rest =>
            if d = '.' then some (last :: d :: rest)
            else if isDigit d || d = '-' then some (d :: rest)
            else none
      else if isDigit c then some (c :: cs)
      else none

/-- The sign of an integer, and the rest.  A plus sign and a minus sign do not go
together. -/
def integerSign? : List Char → Option (Bool × List Char)
  | '+' :: '-' :: _ => none
  | '+' :: rest => some (false, rest)
  | '-' :: rest => some (true, rest)
  | cs => some (false, cs)

/-- The plain form of an integer without white space around it. -/
def plainForm? (cs : List Char) : Option (List Char) := do
  let (negative, unsigned) ← integerSign? cs
  let significant ← withoutLeadingZeros? unsigned
  let whole ← withoutZeroFraction? significant
  let digits := (withoutUnderscores? whole).getD whole
  return if negative then '-' :: digits else digits

/-- The integer that a text shows. -/
def integer (text : String) : Except NumberFault Int :=
  match plainForm? (Text.trimWhere Text.isWhite text.toList) with
  | some cs => plainInteger cs
  | none => .error .noInteger

/-! ## §3. Numbers. -/

/-- The sign of a number, and the rest. -/
def signOf : List Char → Bool × List Char
  | '-' :: rest => (true, rest)
  | '+' :: rest => (false, rest)
  | cs => (false, cs)

/-- The doubles that are written as words. -/
def wordNumber? (negative : Bool) (cs : List Char) : Option Binary64 :=
  let word := String.ofList (cs.map Char.toLower)
  if word = "inf" || word = "infinity" then some (Binary64.infinity negative)
  else if word = "nan" then some Binary64.nan
  else none

/-- The value of an exponent behind its mark. -/
def exponent? (cs : List Char) : Option Int :=
  let (negative, digits) := signOf cs
  if digits.isEmpty || !digits.all isDigit then none
  else
    let value : Int := digitsValue digits
    some (if negative then -value else value)

/-- The double nearest to a decimal: digits with or without a point, and an
exponent. -/
def decimal? (negative : Bool) (cs : List Char) : Option Binary64 := do
  let whole := cs.takeWhile isDigit
  let rest := cs.dropWhile isDigit
  let (fraction, rest) := match rest with
    | '.' :: more => (more.takeWhile isDigit, more.dropWhile isDigit)
    | _ => ([], rest)
  let exponent ← match rest with
    | [] => some 0
    | c :: more => if c == 'e' || c == 'E' then exponent? more else none
  let digits := whole ++ fraction
  if digits.isEmpty then none
  else some (Binary64.ofDecimal negative (digitsValue digits) (exponent - fraction.length))

/-- The double that characters show. -/
def double? (cs : List Char) : Option Binary64 :=
  let (negative, unsigned) := signOf cs
  (wordNumber? negative unsigned).or (decimal? negative unsigned)

/-- The double that a text shows: with white space around it, or with
underscores in it. -/
def number (text : String) : Except NumberFault Binary64 :=
  match (double? (Text.trimWhere Text.isWhite text.toList)).or
      ((withoutUnderscores? text.toList).bind double?) with
  | some x => .ok x
  | none => .error .noNumber

end Mandate.Settings
