/-
  Mandate.Log.Record
  ────────────────────────────────
  **RECORDS AND THEIR LINES.**

  A record is an event with its place in the sources, and with a message that
  may be a template with arguments.  It is written in one of two forms.

      json   — one object on one line, in printable ASCII
      text   — time, logger, level and message, for readers

  Either form shows the current correlation identifier: whole in an object, by
  its first eight characters in a text.
-/
import Mandate.Log.Event
import Mandate.Log.Template
import Mandate.Time.Stamp

namespace Mandate.Log

open Json (Value Fields)
open Time (Stamp)

/-! ## §1. Records. -/

/-- An event with all that can be written about it. -/
structure Record where
  logger : String
  level : Level
  /-- The file, the line and the function that the event came from. -/
  path : Text
  line : Value
  function : Option Text
  message : Value
  args : List Value
  extra : Option Value
  /-- Where the event came from is to be shown. -/
  showCaller : Bool
  failure : Option Failure

/-- The record of an event of the library itself. -/
def Event.record (e : Event) : Record :=
  { logger := e.logger, level := e.level, path := "", line := .int 0, function := none,
    message := .text e.message, args := [], extra := e.extra, showCaller := false,
    failure := none }

namespace Record

/-- A message with its arguments.  One object that is not empty is taken by the
names of its fields; without arguments, a message is no template. -/
def filled (template : Text) : List Value → Except Template.Fault Text
  | [] => .ok template
  | [.object (f :: fs)] => (Template.fill template.points (.fields (f :: fs))).map .ofPoints
  | args => (Template.fill template.points (.values args)).map .ofPoints

/-- The message of a record, filled in. -/
def text (r : Record) : Except Template.Fault Text :=
  filled r.message.display r.args

/-- The last part of the path. -/
def fileName (r : Record) : Text :=
  .ofPoints ((r.path.points.reverse.takeWhile (· != .char '/')).reverse)

/-- The name of a failure and its words, if it has any. -/
def failureText (f : Failure) : Text :=
  let name : String := match f with
    | .fault f => "zcapld.exceptions." ++ f.kind.name
    | .foreign name _ => name
    | _ => ""
  if f.message.isEmpty then name else name ++ ": " ++ f.message

end Record

/-! ## §2. Objects. -/

/-- Where a record came from. -/
def Record.source (r : Record) : Value :=
  .object [("file", .text r.path), ("line", r.line), ("function", .ofText? r.function)]

/-- The source is shown: on request, and always from warnings on. -/
def Record.showsSource (r : Record) : Bool :=
  decide (Level.warning.value ≤ r.level.value) || r.showCaller

/-- A field that is there only if it has a value. -/
def optionalField (name : String) : Option Value → Fields
  | some v => [(name, v)]
  | none => []

/-- The identifier that is current, unless it is empty. -/
def currentId (correlation : Option Text) : Option Text :=
  correlation.filter fun id => !id.isEmpty

/-- The fields of a record as an object. -/
def Record.fields (r : Record) (now : Stamp) (correlation : Option Text) (text : Text) :
    Fields :=
  ([("timestamp", .text now.isoText), ("level", .text r.level.name), ("logger", .text r.logger),
    ("message", .text text)] : Fields)
    ++ optionalField "correlation_id" ((currentId correlation).map .text)
    ++ (if r.showsSource then [("source", r.source)] else [] : Fields)
    ++ optionalField "exception" (r.failure.map fun f => .text (failureText f))
    ++ optionalField "extra" r.extra

/-- A record as one line of printable ASCII. -/
def Record.jsonLine (r : Record) (now : Stamp) (correlation : Option Text) :
    Except Template.Fault String := do
  return (Value.object (r.fields now correlation (← r.text))).compact

/-! ## §3. Texts. -/

/-- A change of colour. -/
def paint (code : String) : String :=
  "\x1b[" ++ code ++ "m"

/-- The colours of the levels. -/
def levelColors : List (String × String) :=
  [("DEBUG", "36"), ("INFO", "32"), ("WARNING", "33"), ("ERROR", "31"), ("CRITICAL", "35")]

/-- The name of a level, in its colour. -/
def levelText (colors : Bool) (l : Level) : String :=
  if colors then
    (match levelColors.lookup l.name with
      | some code => paint code
      | none => "") ++ l.name ++ paint "0"
  else l.name

/-- The first characters of the current identifier, in brackets. -/
def idText (colors : Bool) : Option Text → Text
  | none => ""
  | some id =>
      let short : Text := "[" ++ .ofPoints (id.points.take 8) ++ "]"
      if colors then paint "90" ++ short ++ paint "0" ++ " " else short ++ " "

/-- The template of the message in a text: the identifier in front of it, the
source behind it. -/
def Record.textTemplate (r : Record) (colors : Bool) (correlation : Option Text) : Text :=
  idText colors (currentId correlation) ++ r.message.display
    ++ (if r.showCaller then " (" ++ r.fileName ++ ":" ++ r.line.display ++ ")" else "")

/-- A time of UTC to the second. -/
def clockText (now : Stamp) : String :=
  let d := now.civil.date
  let c := now.civil.clock
  toString d.year ++ String.ofList
    ('-' :: Time.padded 2 d.month ++ '-' :: Time.padded 2 d.day ++ ' ' :: Time.padded 2 c.hour
      ++ ':' :: Time.padded 2 c.minute ++ ':' :: Time.padded 2 c.second)

/-- A failure on a line of its own below a text. -/
def withFailure (text : Text) : Option Failure → Text
  | none => text
  | some f =>
      (if text.points.getLast? = some (.char '\n') then text else text ++ "\n")
        ++ Record.failureText f

/-- A record as a text for readers. -/
def Record.textLine (r : Record) (colors : Bool) (now : Stamp) (correlation : Option Text) :
    Except Template.Fault Text := do
  let message ← filled (r.textTemplate colors correlation) r.args
  return withFailure
    (clockText now ++ " - " ++ r.logger ++ " - " ++ levelText colors r.level ++ " - " ++ message)
    r.failure

/-! ## §4. Forms. -/

/-- The form of written records. -/
inductive Form where
  | json
  | text (colors : Bool)
  deriving DecidableEq, Repr

/-- A record in a form. -/
def Form.line (form : Form) (r : Record) (now : Stamp) (correlation : Option Text) :
    Except Template.Fault Text :=
  match form with
  | .json => (r.jsonLine now correlation).map .plain
  | .text colors => r.textLine colors now correlation

end Mandate.Log
