/-
  Mandate.Command.Grammar
  ────────────────────────────────
  **GRAMMARS OF ARGUMENTS.**

  A command takes options, which have names that begin with a dash, and at most
  one operand: a single argument, or a subcommand with all that follows it.

      long options    — `--name value`, `--name=value`; any part of a name that
                        belongs to one option only stands for it
      short options   — `-n value`, `-nvalue`, `-n=value`
      `--`            — nothing behind it is an option

  Arguments are marked first, each on its own, and then taken from left to
  right.
-/
import Mandate.Text.Digit
import Mandate.Text.Quoted
import Mandate.Text.Split

namespace Mandate.Command

/-! ## §1. Grammars. -/

/-- What an option does with its value. -/
inductive OptionKind where
  /-- It takes a value, of which the last counts. -/
  | value
  /-- It takes a value, all of which count. -/
  | list
  /-- It is there or not. -/
  | flag
  /-- It asks for help. -/
  | help
  deriving DecidableEq, Repr

/-- An option by its names. -/
structure OptionSpec where
  names : List String
  kind : OptionKind
  required : Bool
  deriving DecidableEq, Repr

/-- The operand of a command. -/
inductive Operand where
  | none
  /-- One argument, called by a name in messages. -/
  | single (name : String)
  /-- One of several subcommands, and everything behind it. -/
  | subcommand (name : String) (choices : List String)
  deriving DecidableEq, Repr

/-- The arguments that a command takes. -/
structure Grammar where
  /-- The command in messages. -/
  program : String
  options : List OptionSpec
  operand : Operand

/-- An option is followed by a value. -/
def OptionSpec.takesValue (o : OptionSpec) : Bool :=
  o.kind == .value || o.kind == .list

/-- An option in messages: all its names. -/
def OptionSpec.label (o : OptionSpec) : String :=
  String.intercalate "/" o.names

/-- The option of a name. -/
def Grammar.option? (g : Grammar) (name : Text) : Option OptionSpec :=
  g.options.find? (·.names.any (.plain · == name))

/-- All names of options, each with its option. -/
def Grammar.names (g : Grammar) : List (String × OptionSpec) :=
  g.options.flatMap fun o => o.names.map fun n => (n, o)

/-! ## §2. Faults. -/

/-- What is wrong with arguments. -/
inductive ArgumentFault where
  | ambiguous (argument : Text) (names : List String)
  /-- An option without its value. -/
  | valueMissing (option : OptionSpec)
  /-- A value for an option that takes none. -/
  | valueIgnored (option : OptionSpec) (value : Text)
  | unknownChoice (operand : String) (value : Text) (choices : List String)
  | missing (labels : List String)
  | unrecognized (arguments : List Text)
  deriving DecidableEq, Repr

/-- A fault in words. -/
def ArgumentFault.message : ArgumentFault → Text
  | .ambiguous argument names =>
      "ambiguous option: " ++ argument ++ " could match " ++ String.intercalate ", " names
  | .valueMissing option => "argument " ++ option.label ++ ": expected one argument"
  | .valueIgnored option value =>
      "argument " ++ option.label ++ ": ignored explicit argument " ++ Text.quoted value
  | .unknownChoice operand value choices =>
      "argument " ++ operand ++ ": invalid choice: " ++ Text.quoted value ++ " (choose from "
        ++ String.intercalate ", " (choices.map fun c => Text.quoted (.plain c)) ++ ")"
  | .missing labels =>
      "the following arguments are required: " ++ String.intercalate ", " labels
  | .unrecognized arguments =>
      "unrecognized arguments: " ++ Text.joined " " arguments

/-! ## §3. Marking. -/

/-- A text that is attached to the name of an option. -/
structure Attachment where
  /-- It is attached by `=`. -/
  joined : Bool
  text : List Point

/-- What an argument is by its look. -/
inductive Mark where
  | plain
  /-- The first `--`. -/
  | divider
  /-- An option by one of its names, with the text that is attached to it. -/
  | option (o : OptionSpec) (name : List Point) (attached : Option Attachment)
  /-- It looks like an option but is none. -/
  | unknown

/-- The number that a negative one is without its sign: digits, with or without
a point that digits follow.  A line break may end it. -/
def isUnsignedNumber (ps : List Point) : Bool :=
  let ps := if ps.getLast? = some (.char '\n') then ps.dropLast else ps
  let isDigit (p : Point) : Bool := p.isChar Text.isScriptDigit
  match ps.dropWhile isDigit with
  | [] => !(ps.takeWhile isDigit).isEmpty
  | .char '.' :: fraction => !fraction.isEmpty && fraction.all isDigit
  | _ => false

/-- The points of an option's name. -/
def namePoints (name : String) : List Point := name.toList.map .char

/-- The options that a long argument may stand for. -/
def longMatches (g : Grammar) (ps : List Point) : List (String × Mark) :=
  let (name, attached) : List Point × Option Attachment := match Text.cut? (.char '=') ps with
    | some (name, text) => (name, some ⟨true, text⟩)
    | none => (ps, none)
  (g.names.filter fun e => name.isPrefixOf (namePoints e.1)).map fun e =>
    (e.1, .option e.2 (namePoints e.1) attached)

/-- The options that a short argument may stand for: those of its first two
characters, with the rest attached, and those whose names it begins. -/
def shortMatches (g : Grammar) (ps : List Point) : List (String × Mark) :=
  g.names.filterMap fun e =>
    if namePoints e.1 = ps.take 2 then
      some (e.1, .option e.2 (namePoints e.1) (some ⟨false, ps.drop 2⟩))
    else if ps.isPrefixOf (namePoints e.1) then some (e.1, .option e.2 (namePoints e.1) none)
    else none

/-- The options that an argument may stand for without naming one in full. -/
def matchesOf (g : Grammar) (ps : List Point) : List (String × Mark) :=
  match ps with
  | .char '-' :: .char '-' :: _ => longMatches g ps
  | _ => shortMatches g ps

/-- The option that an argument names in full, in front of any `=`. -/
def named? (g : Grammar) (argument : Text) : Option Mark :=
  match g.option? argument with
  | some o => some (.option o argument.points none)
  | none =>
      match Text.cut? (.char '=') argument.points with
      | none => none
      | some (name, text) =>
          (g.option? (.ofPoints name)).map fun o => .option o name (some ⟨true, text⟩)

/-- What an argument that begins with a dash is. -/
def markDashed (g : Grammar) (argument : Text) : Except ArgumentFault Mark :=
  match named? g argument with
  | some mark => .ok mark
  | none =>
      match matchesOf g argument.points with
      | [(_, mark)] => .ok mark
      | [] =>
          if isUnsignedNumber (argument.points.drop 1) || argument.points.contains (.char ' ') then
            .ok .plain
          else .ok .unknown
      | several => .error (.ambiguous argument (several.map (·.1)))

/-- What an argument is. -/
def markOf (g : Grammar) (argument : Text) : Except ArgumentFault Mark :=
  match argument.points with
  | .char '-' :: _ :: _ => markDashed g argument
  | _ => .ok .plain

/-- Arguments with their marks. -/
abbrev Marked := List (Text × Mark)

/-- The marks of all arguments.  Everything behind `--` is plain. -/
def mark (g : Grammar) : List Text → Except ArgumentFault Marked
  | [] => .ok []
  | .plain "--" :: more => .ok (("--", .divider) :: more.map fun a => (a, .plain))
  | a :: more =>
      match markOf g a with
      | .error f => .error f
      | .ok k => (mark g more).map ((a, k) :: ·)

/-! ## §4. Options. -/

/-- An option that was given, with its value. -/
structure Given where
  option : OptionSpec
  value : Option Text
  deriving DecidableEq, Repr

/-- Whether a name is that of a short option. -/
def isShort (name : List Point) : Bool :=
  match name with
  | .char '-' :: .char '-' :: _ => false
  | _ => true

/-- What options take: values, and arguments that turn out to be none. -/
structure Options where
  given : List Given
  unrecognized : List Text

/-- Take an option, whose value is the next argument. -/
def takeFollowed (o : OptionSpec) (more : Marked) : Except ArgumentFault (Options × Marked) :=
  if o.takesValue then
    match more with
    | (value, .plain) :: rest => .ok (⟨[⟨o, some value⟩], []⟩, rest)
    | _ => .error (.valueMissing o)
  else .ok (⟨[⟨o, none⟩], []⟩, more)

/-- An option without a value in front of what others take. -/
def behindFlag (o : OptionSpec) (r : Except ArgumentFault (Options × Marked)) :
    Except ArgumentFault (Options × Marked) :=
  r.map fun p => (⟨⟨o, none⟩ :: p.1.given, p.1.unrecognized⟩, p.2)

/-- Take an option with a text attached: its value, or further short options
behind a short one that takes no value. -/
def takeAttached (g : Grammar) (o : OptionSpec) (name : List Point) (joined : Bool)
    (text : List Point) (more : Marked) : Except ArgumentFault (Options × Marked) :=
  if o.takesValue then .ok (⟨[⟨o, some (.ofPoints text)⟩], []⟩, more)
  else
    match text with
    | [] => .error (.valueIgnored o "")
    | p :: rest =>
        if joined || p = .char '-' || !isShort name then
          .error (.valueIgnored o (.ofPoints (p :: rest)))
        else
          match g.option? (.ofPoints [.char '-', p]) with
          | none => .ok (⟨[⟨o, none⟩], [.ofPoints (.char '-' :: p :: rest)]⟩, more)
          | some next =>
              match rest with
              | [] => behindFlag o (takeFollowed next more)
              | .char '=' :: value =>
                  behindFlag o (takeAttached g next [.char '-', p] true value more)
              | q :: further =>
                  behindFlag o (takeAttached g next [.char '-', p] false (q :: further) more)

/-- Take an option, and what of the following arguments belongs to it. -/
def takeOption (g : Grammar) (o : OptionSpec) (name : List Point) (attached : Option Attachment)
    (more : Marked) : Except ArgumentFault (Options × Marked) :=
  match attached with
  | none => takeFollowed o more
  | some ⟨joined, text⟩ => takeAttached g o name joined text more

theorem takeFollowed_length {o : OptionSpec} {more rest : Marked} {options : Options}
    (h : takeFollowed o more = .ok (options, rest)) : rest.length ≤ more.length := by
  unfold takeFollowed at h
  split at h
  · split at h
    · cases h; simp
    · simp at h
  · cases h; simp

theorem behindFlag_length {o : OptionSpec} {more rest : Marked} {options : Options}
    {r : Except ArgumentFault (Options × Marked)}
    (hr : ∀ o' rest', r = .ok (o', rest') → rest'.length ≤ more.length)
    (h : behindFlag o r = .ok (options, rest)) : rest.length ≤ more.length := by
  match r, h with
  | .ok (o', rest'), h =>
      simp only [behindFlag, Except.map, Except.ok.injEq, Prod.mk.injEq] at h
      exact h.2 ▸ hr o' rest' rfl

theorem takeAttached_length {g : Grammar} {o : OptionSpec} {name : List Point} {joined : Bool}
    {text : List Point} {more rest : Marked} {options : Options}
    (h : takeAttached g o name joined text more = .ok (options, rest)) :
    rest.length ≤ more.length := by
  fun_induction takeAttached g o name joined text more generalizing options rest with
  | case1 => cases h; simp
  | case2 => simp at h
  | case3 => simp at h
  | case4 => cases h; simp
  | case5 => exact behindFlag_length (fun _ _ hf => takeFollowed_length hf) h
  | case6 _ _ _ _ _ _ _ _ _ ih => exact behindFlag_length (fun _ _ hf => ih hf) h
  | case7 => rename_i ih; exact behindFlag_length (fun _ _ hf => ih hf) h

theorem takeOption_length {g : Grammar} {o : OptionSpec} {name : List Point}
    {attached : Option Attachment} {more rest : Marked} {options : Options}
    (h : takeOption g o name attached more = .ok (options, rest)) :
    rest.length ≤ more.length := by
  unfold takeOption at h
  split at h
  · exact takeFollowed_length h
  · exact takeAttached_length h

end Mandate.Command
