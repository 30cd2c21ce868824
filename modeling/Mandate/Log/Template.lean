/-
  Mandate.Log.Template
  ────────────────────────────────
  **MESSAGE TEMPLATES.**

  A message may hold places for its arguments:

      %[(name)][flags][width][.precision]kind

  Flags are `-`, `+`, a blank, `#` and `0`; a width or a precision may be a `*`,
  which takes an argument.  Kinds are texts (`s`, `r`, `a`), integers (`d`, `i`,
  `u`, `o`, `x`, `X`), doubles (`e`, `f`, `g` in either case) and characters
  (`c`).  Two percent signs stand for one.

  A template is first taken apart into pieces, without regard to arguments
  (`pieces`), and then filled in from the left (`fill`), so the first fault is
  the leftmost one.  A template without a percent sign is its own text
  (`fill_plain`).
-/
import Mandate.Fault.Failure
import Mandate.Number.Places
import Mandate.Text.Quoted

namespace Mandate.Log.Template

open Json (Value Fields)

/-! ## §1. Pieces. -/

/-- A width or a precision. -/
inductive Amount where
  | none
  | given (n : Nat)
  /-- Taken from the arguments. -/
  | taken
  deriving DecidableEq, Repr

/-- The name of an argument. -/
inductive Key where
  | none
  | named (name : Text)
  /-- A name without its closing bracket. -/
  | unclosed
  deriving DecidableEq, Repr

/-- A place for an argument. -/
structure Place where
  key : Key
  left : Bool
  plus : Bool
  blank : Bool
  alternate : Bool
  zero : Bool
  width : Amount
  precision : Amount
  /-- The kind and its index in the template; none if the template ends. -/
  kind : Option (Point × Nat)
  deriving Repr

/-- A part of a template. -/
inductive Piece where
  | point (p : Point)
  | place (p : Place)
  deriving Repr

/-- The name up to the bracket that closes it, and what follows. -/
def scanName : Nat → List Point → Option (List Point × List Point)
  | _, [] => none
  | 0, .char ')' :: rest => some ([], rest)
  | depth + 1, .char ')' :: rest => (scanName depth rest).map fun p => (.char ')' :: p.1, p.2)
  | depth, .char '(' :: rest => (scanName (depth + 1) rest).map fun p => (.char '(' :: p.1, p.2)
  | depth, c :: rest => (scanName depth rest).map fun p => (c :: p.1, p.2)

/-- The name of an argument, if one is given. -/
def scanKey : List Point → Key × List Point
  | .char '(' :: rest =>
      match scanName 0 rest with
      | some (name, rest) => (.named (.ofPoints name), rest)
      | none => (.unclosed, [])
  | cs => (.none, cs)

/-- A flag. -/
def isFlag (c : Char) : Bool :=
  c == '-' || c == '+' || c == ' ' || c == '#' || c == '0'

/-- A number, a star, or nothing. -/
def scanAmount (cs : List Point) : Amount × List Point :=
  match cs with
  | .char '*' :: rest => (.taken, rest)
  | _ =>
      let ds := cs.takeWhile (·.isChar Char.isDigit)
      if ds.isEmpty then (.none, cs)
      else
        (.given (ds.foldl (fun n d => 10 * n + (d.toNat - 48)) 0),
          cs.dropWhile (·.isChar Char.isDigit))

/-- The precision behind a point; none counts as zero. -/
def scanPrecision : List Point → Amount × List Point
  | .char '.' :: rest =>
      match scanAmount rest with
      | (.none, rest) => (.given 0, rest)
      | found => found
  | cs => (.none, cs)

/-- What follows a percent sign, and how many points that is.  `start` is
the index of the first of them. -/
def scanPlace (start : Nat) (cs : List Point) : Place × Nat :=
  let (key, rest) := scanKey cs
  let flags := rest.takeWhile (·.isChar isFlag)
  let (width, rest) := scanAmount (rest.dropWhile (·.isChar isFlag))
  let (precision, rest) := scanPrecision rest
  let rest := match rest with
    | .char 'h' :: more | .char 'l' :: more | .char 'L' :: more => more
    | _ => rest
  let used := cs.length - rest.length
  ({ key
     left := flags.contains (.char '-'), plus := flags.contains (.char '+')
     blank := flags.contains (.char ' ')
     alternate := flags.contains (.char '#'), zero := flags.contains (.char '0')
     width, precision
     kind := rest.head?.map fun c => (c, start + used) }, used + 1)

/-- The pieces of a template whose first point has the given index. -/
def piecesFrom (index : Nat) (cs : List Point) : List Piece :=
  match cs with
  | [] => []
  | .char '%' :: .char '%' :: rest => .point (.char '%') :: piecesFrom (index + 2) rest
  | .char '%' :: rest =>
      let (place, used) := scanPlace (index + 1) rest
      .place place :: piecesFrom (index + 1 + used) (rest.drop used)
  | c :: rest => .point c :: piecesFrom (index + 1) rest
termination_by cs.length
decreasing_by all_goals (simp only [List.length_cons, List.length_drop]; omega)

/-- The pieces of a template. -/
def pieces (cs : List Point) : List Piece :=
  piecesFrom 0 cs

/-! ## §2. Arguments and faults. -/

/-- What a template is filled with. -/
inductive Arguments where
  | values (vs : List Value)
  /-- One object, whose fields can be named. -/
  | fields (fs : Fields)

/-- Why a template cannot be filled. -/
inductive Fault where
  | tooFew
  | tooMany
  | noFields
  | unknownName (name : Text)
  | incomplete
  | openName
  | starType
  | widthRange
  | precisionRange
  | starWidthRange
  | starPrecisionRange
  | realNeeded (kind : Char) (shape : String)
  | integerNeeded (kind : Char) (shape : String)
  | doubleNeeded (shape : String)
  | infinite
  | undefined
  | doubleRange
  | characterNeeded
  | characterRange
  | unknownKind (kind : Point) (index : Nat)
  deriving DecidableEq, Repr

/-- The fault in words. -/
def Fault.message : Fault → String
  | .tooFew => "not enough arguments for format string"
  | .tooMany => "not all arguments converted during string formatting"
  | .noFields => "format requires a mapping"
  | .unknownName name => Text.quoted name
  | .incomplete => "incomplete format"
  | .openName => "incomplete format key"
  | .starType => "* wants int"
  | .widthRange => "width too big"
  | .precisionRange => "precision too big"
  | .starWidthRange => "Python int too large to convert to C ssize_t"
  | .starPrecisionRange => "Python int too large to convert to C int"
  | .realNeeded kind shape =>
      "%" ++ kind.toString ++ " format: a real number is required, not " ++ shape
  | .integerNeeded kind shape =>
      "%" ++ kind.toString ++ " format: an integer is required, not " ++ shape
  | .doubleNeeded shape => "must be real number, not " ++ shape
  | .infinite => "cannot convert float infinity to integer"
  | .undefined => "cannot convert float NaN to integer"
  | .doubleRange => "int too large to convert to float"
  | .characterNeeded => "%c requires int or char"
  | .characterRange => "%c arg not in range(0x110000)"
  | .unknownKind kind index =>
      let shown := (kind.char?.filter fun c => 31 ≤ c.toNat && c.toNat ≤ 126).getD '?'
      "unsupported format character '" ++ shown.toString ++ "' (0x"
        ++ String.ofList (Nat.toDigits 16 kind.toNat) ++ ") at index " ++ toString index

/-- The arguments that are left, and the fields that can be named. -/
structure Supply where
  left : List Value
  named : Option Fields

/-- The supply of arguments at the start. -/
def Arguments.supply : Arguments → Supply
  | .values vs => ⟨vs, none⟩
  | .fields fs => ⟨[.object fs], some fs⟩

/-- The next argument. -/
def Supply.next (s : Supply) : Except Fault (Value × Supply) :=
  match s.left with
  | v :: vs => .ok (v, { s with left := vs })
  | [] => .error .tooFew

/-- The supply behind a name: the field of that name alone. -/
def Supply.select (s : Supply) : Key → Except Fault Supply
  | .none => .ok s
  | .unclosed =>
      match s.named with
      | none => .error .noFields
      | some _ => .error .openName
  | .named name =>
      match s.named with
      | none => .error .noFields
      | some fs =>
          match fs.lookup name with
          | some v => .ok { s with left := [v] }
          | none => .error (.unknownName name)

/-! ## §3. Values. -/

/-- The integer that a value counts as. -/
def integer? : Value → Option Int
  | .bool b => some (if b then 1 else 0)
  | .number (.int n) => some n
  | _ => none

/-- The whole part of a number. -/
def wholePart (kind : Char) (v : Value) : Except Fault Int :=
  match integer? v, v with
  | some n, _ => .ok n
  | none, .number (.double x) =>
      if x.isNaN then .error .undefined
      else if x.isInfinite then .error .infinite
      else .ok (x.fraction.1.tdiv (Nat.pow 2 x.fraction.2 : Nat))
  | none, _ => .error (.realNeeded kind (shapeName v))

/-- The double nearest to a number. -/
def double (v : Value) : Except Fault Binary64 :=
  match integer? v, v with
  | some n, _ =>
      match Binary64.ofInt? n with
      | some x => .ok x
      | none => .error .doubleRange
  | none, .number (.double x) => .ok x
  | none, _ => .error (.doubleNeeded (shapeName v))

/-- A point given by its number or as a text of one point. -/
def character (v : Value) : Except Fault Point :=
  match integer? v, v with
  | some n, _ =>
      if 0 ≤ n ∧ n < 0x110000 then .ok (.ofNat n.toNat) else .error .characterRange
  | none, .text t =>
      match t.points with
      | [p] => .ok p
      | _ => .error .characterNeeded
  | none, _ => .error .characterNeeded

/-- A literal in ASCII. -/
def asciiChars (cs : List Char) : List Char :=
  cs.flatMap fun c =>
    if c.toNat < 0x80 then [c]
    else if c.toNat < 0x100 then '\\' :: 'x' :: Text.hex 2 c.toNat
    else if c.toNat < 0x10000 then '\\' :: 'u' :: Text.hex 4 c.toNat
    else '\\' :: 'U' :: Text.hex 8 c.toNat

/-! ## §4. Setting a value in its place. -/

/-- What is set in a place: a sign, a mark of the base, and the rest. -/
structure Body where
  sign : List Char
  mark : List Char
  rest : List Point
  numeric : Bool

/-- A body of a text. -/
def Body.ofText (precision : Option Nat) (ps : List Point) : Body :=
  { sign := [], mark := [], numeric := false
    rest := match precision with
      | some n => ps.take n
      | none => ps }

/-- The sign of a number in a place. -/
def signChars (p : Place) (negative : Bool) : List Char :=
  if negative then ['-'] else if p.plus then ['+'] else if p.blank then [' '] else []

/-- A body of an integer in a base, in at least `precision` digits. -/
def Body.ofInteger (p : Place) (kind : Char) (precision : Option Nat) (n : Int) : Body :=
  let (base, mark) : Nat × List Char :=
    if kind = 'o' then (8, ['0', 'o'])
    else if kind = 'x' then (16, ['0', 'x'])
    else if kind = 'X' then (16, ['0', 'X'])
    else (10, [])
  let ds := Nat.toDigits base n.natAbs
  let ds := if kind = 'X' then ds.map Char.toUpper else ds
  { sign := signChars p (n < 0), numeric := true
    mark := if p.alternate then mark else []
    rest := (List.replicate (precision.getD 0 - ds.length) '0' ++ ds).map .char }

/-- A body of a double. -/
def Body.ofDouble (p : Place) (kind : Char) (precision : Option Nat) (x : Binary64) : Body :=
  let places := precision.getD 6
  let letter := if kind.isUpper then 'E' else 'e'
  let digits : List Char :=
    if x.isNaN then ['n', 'a', 'n']
    else if x.isInfinite then ['i', 'n', 'f']
    else
      let low := kind.toLower
      if low = 'e' then x.exponential places p.alternate letter
      else if low = 'f' then x.fixed places p.alternate
      else x.general places p.alternate letter
  { sign := signChars p (x.isNegative && !x.isNaN), mark := [], numeric := true
    rest := (if kind.isUpper && !x.isFinite then digits.map Char.toUpper else digits).map .char }

/-- A body in at least so many points. -/
def Body.set (b : Body) (left zero : Bool) (width : Nat) : List Point :=
  let size := b.sign.length + b.mark.length + b.rest.length
  let lead := (b.sign ++ b.mark).map .char
  let fill := List.replicate (width - size) (.char (if b.numeric && zero then '0' else ' '))
  if left then lead ++ b.rest ++ List.replicate (width - size) (.char ' ')
  else if b.numeric && zero then lead ++ fill ++ b.rest
  else fill ++ lead ++ b.rest

/-- The body that a value has in a place of a kind. -/
def bodyOfKind (p : Place) (precision : Option Nat) (kind : Char) (index : Nat) (v : Value) :
    Except Fault Body :=
  if kind = 's' then .ok (.ofText precision v.display.points)
  else if kind = 'r' then .ok (.ofText precision (v.literalChars.map .char))
  else if kind = 'a' then .ok (.ofText precision ((asciiChars v.literalChars).map .char))
  else if kind = 'd' ∨ kind = 'i' ∨ kind = 'u' then
    (wholePart kind v).map (.ofInteger p kind precision)
  else if kind = 'o' ∨ kind = 'x' ∨ kind = 'X' then
    match integer? v with
    | some n => .ok (.ofInteger p kind precision n)
    | none => .error (.integerNeeded kind (shapeName v))
  else if ['e', 'E', 'f', 'F', 'g', 'G'].contains kind then
    (double v).map (.ofDouble p kind precision)
  else if kind = 'c' then (character v).map fun q => .ofText none [q]
  else .error (.unknownKind kind index)

/-- The body that a value has in a place; half a pair is no kind. -/
def body (p : Place) (precision : Option Nat) (kind : Point) (index : Nat) (v : Value) :
    Except Fault Body :=
  match kind with
  | .char kind => bodyOfKind p precision kind index v
  | .half _ => .error (.unknownKind kind index)

/-! ## §5. Filling in. -/

/-- The largest width. -/
def maxAmount : Nat := 0x7fffffffffffffff

/-- The largest precision. -/
def maxPrecision : Nat := 0x7fffffff

/-- The width of a place: whether it came out negative, and its size. -/
def Supply.width (s : Supply) : Amount → Except Fault (Bool × Nat × Supply)
  | .none => .ok (false, 0, s)
  | .given n => if maxAmount < n then .error .widthRange else .ok (false, n, s)
  | .taken => do
      let (v, s) ← s.next
      match integer? v with
      | some n =>
          if maxAmount < n.natAbs then .error .starWidthRange else .ok (n < 0, n.natAbs, s)
      | none => .error .starType

/-- The precision of a place; a negative one counts as zero. -/
def Supply.precision (s : Supply) : Amount → Except Fault (Option Nat × Supply)
  | .none => .ok (none, s)
  | .given n => if maxPrecision < n then .error .precisionRange else .ok (some n, s)
  | .taken => do
      let (v, s) ← s.next
      match integer? v with
      | some n =>
          if maxPrecision < n.natAbs then .error .starPrecisionRange else .ok (some n.toNat, s)
      | none => .error .starType

/-- The points of a place, and the arguments left behind it. -/
def Place.fill (p : Place) (s : Supply) : Except Fault (List Point × Supply) := do
  let s ← s.select p.key
  let (turned, width, s) ← s.width p.width
  let (precision, s) ← s.precision p.precision
  match p.kind with
  | none => .error .incomplete
  | some (kind, index) =>
      let (v, s) ← s.next
      let b ← body p precision kind index v
      return (b.set (p.left || turned) p.zero width, s)

/-- The points of the pieces, from the left. -/
def fillPieces : List Piece → Supply → Except Fault (List Point)
  | [], s =>
      if s.named.isNone && !s.left.isEmpty then .error .tooMany else .ok []
  | .point p :: ps, s => (fillPieces ps s).map (p :: ·)
  | .place p :: ps, s => do
      let (cs, s) ← p.fill s
      return cs ++ (← fillPieces ps s)

/-- A template filled with arguments. -/
def fill (template : List Point) (args : Arguments) : Except Fault (List Point) :=
  fillPieces (pieces template) args.supply

theorem piecesFrom_plain (index : Nat) (cs : List Point) (h : .char '%' ∉ cs) :
    piecesFrom index cs = cs.map .point := by
  induction cs generalizing index with
  | nil => rw [piecesFrom]; rfl
  | cons c cs ih =>
      have hc : c ≠ .char '%' := fun e => h (by simp [e])
      rw [piecesFrom]
      · rw [ih _ (fun m => h (List.mem_cons_of_mem c m))]
        rfl
      · exact fun _ e => absurd e hc
      · exact hc

theorem fillPieces_points (cs : List Point) (ps : List Piece) (s : Supply) :
    fillPieces (cs.map .point ++ ps) s = (fillPieces ps s).map (cs ++ ·) := by
  induction cs with
  | nil => cases h : fillPieces ps s <;> simp [h, Except.map]
  | cons c cs ih =>
      simp only [List.map_cons, List.cons_append, fillPieces, ih]
      cases fillPieces ps s <;> rfl

/-- A template without a percent sign is its own text. -/
theorem fill_plain (cs : List Point) (h : .char '%' ∉ cs) (args : Arguments) :
    fill cs args =
      match fillPieces [] args.supply with
      | .ok _ => .ok cs
      | .error f => .error f := by
  have := fillPieces_points cs [] args.supply
  rw [List.append_nil] at this
  rw [fill, pieces, piecesFrom_plain 0 cs h, this]
  simp only [fillPieces]
  split <;> simp [Except.map]

end Mandate.Log.Template
