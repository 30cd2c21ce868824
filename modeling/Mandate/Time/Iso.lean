/-
  Mandate.Time.Iso
  ────────────────────────────────
  **READING TIMES.**

  The accepted texts are those of ISO 8601 in a wide reading:

      date    YYYY-MM-DD   YYYYMMDD   YYYY-Www[-D]   YYYYWww[D]
      time    HH[:MM[:SS]] or HH[MM[SS]], then a fraction behind `.` or `,`
      zone    Z, or a sign and a time

  Any one point stands between date and time.  A fraction has any number of
  digits, of which six count.  Nothing but the texts is looked at: the place
  where the date ends is found from the shape of the text alone (`dateLength?`),
  before any of its fields is read.
-/
import Mandate.Json.Reader
import Mandate.Time.Stamp

namespace Mandate.Time.Iso

open Json (isDigit digitsValue)

/-! ## §1. Runs of digits. -/

/-- A number of exactly `width` digits, and the rest. -/
def digits? (width : Nat) (cs : List Char) : Option (Nat × List Char) :=
  let ds := cs.take width
  if ds.length = width ∧ ds.all isDigit then some (digitsValue ds, cs.drop width) else none

/-- The character that stands for the end of the text. -/
def endMark : Char := '\x00'

/-! ## §2. Dates. -/

/-- How many characters belong to the date. -/
def dateLength? (cs : List Char) : Option Nat :=
  let n := cs.length
  let c (i : Nat) : Char := cs.getD i endMark
  if n < 7 then none
  else if n = 7 then some 7
  else if c 4 == '-' then
    if c 5 == 'W' then
      if 8 < n ∧ c 8 = '-' then
        if n = 9 then none
        else if 10 < n ∧ isDigit (c 10) then some 8
        else some 10
      else some 8
    else some 10
  else if c 4 == 'W' then
    let p := 7 + ((cs.drop 7).takeWhile isDigit).length
    if p < 9 then some p else if p % 2 = 0 then some 7 else some 8
  else some 8

/-- A dash where one is called for. -/
def dash? (called : Bool) (cs : List Char) : Option (List Char) :=
  if called then
    match cs with
    | '-' :: rest => some rest
    | _ => none
  else some cs

/-- A week date behind its `W`. -/
def weekDate? (year : Nat) (dashed : Bool) (cs : List Char) : Option Date := do
  let (week, rest) ← digits? 2 cs
  let (weekDay, rest) ← if rest.isEmpty then some (1, rest) else dash? dashed rest >>= digits? 1
  if rest.isEmpty then
    let n ← weekOrdinal? year week weekDay
    if 0 ≤ n ∧ n.toNat < daySpan then some (Date.ofOrdinal n.toNat) else none
  else none

/-- A date of month and day. -/
def monthDate? (year : Nat) (dashed : Bool) (cs : List Char) : Option Date := do
  let (month, rest) ← digits? 2 cs
  let rest ← dash? dashed rest
  let (dayOfMonth, rest) ← digits? 2 rest
  if rest.isEmpty ∧ Date.Valid ⟨year, month, dayOfMonth⟩ then some ⟨year, month, dayOfMonth⟩
  else none

/-- A date that fills the whole text. -/
def date? (cs : List Char) : Option Date := do
  let (year, rest) ← digits? 4 cs
  let dashed := rest.head? == some '-'
  match if dashed then rest.tail else rest with
  | 'W' :: more => weekDate? year dashed more
  | more => monthDate? year dashed more

/-! ## §3. Times of day. -/

/-- What has been read of a time, and whether characters are left over. -/
structure Reading where
  hour : Nat
  minute : Nat
  second : Nat
  micro : Nat
  leftOver : Bool
  deriving DecidableEq

/-- The fraction that fills the rest of a time: six digits or fewer count, and
further ones are passed over. -/
def fraction? (cs : List Char) (behind : Char) : Option (Nat × Bool) := do
  let width := min 6 cs.length
  let (n, rest) ← digits? width cs
  let next := (rest.dropWhile isDigit).headD behind
  some (n * Nat.pow 10 (6 - width), next != endMark)

/-- Up to `fields` further pairs of digits, then a fraction.  `colons` tells how
the pairs read so far were separated, `behind` is the character behind the
text.  One ASCII character may be left over behind a pair. -/
def fields? (behind : Char) : Nat → Option Bool → List Nat → List Char →
    Option (List Nat × Nat × Bool)
  | 0, _, got, cs => (fraction? cs behind).map fun (n, more) => (got, n, more)
  | fields + 1, colons, got, cs => do
      let (n, rest) ← digits? 2 cs
      let got := got ++ [n]
      let next := rest.headD behind
      let colons := colons.getD (next == ':')
      if rest.length ≤ 1 && next.toNat < 0x80 then some (got, 0, next != endMark)
      else if colons && next == ':' then fields? behind fields (some colons) got rest.tail
      else if next == '.' || next == ',' then
        (fraction? rest.tail behind).map fun (n, more) => (got, n, more)
      else if colons then none
      else fields? behind fields (some colons) got rest

/-- A time of day that the text starts with; its fields need not be in range. -/
def reading? (cs : List Char) (behind : Char) : Option Reading :=
  (fields? behind 3 none [] cs).map fun (got, micro, leftOver) =>
    ⟨got.getD 0 0, got.getD 1 0, got.getD 2 0, micro, leftOver⟩

/-- A character that starts a zone. -/
def startsZone (c : Char) : Bool := c == '+' || c == '-' || c == 'Z'

/-- The offset behind its sign.  Without hours, minutes and seconds it is UTC. -/
def offset? (negative : Bool) (cs : List Char) : Option Offset := do
  let r ← reading? cs endMark
  if r.leftOver then none
  else
    let seconds := (r.hour * 60 + r.minute) * 60 + r.second
    if seconds = 0 then some .utc
    else
      let n := seconds * 1000000 + r.micro
      if h : n < day then
        some ⟨if negative then -(n : Int) else n, by split <;> simpa using h⟩
      else none

/-- A time of day and the zone behind it. -/
def time? (cs : List Char) : Option (Clock × Option Offset) := do
  let inside := cs.takeWhile (!startsZone ·)
  let behind := cs.dropWhile (!startsZone ·)
  let r ← reading? inside (behind.headD endMark)
  let clock : Clock := ⟨r.hour, r.minute, r.second, r.micro⟩
  match behind with
  | [] => if r.leftOver then none else some (clock, none)
  | 'Z' :: rest => if rest.headD endMark == endMark then some (clock, some .utc) else none
  | sign :: rest => (offset? (sign == '-') rest).map fun o => (clock, some o)

/-! ## §4. Whole texts. -/

/-- The time that a list of characters denotes. -/
def momentOfChars? (cs : List Char) : Option Moment := do
  let n ← dateLength? cs
  let date ← date? (cs.take n)
  match cs.drop n with
  | [] => (Civil.ofParts? date ⟨0, 0, 0, 0⟩).map fun c => ⟨c, none⟩
  | _ :: rest => do
      let (clock, offset?) ← time? rest
      let civil ← Civil.ofParts? date clock
      some ⟨civil, offset?⟩

/-- The places where something may stand between a date and a time of day. -/
def separatorPlaces : List Nat := [7, 8, 10]

/-- A point is half a pair. -/
def isHalf : Point → Bool
  | .char _ => false
  | .half _ => true

/-- Points with a letter for the half that separates a date from a time of day. -/
def withSeparator (ps : List Point) : List Point :=
  match separatorPlaces.find? fun n => ps[n]?.any isHalf with
  | some n => ps.set n (.char 'T')
  | none => ps

/-- The characters that points are, if all of them are characters. -/
def chars? (ps : List Point) : Option (List Char) :=
  ps.mapM Point.char?

/-- The time that a text denotes.  A half may stand where anything may, between the date and
the time of day, and nowhere else. -/
def moment? (t : Text) : Option Moment :=
  (chars? (withSeparator t.points)).bind momentOfChars?

end Mandate.Time.Iso
