/-
  Mandate.Json.Reader
  ────────────────────────────────
  **READING DOCUMENTS.**

  The reader takes a list of points and returns a value with the points left
  over, always fewer than it was given: that is what makes it total.  It
  accepts the usual grammar and the three words `NaN`, `Infinity` and
  `-Infinity`.  A refusal names its cause and how many points were left at the
  place at fault, from which `Misread.message` counts line and column.

  Only so many brackets may be open at once (`Room`): whoever reads needs a call
  stack for them.  Reading without that limit has its own name.

      readWithin room text = .ok v     — the text holds the value v and blanks only
      readWithin room text = .error m  — m tells the first thing that was wrong
      read                             — the same with room for any brackets
-/
import Mandate.Json.Printer

namespace Mandate.Json

/-! ## §1. What can be wrong with a text. -/

/-- The reasons to refuse a text. -/
inductive Misread.Cause where
  | valueExpected
  | nameExpected
  | colonExpected
  | commaExpected
  | furtherText
  | controlCharacter
  | openText
  | unknownEscape
  | unitEscape
  | byteOrderMark
  /-- An integer of more digits than are read. -/
  | numeralTooLong (digits : Nat)
  /-- A bracket that there is no room for, of an object or of a list. -/
  | tooDeep (object : Bool)
  deriving DecidableEq, Repr

/-- A refusal: its cause, the place in points, and the line and the column
of that place, counted from one. -/
structure Misread where
  cause : Misread.Cause
  offset : Nat
  line : Nat
  column : Nat
  deriving DecidableEq, Repr

/-- The most digits that an integer may have. -/
def maxDigits : Nat := 4300

namespace Misread

/-- What was expected or refused, in words. -/
def Cause.text : Cause → String
  | .valueExpected => "Expecting value"
  | .nameExpected => "Expecting property name enclosed in double quotes"
  | .colonExpected => "Expecting ':' delimiter"
  | .commaExpected => "Expecting ',' delimiter"
  | .furtherText => "Extra data"
  | .controlCharacter => "Invalid control character at"
  | .openText => "Unterminated string starting at"
  | .unknownEscape => "Invalid \\escape"
  | .unitEscape => "Invalid \\uXXXX escape"
  | .byteOrderMark => "Unexpected UTF-8 BOM (decode using utf-8-sig)"
  | .numeralTooLong digits =>
      "Exceeds the limit (" ++ toString maxDigits ++
        " digits) for integer string conversion: value has " ++ toString digits ++
        " digits; use sys.set_int_max_str_digits() to increase the limit"
  | .tooDeep object =>
      "maximum recursion depth exceeded while decoding a JSON "
        ++ (if object then "object" else "array") ++ " from a unicode string"

/-- Nothing is wrong with the text but that it goes beyond a limit of the reader. -/
def Cause.isLimit : Cause → Bool
  | .numeralTooLong _ | .tooDeep _ => true
  | _ => false

/-- The refusal in words, with its place unless a limit is the cause. -/
def message (m : Misread) : String :=
  if m.cause.isLimit then m.cause.text
  else
    m.cause.text ++ ": line " ++ toString m.line ++ " column " ++ toString m.column
      ++ " (char " ++ toString m.offset ++ ")"

/-- The refusal of a text at the place where `left` points remain. -/
def locate (text : List Point) (cause : Cause) (left : Nat) : Misread :=
  let before := text.take (text.length - left)
  { cause := cause
    offset := before.length
    line := before.count (.char '\n') + 1
    column := (before.reverse.takeWhile (· != .char '\n')).length + 1 }

end Misread

/-- A result, or a cause with the number of points left at the fault. -/
abbrev Reading (α : Type) := Except (Misread.Cause × Nat) α

/-! ## §2. Blanks and words. -/

/-- The four blanks that may stand between tokens. -/
def isGap (c : Char) : Bool :=
  c == ' ' || c == '\t' || c == '\n' || c == '\r'

/-- The points behind any gap. -/
def skipGap (ps : List Point) : List Point :=
  ps.dropWhile (·.isChar isGap)

theorem skipGap_length_le (ps : List Point) : (skipGap ps).length ≤ ps.length :=
  (List.dropWhile_sublist _).length_le

/-- The points behind a word that the text starts with. -/
def word? (word : List Char) (ps : List Point) : Option (List Point) :=
  if (word.map .char).isPrefixOf ps then some (ps.drop word.length) else none

theorem word?_length_lt {word : List Char} {ps rest : List Point} (hw : word ≠ [])
    (h : word? word ps = some rest) : rest.length < ps.length := by
  simp only [word?] at h
  split at h
  next hp =>
    injection h with h
    subst h
    have hle := (List.isPrefixOf_iff_prefix.mp hp).length_le
    have hpos := List.length_pos_iff.mpr hw
    simp only [List.length_map] at hle
    simp only [List.length_drop]
    omega
  next => exact absurd h (by simp)

/-! ## §3. Texts. -/

/-- The character that a one-letter escape stands for. -/
def escaped? : Char → Option Char
  | '"' => some '"'
  | '\\' => some '\\'
  | '/' => some '/'
  | 'b' => some '\x08'
  | 'f' => some '\x0C'
  | 'n' => some '\n'
  | 'r' => some '\r'
  | 't' => some '\t'
  | _ => none

/-- Four hexadecimal digits with a point behind them, and the rest. -/
def unit? : List Point → Option (Nat × List Point)
  | .char a :: .char b :: .char c :: .char d :: e :: rest =>
      (Text.hexValues? [a, b, c, d]).map fun n => (n, e :: rest)
  | _ => none

/-- The 16-bit unit is the first of a pair. -/
def leadsPair (unit : Nat) : Bool := 0xD800 ≤ unit && unit ≤ 0xDBFF

/-- The 16-bit unit is the second of a pair. -/
def endsPair (unit : Nat) : Bool := 0xDC00 ≤ unit && unit ≤ 0xDFFF

/-- The character of a pair of 16-bit units. -/
def joinPair (lead trail : Nat) : Char :=
  Char.ofNat (0x10000 + (lead - 0xD800) * 0x400 + (trail - 0xDC00))

/-- The point written behind `\u`, and the rest.  A leading unit takes the escape
behind it along if that is a trailing unit; half a pair stays what it is. -/
def unitPoint (ps : List Point) : Reading (Point × List Point) :=
  match unit? ps with
  | none => .error (.unitEscape, ps.length + 1)
  | some (lead, rest) =>
      match rest with
      | .char '\\' :: .char 'u' :: more =>
          if leadsPair lead && 5 ≤ more.length then
            match unit? more with
            | none => .error (.unitEscape, more.length + 1)
            | some (trail, rest') =>
                if endsPair trail then .ok (.char (joinPair lead trail), rest')
                else .ok (.ofNat lead, rest)
          else .ok (.ofNat lead, rest)
      | _ => .ok (.ofNat lead, rest)

theorem unit?_length {ps rest : List Point} {n : Nat} (h : unit? ps = some (n, rest)) :
    rest.length < ps.length := by
  unfold unit? at h
  split at h
  next a b c d e tail =>
    obtain ⟨m, _, hm⟩ := Option.map_eq_some_iff.mp h
    have : rest = e :: tail := by simpa using (congrArg Prod.snd hm).symm
    subst this
    simp
  next => exact absurd h (by simp)

theorem unitPoint_length {ps rest : List Point} {p : Point} (h : unitPoint ps = .ok (p, rest)) :
    rest.length < ps.length := by
  unfold unitPoint at h
  split at h
  next => exact absurd h (by simp)
  next lead rest₁ h₁ =>
    have hl := unit?_length h₁
    split at h
    next more =>
      split at h
      next =>
        split at h
        next => exact absurd h (by simp)
        next trail rest₂ h₂ =>
          have hl₂ := unit?_length h₂
          simp only [List.length_cons] at hl
          split at h
          next =>
            simp only [Except.ok.injEq, Prod.mk.injEq] at h
            obtain ⟨_, rfl⟩ := h
            omega
          next =>
            simp only [Except.ok.injEq, Prod.mk.injEq] at h
            obtain ⟨_, rfl⟩ := h
            simpa using hl
      next =>
        simp only [Except.ok.injEq, Prod.mk.injEq] at h
        obtain ⟨_, rfl⟩ := h
        exact hl
    next =>
      simp only [Except.ok.injEq, Prod.mk.injEq] at h
      obtain ⟨_, rfl⟩ := h
      exact hl

/-- The points of a text up to its closing quote, and the rest.  `start` is the
number of points left at the opening quote. -/
def scanText (start : Nat) (ps : List Point) : Reading (List Point × List Point) :=
  match ps with
  | [] => .error (.openText, start)
  | .char '"' :: rest => .ok ([], rest)
  | [.char '\\'] => .error (.openText, start)
  | .char '\\' :: .char 'u' :: rest =>
      match h : unitPoint rest with
      | .error e => .error e
      | .ok (p, rest') =>
          have := unitPoint_length h
          (scanText start rest').map fun t => (p :: t.1, t.2)
  | .char '\\' :: e :: rest =>
      match e.char?.bind escaped? with
      | none => .error (.unknownEscape, rest.length + 2)
      | some c => (scanText start rest).map fun t => (.char c :: t.1, t.2)
  | p :: rest =>
      if p.toNat < 0x20 then .error (.controlCharacter, rest.length + 1)
      else (scanText start rest).map fun t => (p :: t.1, t.2)
termination_by ps.length
decreasing_by all_goals simp_all <;> omega

theorem map_ok_snd {r : Reading (List Point × List Point)} {p : Point} {t rest : List Point}
    (h : (r.map fun q => (p :: q.1, q.2)) = .ok (t, rest)) : ∃ t', r = .ok (t', rest) := by
  match r, h with
  | .ok (a, b), h => cases h; exact ⟨a, rfl⟩

theorem scanText_length {start : Nat} {ps t rest : List Point}
    (h : scanText start ps = .ok (t, rest)) : rest.length < ps.length := by
  fun_induction scanText start ps generalizing t with
  | case1 => exact absurd h (by simp)
  | case2 r => cases h; simp
  | case3 => exact absurd h (by simp)
  | case4 => exact absurd h (by simp)
  | case5 r c r' hu _ ih =>
      obtain ⟨t', ht⟩ := map_ok_snd h
      have := ih ht
      have := unitPoint_length hu
      simp only [List.length_cons]; omega
  | case6 => exact absurd h (by simp)
  | case7 e r _ c he ih =>
      obtain ⟨t', ht⟩ := map_ok_snd h
      have := ih ht
      simp only [List.length_cons]; omega
  | case8 => exact absurd h (by simp)
  | case9 c r _ _ _ _ _ ih =>
      obtain ⟨t', ht⟩ := map_ok_snd h
      have := ih ht
      simp only [List.length_cons]; omega

/-! ## §4. Numbers. -/

/-- A decimal digit of the ASCII range. -/
def isDigit (c : Char) : Bool := '0' ≤ c && c ≤ '9'

/-- The value of a run of decimal digits. -/
def digitsValue (ds : List Char) : Nat :=
  ds.foldl (fun n c => 10 * n + (c.toNat - 48)) 0

/-- The parts of a numeral. -/
structure Numeral where
  negative : Bool
  whole : List Char
  /-- The digits behind the point; none if there is no point. -/
  fraction : List Char
  /-- Sign and digits of the exponent. -/
  exponent : Option (Bool × List Char)

/-- The value of a numeral: an integer without point and exponent, else the
nearest double. -/
def Numeral.value (n : Numeral) : Except Nat Number :=
  if n.fraction.isEmpty && n.exponent.isNone then
    if maxDigits < n.whole.length then .error n.whole.length
    else
      let v := digitsValue n.whole
      .ok (.int (if n.negative then -(v : Int) else v))
  else
    let e : Int := match n.exponent with
      | none => 0
      | some (negative, ds) => if negative then -(digitsValue ds : Int) else digitsValue ds
    .ok (.double (Binary64.ofDecimal n.negative (digitsValue (n.whole ++ n.fraction))
      (e - n.fraction.length)))

/-- The digits before the point, and the rest: a zero stands alone. -/
def scanWhole : List Char → Option (List Char × List Char)
  | '0' :: rest => some (['0'], rest)
  | cs =>
      let ds := cs.takeWhile isDigit
      if ds.isEmpty then none else some (ds, cs.dropWhile isDigit)

/-- The digits behind a point, and the rest; a point without digits is left. -/
def scanFraction : List Char → List Char × List Char
  | '.' :: rest =>
      let ds := rest.takeWhile isDigit
      if ds.isEmpty then ([], '.' :: rest) else (ds, rest.dropWhile isDigit)
  | cs => ([], cs)

/-- The digits of an exponent, and the rest; a mark without digits is left. -/
def scanExponent (cs : List Char) : Option (Bool × List Char) × List Char :=
  let digits (negative : Bool) (rest : List Char) : Option (Bool × List Char) × List Char :=
    let ds := rest.takeWhile isDigit
    if ds.isEmpty then (none, cs) else (some (negative, ds), rest.dropWhile isDigit)
  match cs with
  | c :: rest =>
      if c == 'e' || c == 'E' then
        match rest with
        | '+' :: more => digits false more
        | '-' :: more => digits true more
        | _ => digits false rest
      else (none, cs)
  | [] => (none, cs)

/-- A numeral at the head of the text, and the rest. -/
def scanNumeral (cs : List Char) : Option (Numeral × List Char) :=
  let (negative, unsigned) := match cs with
    | '-' :: rest => (true, rest)
    | _ => (false, cs)
  (scanWhole unsigned).map fun (whole, rest) =>
    let (fraction, rest) := scanFraction rest
    let (exponent, rest) := scanExponent rest
    (⟨negative, whole, fraction, exponent⟩, rest)

theorem dropWhile_length_lt {p : Char → Bool} {cs : List Char}
    (h : (cs.takeWhile p).isEmpty = false) : (cs.dropWhile p).length < cs.length := by
  have := congrArg List.length (List.takeWhile_append_dropWhile (p := p) (l := cs))
  have hp : 0 < (cs.takeWhile p).length := by
    cases ht : cs.takeWhile p with
    | nil => simp [ht] at h
    | cons => simp
  simp only [List.length_append] at this
  omega

theorem scanWhole_length {cs ds rest : List Char} (h : scanWhole cs = some (ds, rest)) :
    rest.length < cs.length := by
  unfold scanWhole at h
  split at h
  next r =>
    have : r = rest := by simpa using congrArg (fun o => o.map Prod.snd) h
    subst this; simp
  next =>
    dsimp only at h
    split at h
    next => exact absurd h (by simp)
    next hne =>
      have : List.dropWhile isDigit cs = rest := by
        simpa using congrArg (fun o => o.map Prod.snd) h
      subst this
      exact dropWhile_length_lt (by simpa using hne)

theorem scanFraction_length (cs : List Char) : (scanFraction cs).2.length ≤ cs.length := by
  unfold scanFraction
  split
  next rest =>
    dsimp only
    split
    next => simp
    next =>
      have := (List.dropWhile_sublist isDigit (l := rest)).length_le
      simp only [List.length_cons]; omega
  next => simp

theorem scanExponent_length (cs : List Char) : (scanExponent cs).2.length ≤ cs.length := by
  unfold scanExponent
  dsimp only
  have drop_le (l : List Char) : (List.dropWhile isDigit l).length ≤ l.length :=
    (List.dropWhile_sublist isDigit).length_le
  split
  next c rest =>
    split
    next =>
      split
      next more =>
        split
        next => simp
        next => have := drop_le more; simp only [List.length_cons]; omega
      next more =>
        split
        next => simp
        next => have := drop_le more; simp only [List.length_cons]; omega
      next =>
        split
        next => simp
        next => have := drop_le rest; simp only [List.length_cons]; omega
    next => simp
  next => simp

theorem scanNumeral_length {cs rest : List Char} {n : Numeral}
    (h : scanNumeral cs = some (n, rest)) : rest.length < cs.length := by
  simp only [scanNumeral, Option.map_eq_some_iff] at h
  obtain ⟨⟨whole, r⟩, hw, hr⟩ := h
  have h₁ := scanWhole_length hw
  have h₂ := scanFraction_length r
  have h₃ := scanExponent_length (scanFraction r).2
  have hr : (scanExponent (scanFraction r).2).2 = rest := congrArg Prod.snd hr
  subst hr
  have h₄ : (match cs with | '-' :: rest => (true, rest) | _ => (false, cs)).2.length
      ≤ cs.length := by
    split <;> simp
  omega

/-! ## §5. Values. -/

/-- How many more brackets may be opened; no number stands for any. -/
abbrev Room := Option Nat

/-- The room behind one more bracket, if there is room for it. -/
def Room.deeper : Room → Option Room
  | none => some none
  | some 0 => none
  | some (n + 1) => some (some n)

/-- A result that leaves fewer points than `ps`. -/
abbrev Shrinking (α : Type) (ps : List Point) :=
  Reading {p : α × List Point // p.2.length < ps.length}

/-- The characters in front of the first half. -/
def leading : List Point → List Char
  | .char c :: ps => c :: leading ps
  | _ => []

theorem leading_length_le (ps : List Point) : (leading ps).length ≤ ps.length := by
  fun_induction leading ps with
  | case1 c ps ih => simpa using ih
  | case2 => simp

/-- A number, or a complaint about the head of the text. -/
def readNumber (ps : List Point) : Shrinking Value ps :=
  match h : scanNumeral (leading ps) with
  | none => .error (.valueExpected, ps.length)
  | some (n, rest) =>
      match n.value with
      | .error digits => .error (.numeralTooLong digits, ps.length)
      | .ok v =>
          .ok ⟨(.number v, ps.drop ((leading ps).length - rest.length)), by
            have hrest := scanNumeral_length h
            have hleading := leading_length_le ps
            rw [List.length_drop]
            omega⟩

/-- The words that stand for values. -/
def valueWords : List (String × Value) :=
  [("null", .null), ("true", .bool true), ("false", .bool false),
   ("NaN", .number (.double Binary64.nan)),
   ("Infinity", .number (.double (Binary64.infinity false))),
   ("-Infinity", .number (.double (Binary64.infinity true)))]

/-- A word of the table at the head of the text, and the rest. -/
def scanWord (ps : List Point) : List (String × Value) → Option (Value × List Point)
  | [] => none
  | (w, v) :: more =>
      match word? w.toList ps with
      | some rest => some (v, rest)
      | none => scanWord ps more

theorem scanWord_length {ps rest : List Point} {v : Value} {table : List (String × Value)}
    (ht : ∀ e ∈ table, e.1.toList ≠ []) (h : scanWord ps table = some (v, rest)) :
    rest.length < ps.length := by
  induction table with
  | nil => exact absurd h (by simp [scanWord])
  | cons e more ih =>
      obtain ⟨w, u⟩ := e
      simp only [scanWord] at h
      split at h
      next r hr =>
        have : r = rest := by simpa using congrArg (fun o => o.map Prod.snd) h
        subst this
        exact word?_length_lt (ht (w, u) (by simp)) hr
      next => exact ih (fun e he => ht e (by simp [he])) h

mutual

/-- The value at the head of the text. -/
def readValue (room : Room) (ps : List Point) : Shrinking Value ps :=
  match ps with
  | .char '"' :: rest =>
      match h : scanText (rest.length + 1) rest with
      | .error e => .error e
      | .ok (t, rest') =>
          .ok ⟨(.text (Text.ofPoints t), rest'), by
            have := scanText_length h
            simp only [List.length_cons]; omega⟩
  | .char '[' :: rest =>
      match room.deeper with
      | none => .error (.tooDeep false, rest.length + 1)
      | some room =>
          have hs := skipGap_length_le rest
          match h : skipGap rest with
          | .char ']' :: tail => .ok ⟨(.list [], tail), by simp_all; omega⟩
          | inner =>
              match readItems room inner with
              | .error e => .error e
              | .ok ⟨(items, tail), ht⟩ => .ok ⟨(.list items, tail), by simp_all; omega⟩
  | .char '{' :: rest =>
      match room.deeper with
      | none => .error (.tooDeep true, rest.length + 1)
      | some room =>
          have hs := skipGap_length_le rest
          match h : skipGap rest with
          | .char '}' :: tail => .ok ⟨(.object [], tail), by simp_all; omega⟩
          | inner =>
              match readFields room [] inner with
              | .error e => .error e
              | .ok ⟨(fields, tail), ht⟩ => .ok ⟨(.object fields, tail), by simp_all; omega⟩
  | ps =>
      match h : scanWord ps valueWords with
      | some (v, rest) => .ok ⟨(v, rest), scanWord_length (by decide) h⟩
      | none => readNumber ps
termination_by (ps.length, 0)
decreasing_by all_goals (simp_wf; simp_all; omega)

/-- The items of a list up to its closing bracket. -/
def readItems (room : Room) (ps : List Point) : Shrinking (List Value) ps :=
  match readValue room ps with
  | .error e => .error e
  | .ok ⟨(v, rest), hr⟩ =>
      have hs := skipGap_length_le rest
      match h : skipGap rest with
      | .char ']' :: tail => .ok ⟨([v], tail), by simp_all; omega⟩
      | .char ',' :: tail =>
          have hn := skipGap_length_le tail
          match readItems room (skipGap tail) with
          | .error e => .error e
          | .ok ⟨(vs, tail'), ht⟩ => .ok ⟨(v :: vs, tail'), by simp_all; omega⟩
      | other => .error (.commaExpected, other.length)
termination_by (ps.length, 1)
decreasing_by
  · exact Prod.Lex.right _ (by decide)
  · refine Prod.Lex.left _ _ ?_
    have := congrArg List.length h
    simp only [List.length_cons] at this hr
    omega

/-- The fields of an object up to its closing brace, on top of those read. -/
def readFields (room : Room) (seen : Fields) (ps : List Point) : Shrinking Fields ps :=
  match ps with
  | .char '"' :: rest =>
      match h : scanText (rest.length + 1) rest with
      | .error e => .error e
      | .ok (name, rest₁) =>
          have h₁ := scanText_length h
          have h₂ := skipGap_length_le rest₁
          match h' : skipGap rest₁ with
          | .char ':' :: rest₂ =>
              have h₃ := skipGap_length_le rest₂
              match readValue room (skipGap rest₂) with
              | .error e => .error e
              | .ok ⟨(v, rest₃), h₄⟩ =>
                  have h₅ := skipGap_length_le rest₃
                  let fields := Table.put seen (Text.ofPoints name) v
                  match h'' : skipGap rest₃ with
                  | .char '}' :: tail => .ok ⟨(fields, tail), by simp_all; omega⟩
                  | .char ',' :: tail =>
                      have h₆ := skipGap_length_le tail
                      match readFields room fields (skipGap tail) with
                      | .error e => .error e
                      | .ok ⟨(all, tail'), ht⟩ => .ok ⟨(all, tail'), by simp_all; omega⟩
                  | other => .error (.commaExpected, other.length)
          | other => .error (.colonExpected, other.length)
  | ps => .error (.nameExpected, ps.length)
termination_by (ps.length, 1)
decreasing_by all_goals (simp_wf; simp_all; omega)

end

/-! ## §6. Whole texts. -/

/-- The value that points hold. -/
def readPoints (room : Room) (ps : List Point) : Except Misread Value :=
  let refuse (cause : Misread.Cause) (left : Nat) : Except Misread Value :=
    .error (Misread.locate ps cause left)
  match readValue room (skipGap ps) with
  | .error (cause, left) => refuse cause left
  | .ok ⟨(v, rest), _⟩ =>
      let rest := skipGap rest
      if rest.isEmpty then .ok v else refuse .furtherText rest.length

/-- The value that a text holds.  A byte order mark is no part of a text. -/
def readWithin (room : Room) (text : Text) : Except Misread Value :=
  let ps := text.points
  if ps.head? == some (.char '\uFEFF') then
    .error (Misread.locate ps .byteOrderMark ps.length)
  else readPoints room ps

/-- The value that a text holds, if there is room for any brackets. -/
def read (text : Text) : Except Misread Value :=
  readWithin none text

end Mandate.Json
