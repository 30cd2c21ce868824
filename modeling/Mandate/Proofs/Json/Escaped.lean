/-
  Mandate.Proofs.Json.Escaped
  ────────────────────────────────
  **WRITTEN TEXTS ARE READ BACK.**

  Between the quotes of a written text stand printable characters of ASCII only: any other
  character is escaped, by a letter or by the 16-bit units that it is made of.  A reader undoes
  the escapes one by one.  No character is half of a pair of units, so the unit of one never
  takes the escape behind it along.

  Main results:
    * `hexValues?_hex`        — hexadecimal digits are read back;
    * `escaped_escapeChar`    — the forms that a character is written in;
    * `Escaped.scanText`      — in each of them it is scanned as itself;
    * `scanText_escaped`      — and so are several, up to the closing quote;
    * `textChars_printed`     — and any text is written in printable characters of ASCII.
-/
import Mandate.Proofs.Json.Reading
import Mathlib.Algebra.Group.Nat.Defs

namespace Mandate.Text

/-! ## §1. Hexadecimal digits. -/

theorem hexValue?_hexDigit {d : Nat} (hd : d < 16) : hexValue? (hexDigit d) = some d := by
  have hall : ∀ d < 16, hexValue? (hexDigit d) = some d := by decide
  exact hall d hd

theorem hexValues?_append (cs : List Char) (c : Char) :
    hexValues? (cs ++ [c]) = (hexValues? cs).bind fun n => (hexValue? c).map (16 * n + ·) := by
  unfold hexValues?
  rw [List.foldlM_append]
  cases cs.foldlM (fun acc c => (hexValue? c).map (16 * acc + ·)) 0 <;> simp

/-- Hexadecimal digits are read back if there are enough of them. -/
theorem hexValues?_hex {width n : Nat} (hn : n < 16 ^ width) :
    hexValues? (hex width n) = some n := by
  induction width generalizing n with
  | zero =>
      obtain rfl : n = 0 := by omega
      rfl
  | succ w ih =>
      have hdigit : n % 16 < 16 := Nat.mod_lt _ (by decide)
      rw [hex, hexValues?_append, ih (by rw [Nat.pow_succ] at hn; omega)]
      show (hexValue? (hexDigit (n % 16))).map (16 * (n / 16) + ·) = some n
      rw [hexValue?_hexDigit hdigit, Option.map_some, Nat.div_add_mod]

end Mandate.Text

namespace Mandate.Json

variable {cs : List Char} {ps rest : List Point} {c : Char} {p : Point} {start : Nat}

/-! ## §2. Units. -/

theorem exists_hex_four (n : Nat) : ∃ a b c d, Text.hex 4 n = [a, b, c, d] :=
  ⟨_, _, _, _, rfl⟩

/-- Four digits with a point behind them are read as a unit. -/
theorem unit?_hex {n : Nat} (hn : n < 0x10000) (hrest : rest ≠ []) :
    unit? ((Text.hex 4 n).map .char ++ rest) = some (n, rest) := by
  obtain ⟨e, rest, rfl⟩ := List.exists_cons_of_ne_nil hrest
  have hvalue : Text.hexValues? (Text.hex 4 n) = some n := Text.hexValues?_hex hn
  obtain ⟨a, b, c, d, hhex⟩ := exists_hex_four n
  rw [hhex] at hvalue ⊢
  show (Text.hexValues? [a, b, c, d]).map (fun n => (n, e :: rest)) = _
  rw [hvalue, Option.map_some]

/-- A unit that leads no pair is a point by itself. -/
theorem unitPoint_single {n : Nat} (hn : n < 0x10000) (hlead : leadsPair n = false)
    (hrest : rest ≠ []) :
    unitPoint ((Text.hex 4 n).map .char ++ rest) = .ok (.ofNat n, rest) := by
  unfold unitPoint
  rw [unit?_hex hn hrest]
  dsimp only
  split
  · rw [hlead]
    rfl
  · rfl

theorem leadsPair_iff {n : Nat} : leadsPair n = true ↔ 0xD800 ≤ n ∧ n ≤ 0xDBFF := by
  unfold leadsPair
  rw [Bool.and_eq_true, decide_eq_true_eq, decide_eq_true_eq]

theorem endsPair_iff {n : Nat} : endsPair n = true ↔ 0xDC00 ≤ n ∧ n ≤ 0xDFFF := by
  unfold endsPair
  rw [Bool.and_eq_true, decide_eq_true_eq, decide_eq_true_eq]

/-- Two units of a pair are one character. -/
theorem unitPoint_pair {lead trail : Nat} (hlead : leadsPair lead = true)
    (htrail : endsPair trail = true) (hrest : rest ≠ []) :
    unitPoint ((Text.hex 4 lead).map .char ++ ((escapeUnit trail).map .char ++ rest))
      = .ok (.char (joinPair lead trail), rest) := by
  have hleadlt : lead < 0x10000 := Nat.lt_of_le_of_lt (leadsPair_iff.mp hlead).2 (by decide)
  have htraillt : trail < 0x10000 := Nat.lt_of_le_of_lt (endsPair_iff.mp htrail).2 (by decide)
  have hlength : 5 ≤ ((Text.hex 4 trail).map Point.char ++ rest).length := by
    rw [List.length_append, List.length_map, Text.hex_length]
    have := List.length_pos_iff.mpr hrest
    omega
  have htrailing := unit?_hex htraillt hrest
  have hunit : (escapeUnit trail).map Point.char ++ rest
      = .char '\\' :: .char 'u' :: ((Text.hex 4 trail).map .char ++ rest) := rfl
  unfold unitPoint
  rw [hunit, unit?_hex hleadlt (List.cons_ne_nil _ _)]
  generalize (Text.hex 4 trail).map Point.char ++ rest = more at hlength htrailing
  show (if leadsPair lead && decide (5 ≤ more.length) then _ else _) = _
  rw [hlead, decide_eq_true hlength, Bool.true_and, if_pos rfl, htrailing]
  dsimp only
  rw [if_pos htrail]

/-! ## §3. Characters. -/

theorem scanText_unit (h : unitPoint ps = .ok (p, rest)) :
    scanText start (.char '\\' :: .char 'u' :: ps)
      = (scanText start rest).map fun q => (p :: q.1, q.2) := by
  rw [scanText]
  split
  next he =>
    rw [h] at he
    cases he
  next he =>
    rw [h] at he
    cases he
    rfl

theorem scanText_letter {e : Char} (he : e ≠ 'u') (h : escaped? e = some c) :
    scanText start (.char '\\' :: .char e :: rest)
      = (scanText start rest).map fun p => (.char c :: p.1, p.2) := by
  rw [scanText]
  · rw [Point.char?, Option.bind_some, h]
  · exact fun hu => he (Point.char.inj hu)

/-- No character is half of a pair. -/
theorem no_half (c : Char) : leadsPair c.toNat = false ∧ endsPair c.toNat = false := by
  have hvalid : c.toNat < 0xD800 ∨ 0xDFFF < c.toNat ∧ c.toNat < 0x110000 := c.valid
  rw [← Bool.not_eq_true, ← Bool.not_eq_true, leadsPair_iff, endsPair_iff]
  omega

/-- A character is the point of its number. -/
theorem ofNat_toNat (c : Char) : Point.ofNat c.toNat = .char c := by
  have hvalid : c.toNat < 0xD800 ∨ 0xDFFF < c.toNat ∧ c.toNat < 0x110000 := c.valid
  unfold Point.ofNat
  rw [if_neg (by omega), Char.ofNat_toNat]

/-- A character beyond 16 bits is joined from the units it is split into. -/
theorem joinPair_units {c : Char} (hc : 0x10000 ≤ c.toNat) :
    joinPair (0xD800 + (c.toNat - 0x10000) / 0x400) (0xDC00 + (c.toNat - 0x10000) % 0x400) = c := by
  have hsum : 0x10000 + (0xD800 + (c.toNat - 0x10000) / 0x400 - 0xD800) * 0x400
      + (0xDC00 + (c.toNat - 0x10000) % 0x400 - 0xDC00) = c.toNat := by omega
  unfold joinPair
  rw [hsum, Char.ofNat_toNat]

/-- A character that can be printed, and is of ASCII. -/
def Printed (c : Char) : Prop := 0x20 ≤ c.toNat ∧ c.toNat ≤ 0x7E

instance (c : Char) : Decidable (Printed c) := inferInstanceAs (Decidable (_ ∧ _))

/-- Characters that can be printed, and are of ASCII. -/
def AllPrinted (cs : List Char) : Prop := ∀ c ∈ cs, Printed c

instance (cs : List Char) : Decidable (AllPrinted cs) := List.decidableBAll _ cs

theorem allPrinted_cons_iff : AllPrinted (c :: cs) ↔ Printed c ∧ AllPrinted cs :=
  List.forall_mem_cons

theorem allPrinted_append_iff {ds : List Char} :
    AllPrinted (cs ++ ds) ↔ AllPrinted cs ∧ AllPrinted ds := List.forall_mem_append

/-- The forms of a character between quotes. -/
inductive Escaped (c : Char) : List Char → Prop
  | letter (e : Char) (he : e ≠ 'u') (hc : escaped? e = some c) (hprinted : Printed e) :
      Escaped c ['\\', e]
  | plain (hplain : IsPlain c) (hprinted : Printed c) : Escaped c [c]
  | unit (h : c.toNat < 0x10000) : Escaped c (escapeUnit c.toNat)
  | pair (h : 0x10000 ≤ c.toNat) :
      Escaped c (escapeUnit (0xD800 + (c.toNat - 0x10000) / 0x400)
        ++ escapeUnit (0xDC00 + (c.toNat - 0x10000) % 0x400))

/-- A character that is asked for has its letter, and any other its own form. -/
theorem escaped_ite {a e : Char} (ha : Escaped a ['\\', e]) (hother : c ≠ a → Escaped c cs) :
    Escaped c (if c = a then ['\\', e] else cs) := by
  by_cases h : c = a
  · rw [if_pos h, h]
    exact ha
  · rw [if_neg h]
    exact hother h

/-- A character is written in one of these forms. -/
theorem escaped_escapeChar (c : Char) : Escaped c (escapeChar c) := by
  unfold escapeChar
  refine escaped_ite (.letter '"' (by decide) rfl (by decide)) fun hquote => ?_
  refine escaped_ite (.letter '\\' (by decide) rfl (by decide)) fun hslash => ?_
  refine escaped_ite (.letter 'n' (by decide) rfl (by decide)) fun _ => ?_
  refine escaped_ite (.letter 'r' (by decide) rfl (by decide)) fun _ => ?_
  refine escaped_ite (.letter 't' (by decide) rfl (by decide)) fun _ => ?_
  refine escaped_ite (.letter 'f' (by decide) rfl (by decide)) fun _ => ?_
  refine escaped_ite (.letter 'b' (by decide) rfl (by decide)) fun _ => ?_
  by_cases hplain : 0x20 ≤ c.toNat ∧ c.toNat ≤ 0x7E
  · rw [if_pos hplain]
    exact .plain ⟨hquote, hslash, hplain.1⟩ hplain
  rw [if_neg hplain]
  by_cases hunit : c.toNat < 0x10000
  · rw [if_pos hunit]
    exact .unit hunit
  · rw [if_neg hunit]
    exact .pair (Nat.le_of_not_lt hunit)

/-- An escaped character is scanned as itself, in front of anything. -/
theorem Escaped.scanText (h : Escaped c cs) (hrest : rest ≠ []) :
    scanText start (cs.map .char ++ rest)
      = (scanText start rest).map fun p => (.char c :: p.1, p.2) := by
  cases h with
  | letter e he hc _ => exact scanText_letter he hc
  | plain hplain _ => exact scanText_cons hplain start
  | unit hunit =>
      have hpoint := unitPoint_single hunit (no_half c).1 hrest
      rw [ofNat_toNat] at hpoint
      exact scanText_unit hpoint
  | pair hpair =>
      have hvalid : c.toNat < 0xD800 ∨ 0xDFFF < c.toNat ∧ c.toNat < 0x110000 := c.valid
      have hlead : leadsPair (0xD800 + (c.toNat - 0x10000) / 0x400) = true :=
        leadsPair_iff.mpr ⟨by omega, by omega⟩
      have htrail : endsPair (0xDC00 + (c.toNat - 0x10000) % 0x400) = true :=
        endsPair_iff.mpr ⟨by omega, by omega⟩
      have hpoint := unitPoint_pair hlead htrail hrest
      rw [joinPair_units hpair] at hpoint
      rw [List.map_append, List.append_assoc]
      exact scanText_unit hpoint

theorem hex_printed (width n : Nat) : AllPrinted (Text.hex width n) := by
  have hdigit : ∀ d < 16, Printed (Text.hexDigit d) := by decide
  induction width generalizing n with
  | zero => exact nofun
  | succ w ih =>
      have hlast : Printed (Text.hexDigit (n % 16)) := hdigit _ (Nat.mod_lt _ (by decide))
      rw [Text.hex, allPrinted_append_iff]
      exact ⟨ih _, List.forall_mem_singleton.mpr hlast⟩

theorem escapeUnit_printed (n : Nat) : AllPrinted (escapeUnit n) :=
  allPrinted_cons_iff.mpr ⟨by decide, allPrinted_cons_iff.mpr ⟨by decide, hex_printed 4 n⟩⟩

theorem Escaped.printed (h : Escaped c cs) : AllPrinted cs := by
  cases h with
  | letter e _ _ hprinted =>
      exact allPrinted_cons_iff.mpr ⟨by decide, List.forall_mem_singleton.mpr hprinted⟩
  | plain _ hprinted => exact List.forall_mem_singleton.mpr hprinted
  | unit _ => exact escapeUnit_printed _
  | pair _ => exact allPrinted_append_iff.mpr ⟨escapeUnit_printed _, escapeUnit_printed _⟩

/-! ## §4. Texts. -/

/-- Escaped characters are scanned as themselves, up to the closing quote. -/
theorem scanText_escaped (t : List Char) (start : Nat) (rest : List Point) :
    scanText start ((t.flatMap escapeChar).map .char ++ .char '"' :: rest)
      = .ok (t.map .char, rest) := by
  induction t with
  | nil => rw [List.flatMap_nil, List.map_nil, List.nil_append, scanText]
  | cons c t ih =>
      have hne : (t.flatMap escapeChar).map Point.char ++ .char '"' :: rest ≠ [] :=
        List.append_ne_nil_of_right_ne_nil _ (List.cons_ne_nil _ _)
      rw [List.flatMap_cons, List.map_append, List.append_assoc,
        (escaped_escapeChar c).scanText hne, ih]
      rfl

/-- A text is written in printable characters of ASCII. -/
theorem textChars_printed (t : Text) : AllPrinted (textChars t) := by
  have hpoint (p : Point) : AllPrinted (escapePoint p) :=
    match p with
    | .char c => (escaped_escapeChar c).printed
    | .half h => escapeUnit_printed h.unit
  have hbody : AllPrinted (t.points.flatMap escapePoint) := by
    intro d hd
    obtain ⟨p, -, hd⟩ := List.mem_flatMap.mp hd
    exact hpoint p d hd
  unfold textChars
  rw [List.cons_append, allPrinted_cons_iff, allPrinted_append_iff]
  exact ⟨by decide, hbody, by decide⟩

end Mandate.Json
