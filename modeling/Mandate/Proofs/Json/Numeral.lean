/-
  Mandate.Proofs.Json.Numeral
  ────────────────────────────────
  **WRITTEN NUMBERS ARE READ BACK.**

  A numeral has a sign, digits before the point, digits behind it, and an exponent.  A number
  is written as the characters of a numeral, an integer without point and exponent, a double
  with one of them, so a reader can tell the two apart.

      Numeral.Proper   — digits where digits belong, and no zero in front of others
      Stops            — what a numeral ends in front of
      Number.Writable  — finite, and not longer than a reader takes

  Main results:
    * `scanNumeral_chars`        — the characters of a numeral are scanned as that numeral;
    * `exists_numeral_of_layout` — the shortest text of a double is a numeral of that value;
    * `exists_numeral`           — every writable number is written as a numeral that is read
                                   as the number;
    * `writable_of_value`        — and every finite number that is read is writable.
-/
import Mandate.Json.Reader
import Mandate.Proofs.Number.Shortest
import Mathlib.Data.List.TakeWhile

namespace Mandate

/-- A number that a text can hold: finite, and of no more digits than a reader takes. -/
def Number.Writable : Number → Prop
  | .int n => (Decimal.digitsOf n.natAbs).length ≤ Json.maxDigits
  | .double x => x.isFinite = true

instance (n : Number) : Decidable n.Writable := by
  cases n <;> unfold Number.Writable <;> infer_instance

namespace Json

variable {ds rest : List Char}

/-! ## §1. Digits. -/

/-- Digits and nothing else. -/
def AllDigits (ds : List Char) : Prop := ∀ c ∈ ds, isDigit c = true

instance (ds : List Char) : Decidable (AllDigits ds) := List.decidableBAll _ ds

theorem AllDigits.append {es : List Char} (hds : AllDigits ds) (hes : AllDigits es) :
    AllDigits (ds ++ es) := List.forall_mem_append.mpr ⟨hds, hes⟩

theorem AllDigits.cons {c : Char} (hc : isDigit c = true) (hds : AllDigits ds) :
    AllDigits (c :: ds) := List.forall_mem_cons.mpr ⟨hc, hds⟩

theorem allDigits_zeros (n : ℕ) : AllDigits (List.replicate n '0') := by
  intro c hc
  rw [List.eq_of_mem_replicate hc]
  decide

theorem allDigits_digitsOf (n : ℕ) : AllDigits (Decimal.digitsOf n) :=
  fun _ => Nat.isDigit_of_mem_toDigits (by decide) (by decide)

theorem digitsOf_ne_nil (n : ℕ) : Decimal.digitsOf n ≠ [] := Nat.toDigits_ne_nil

theorem digitsValue_eq (ds : List Char) : digitsValue ds = Nat.ofDigitChars 10 ds 0 := rfl

theorem digitsValue_digitsOf (n : ℕ) : digitsValue (Decimal.digitsOf n) = n :=
  Nat.ofDigitChars_ten_toDigits

theorem digitsValue_zeros_append (n : ℕ) (ds : List Char) :
    digitsValue (List.replicate n '0' ++ ds) = digitsValue ds := by
  rw [digitsValue_eq, Nat.ofDigitChars_append, Nat.ofDigitChars_replicate_zero, Nat.mul_zero,
    digitsValue_eq]

theorem digitsValue_append_zeros (ds : List Char) (n : ℕ) :
    digitsValue (ds ++ List.replicate n '0') = digitsValue ds * 10 ^ n := by
  rw [digitsValue_eq, Nat.ofDigitChars_append, Nat.ofDigitChars_replicate_zero, digitsValue_eq,
    Nat.mul_comm]

/-- The digits of a positive natural do not start with a zero. -/
theorem head?_digitsOf {n : ℕ} (hn : 0 < n) : (Decimal.digitsOf n).head? ≠ some '0' := by
  unfold Decimal.digitsOf
  have hone : ∀ n < 10, 0 < n → [Nat.digitChar n].head? ≠ some '0' := by decide
  induction n using Nat.strongRecOn with
  | ind n ih =>
      rw [Nat.toDigits_eq_if (by decide)]
      split
      next hsmall => exact hone n hsmall hn
      next hlarge =>
        have hhead := ih (n / 10) (by omega) (by omega)
        rwa [List.head?_append_of_ne_nil _ Nat.toDigits_ne_nil]

theorem digitsValue_lt (hds : AllDigits ds) : digitsValue ds < 10 ^ ds.length := by
  induction ds using List.reverseRecOn with
  | nil => decide
  | append_singleton ds c ih =>
      obtain ⟨hds, hc⟩ := List.forall_mem_append.mp hds
      have hc : isDigit c = true := hc c (List.mem_singleton_self c)
      have hle : c.toNat - 48 ≤ 9 := by
        have : c ≤ '9' := by
          simp only [isDigit, Bool.and_eq_true, decide_eq_true_eq] at hc
          exact hc.2
        have : c.toNat ≤ 57 := this
        omega
      have hlast : digitsValue (ds ++ [c]) = 10 * digitsValue ds + (c.toNat - 48) := by
        unfold digitsValue
        rw [List.foldl_append]
        rfl
      rw [hlast, List.length_append, List.length_singleton, Nat.pow_succ]
      have := ih hds
      omega

/-- A run of digits ends in front of what is no digit. -/
theorem takeWhile_digits (hds : AllDigits ds) (hrest : ∀ c ∈ rest.head?, isDigit c = false) :
    (ds ++ rest).takeWhile isDigit = ds := by
  rw [List.takeWhile_append_of_pos hds]
  cases rest with
  | nil => simp
  | cons c rest => simp [hrest c rfl]

theorem dropWhile_digits (hds : AllDigits ds) (hrest : ∀ c ∈ rest.head?, isDigit c = false) :
    (ds ++ rest).dropWhile isDigit = rest := by
  rw [List.dropWhile_append_of_pos hds]
  cases rest with
  | nil => rfl
  | cons c rest => simp [hrest c rfl]

/-! ## §2. Numerals. -/

/-- What a numeral ends in front of: no digit, no point and no exponent. -/
def Stops (rest : List Char) : Prop :=
  ∀ c ∈ rest.head?, isDigit c = false ∧ c ≠ '.' ∧ c ≠ 'e' ∧ c ≠ 'E'

theorem Stops.digit (h : Stops rest) : ∀ c ∈ rest.head?, isDigit c = false :=
  fun c hc => (h c hc).1

namespace Numeral

/-- A minus sign in front of a negative numeral. -/
def signChars (negative : Bool) : List Char := if negative then ['-'] else []

/-- The digits behind a point, if there are any. -/
def fractionChars : List Char → List Char
  | [] => []
  | d :: ds => '.' :: d :: ds

/-- An exponent with its sign, if there is one. -/
def exponentChars : Option (Bool × List Char) → List Char
  | none => []
  | some (negative, ds) => 'e' :: (if negative then '-' else '+') :: ds

/-- The characters of a numeral. -/
def chars (n : Numeral) : List Char :=
  signChars n.negative ++ (n.whole ++ (fractionChars n.fraction ++ exponentChars n.exponent))

/-- Digits where digits belong, and no zero in front of others. -/
structure Proper (n : Numeral) : Prop where
  whole : AllDigits n.whole
  nonempty : n.whole ≠ []
  lone : n.whole.head? = some '0' → n.whole = ['0']
  fraction : AllDigits n.fraction
  exponent : ∀ e ∈ n.exponent, AllDigits e.2 ∧ e.2 ≠ []

/-- The power of ten that the exponent of a numeral stands for. -/
def power (n : Numeral) : ℤ :=
  match n.exponent with
  | none => 0
  | some (negative, ds) => if negative then -(digitsValue ds : ℤ) else digitsValue ds

end Numeral

open Numeral (signChars fractionChars exponentChars)

theorem scanExponent_chars {e : Option (Bool × List Char)}
    (he : ∀ p ∈ e, AllDigits p.2 ∧ p.2 ≠ []) (hrest : Stops rest) :
    scanExponent (exponentChars e ++ rest) = (e, rest) := by
  cases e with
  | none =>
      cases rest with
      | nil => rfl
      | cons c rest =>
          obtain ⟨-, -, hsmall, hlarge⟩ := hrest c rfl
          simp [scanExponent, exponentChars, hsmall, hlarge]
  | some p =>
      obtain ⟨negative, ds⟩ := p
      obtain ⟨hds, hne⟩ := he _ rfl
      have htake := takeWhile_digits hds hrest.digit
      have hdrop := dropWhile_digits hds hrest.digit
      cases negative <;> simp [scanExponent, exponentChars, htake, hdrop, hne]

/-- Behind the digits of a fraction comes no digit, and behind none no point. -/
theorem exponentChars_head {e : Option (Bool × List Char)} (hrest : Stops rest) :
    ∀ c ∈ (exponentChars e ++ rest).head?, isDigit c = false ∧ c ≠ '.' := by
  cases e with
  | none => exact fun c hc => ⟨(hrest c hc).1, (hrest c hc).2.1⟩
  | some p =>
      intro c hc
      cases hc
      decide

theorem scanFraction_chars (hds : AllDigits ds)
    (hrest : ∀ c ∈ rest.head?, isDigit c = false ∧ c ≠ '.') :
    scanFraction (fractionChars ds ++ rest) = (ds, rest) := by
  have hdigit : ∀ c ∈ rest.head?, isDigit c = false := fun c hc => (hrest c hc).1
  cases ds with
  | nil =>
      cases rest with
      | nil => rfl
      | cons c rest =>
          have hpoint := (hrest c rfl).2
          show scanFraction (c :: rest) = _
          rw [scanFraction]
          exact fun _ h => hpoint (List.cons.inj h).1
  | cons d ds =>
      have htake := takeWhile_digits hds hdigit
      have hdrop := dropWhile_digits hds hdigit
      rw [List.cons_append] at htake hdrop
      simp [scanFraction, fractionChars, htake, hdrop]

theorem scanWhole_chars (hds : AllDigits ds) (hne : ds ≠ [])
    (hlone : ds.head? = some '0' → ds = ['0']) (hrest : ∀ c ∈ rest.head?, isDigit c = false) :
    scanWhole (ds ++ rest) = some (ds, rest) := by
  by_cases hzero : ds.head? = some '0'
  · rw [hlone hzero]
    rfl
  · have htake := takeWhile_digits hds hrest
    have hdrop := dropWhile_digits hds hrest
    rw [scanWhole]
    · simp [htake, hdrop, hne]
    · intro tail htail
      cases ds with
      | nil => exact hne rfl
      | cons d ds => exact hzero (congrArg some (List.cons.inj htail).1)

theorem fractionChars_head (ds : List Char) (hrest : ∀ c ∈ rest.head?, isDigit c = false) :
    ∀ c ∈ (fractionChars ds ++ rest).head?, isDigit c = false := by
  cases ds with
  | nil => exact hrest
  | cons d ds =>
      intro c hc
      cases hc
      decide

/-- A sign is a minus sign, and digits are none. -/
theorem scanNumeral_sign (negative : Bool) {cs : List Char} (hcs : cs.head? ≠ some '-') :
    scanNumeral (signChars negative ++ cs) = (scanWhole cs).map fun p =>
      (⟨negative, p.1, (scanFraction p.2).1, (scanExponent (scanFraction p.2).2).1⟩,
        (scanExponent (scanFraction p.2).2).2) := by
  cases negative with
  | true => rfl
  | false =>
      show scanNumeral cs = _
      unfold scanNumeral
      split
      next h =>
        split at h
        next => exact absurd rfl hcs
        next =>
          cases h
          rfl

/-- The characters of a numeral are scanned as that numeral, up to what it ends in front
of. -/
theorem scanNumeral_chars {n : Numeral} (hn : n.Proper) (hrest : Stops rest) :
    scanNumeral (n.chars ++ rest) = some (n, rest) := by
  obtain ⟨negative, whole, fraction, exponent⟩ := n
  obtain ⟨hwhole, hne, hlone, hfraction, hexponent⟩ := hn
  have hhead := exponentChars_head (e := exponent) hrest
  have hdigit := fractionChars_head fraction fun c hc => (hhead c hc).1
  have hminus : (whole ++ (fractionChars fraction ++ (exponentChars exponent ++ rest))).head?
      ≠ some '-' := by
    rw [List.head?_append_of_ne_nil _ hne]
    intro h
    exact absurd (hwhole _ (List.mem_of_mem_head? h)) (by decide)
  unfold Numeral.chars
  simp only [List.append_assoc]
  rw [scanNumeral_sign negative hminus, scanWhole_chars hwhole hne hlone hdigit]
  simp [scanFraction_chars hfraction hhead, scanExponent_chars hexponent hrest]

/-! ## §3. The text of a double. -/

/-- A numeral with a point or an exponent is a double. -/
theorem value_of_point {n : Numeral} (h : n.fraction ≠ [] ∨ n.exponent ≠ none) :
    n.value = .ok (.double (Binary64.ofDecimal n.negative (digitsValue (n.whole ++ n.fraction))
      (n.power - n.fraction.length))) := by
  have hpoint : (n.fraction.isEmpty && n.exponent.isNone) = false := by
    rw [Bool.and_eq_false_iff]
    refine h.imp (fun hfraction => ?_) fun hexponent => ?_
    · exact Bool.eq_false_iff.mpr fun hempty => hfraction (List.isEmpty_iff.mp hempty)
    · exact Bool.eq_false_iff.mpr fun hnone => hexponent (Option.isNone_iff_eq_none.mp hnone)
  unfold Numeral.value
  rw [hpoint]
  rfl

/-- A numeral with a point or an exponent shows a decimal of some value. -/
structure Shows (n : Numeral) (cs : List Char) (v : ℚ) : Prop where
  proper : n.Proper
  chars : n.chars = signChars n.negative ++ cs
  point : n.fraction ≠ [] ∨ n.exponent ≠ none
  value : (digitsValue (n.whole ++ n.fraction) * 10 ^ (n.power - n.fraction.length) : ℚ) = v

/-- Digits around a point. -/
theorem shows_point (negative : Bool) (whole fraction : List Char) (hwhole : AllDigits whole)
    (hne : whole ≠ []) (hlone : whole.head? = some '0' → whole = ['0'])
    (hfraction : AllDigits fraction) (hpoint : fraction ≠ []) :
    Shows ⟨negative, whole, fraction, none⟩ (whole ++ '.' :: fraction)
      (digitsValue (whole ++ fraction) * 10 ^ (-(fraction.length : ℤ))) := by
  refine ⟨⟨hwhole, hne, hlone, hfraction, nofun⟩, ?_, .inl hpoint, ?_⟩
  · obtain ⟨d, ds, rfl⟩ := List.exists_cons_of_ne_nil hpoint
    simp [Numeral.chars, fractionChars, exponentChars]
  · simp [Numeral.power]

/-- A signed exponent has its digits behind its sign. -/
theorem exists_exponentText (e : ℤ) :
    ∃ ds, AllDigits ds ∧ ds ≠ [] ∧ digitsValue ds = e.natAbs ∧
      'e' :: Decimal.exponentText e = exponentChars (some (decide (e < 0), ds)) := by
  have hzero : digitsValue ('0' :: Decimal.digitsOf e.natAbs) = e.natAbs :=
    (digitsValue_zeros_append 1 _).trans (digitsValue_digitsOf _)
  by_cases hlength : (Decimal.digitsOf e.natAbs).length < 2
  · exact ⟨_, (allDigits_digitsOf _).cons rfl, List.cons_ne_nil _ _, hzero,
      by simp [Decimal.exponentText, exponentChars, hlength]⟩
  · exact ⟨_, allDigits_digitsOf _, digitsOf_ne_nil _, digitsValue_digitsOf _,
      by simp [Decimal.exponentText, exponentChars, hlength]⟩

/-- One digit, the others behind a point, and an exponent. -/
theorem shows_exponent (negative : Bool) {c : Char} (hdigits : AllDigits (c :: ds)) (e : ℤ) :
    ∃ exponent, Shows ⟨negative, [c], ds, exponent⟩
      (c :: (fractionChars ds ++ 'e' :: Decimal.exponentText e))
      (digitsValue (c :: ds) * 10 ^ (e - ds.length)) := by
  obtain ⟨hc, hds⟩ := List.forall_mem_cons.mp hdigits
  obtain ⟨es, hes, hne, hvalue, htext⟩ := exists_exponentText e
  have hpower : (if decide (e < 0) = true then -(digitsValue es : ℤ) else digitsValue es) = e := by
    rw [hvalue]
    split
    next he =>
      have := of_decide_eq_true he
      omega
    next he =>
      have := of_decide_eq_false (Bool.eq_false_iff.mpr he)
      omega
  refine ⟨some (decide (e < 0), es), ⟨?_, List.cons_ne_nil _ _, ?_, hds, ?_⟩, ?_, ?_, ?_⟩
  · exact List.forall_mem_singleton.mpr hc
  · intro hzero
    cases hzero
    rfl
  · intro p hp
    cases hp
    exact ⟨hes, hne⟩
  · rw [htext]
    rfl
  · exact .inr (Option.some_ne_none _)
  · show (digitsValue ([c] ++ ds) * 10 ^ ((if decide (e < 0) = true then -(digitsValue es : ℤ)
        else digitsValue es) - ds.length) : ℚ) = _
    rw [hpower, List.singleton_append]

section Layout

variable (hds : AllDigits ds) (hne : ds ≠ []) (hhead : ds.head? ≠ some '0')

include hds hne in
/-- Digits behind the point, with zeros between. -/
theorem shows_behind (negative : Bool) (k : ℕ) :
    Shows ⟨negative, ['0'], List.replicate k '0' ++ ds, none⟩
      ('0' :: '.' :: (List.replicate k '0' ++ ds))
      (digitsValue ds * 10 ^ (-((k : ℤ) + ds.length))) := by
  have h := shows_point negative ['0'] _ (by decide) (by decide) (fun _ => rfl)
    ((allDigits_zeros k).append hds) (List.append_ne_nil_of_right_ne_nil _ hne)
  have hdigits : digitsValue (['0'] ++ (List.replicate k '0' ++ ds)) = digitsValue ds :=
    (digitsValue_zeros_append 1 _).trans (digitsValue_zeros_append k ds)
  rw [hdigits, List.length_append, List.length_replicate, Nat.cast_add] at h
  exact h

include hds hhead in
/-- Digits on both sides of the point. -/
theorem shows_between (negative : Bool) {k : ℕ} (hpos : 0 < k) (hlt : k < ds.length) :
    Shows ⟨negative, ds.take k, ds.drop k, none⟩ (ds.take k ++ '.' :: ds.drop k)
      (digitsValue ds * 10 ^ ((k : ℤ) - ds.length)) := by
  have hwhole : (ds.take k).head? ≠ some '0' := by rwa [List.head?_take, if_neg hpos.ne']
  have htake : ds.take k ≠ [] := by
    rw [← List.length_pos_iff, List.length_take]
    omega
  have hdrop : ds.drop k ≠ [] := by
    rw [← List.length_pos_iff, List.length_drop]
    omega
  have h := shows_point negative _ _ (fun c hc => hds c (List.mem_of_mem_take hc)) htake
    (absurd · hwhole) (fun c hc => hds c (List.mem_of_mem_drop hc)) hdrop
  rwa [List.take_append_drop, List.length_drop, Nat.cast_sub hlt.le, neg_sub] at h

include hds hne hhead in
/-- Digits in front of the point, with zeros behind them. -/
theorem shows_before (negative : Bool) (k : ℕ) :
    Shows ⟨negative, ds ++ List.replicate k '0', ['0'], none⟩
      (ds ++ List.replicate k '0' ++ ['.', '0']) (digitsValue ds * 10 ^ (k : ℤ)) := by
  have hwhole : (ds ++ List.replicate k '0').head? ≠ some '0' := by
    rwa [List.head?_append_of_ne_nil _ hne]
  have h := shows_point negative _ ['0'] (hds.append (allDigits_zeros k))
    (List.append_ne_nil_of_left_ne_nil hne _) (absurd · hwhole) (by decide)
    (List.cons_ne_nil _ _)
  have hzeros : ds ++ List.replicate k '0' ++ ['0'] = ds ++ List.replicate (k + 1) '0' := by
    rw [List.replicate_succ', List.append_assoc]
  have hvalue : (digitsValue (ds ++ List.replicate k '0' ++ ['0']) * 10 ^ (-(1 : ℤ)) : ℚ)
      = digitsValue ds * 10 ^ (k : ℤ) := by
    rw [hzeros, digitsValue_append_zeros, zpow_natCast]
    push_cast
    rw [pow_succ]
    ring
  rwa [List.length_singleton, Nat.cast_one, hvalue] at h

end Layout

/-- The shortest text of a double is that of a numeral with a point or an exponent, and of
the same value. -/
theorem exists_numeral_of_layout (negative : Bool) {d : Decimal} (hd : 0 < d.digits) :
    ∃ n : Numeral, n.negative = negative ∧ Shows n d.layout d.value := by
  obtain ⟨digits, exponent⟩ := d
  have hall := allDigits_digitsOf digits
  have hne := digitsOf_ne_nil digits
  have hhead := head?_digitsOf hd
  have hvalue := digitsValue_digitsOf digits
  unfold Decimal.layout Decimal.value
  dsimp only
  generalize Decimal.digitsOf digits = ds at hall hne hhead hvalue
  subst hvalue
  split
  next =>
    -- Far from the point, the first digit stands alone in front of it.
    obtain ⟨c, ds, rfl⟩ := List.exists_cons_of_ne_nil hne
    obtain ⟨e, h⟩ := shows_exponent negative hall (((c :: ds).length : ℤ) + exponent - 1)
    have hexponent : ((c :: ds).length : ℤ) + exponent - 1 - ds.length = exponent := by
      rw [List.length_cons]
      omega
    rw [hexponent] at h
    refine ⟨⟨negative, [c], ds, e⟩, rfl, ?_⟩
    cases ds <;> exact h
  next =>
  split
  next hpoint =>
    -- All digits stand behind the point.
    have h := shows_behind hall hne negative (-((ds.length : ℤ) + exponent)).toNat
    rw [show -(((-((ds.length : ℤ) + exponent)).toNat : ℤ) + ds.length) = exponent by omega] at h
    exact ⟨_, rfl, h⟩
  next hpoint =>
  split
  next hnegative =>
    -- The point stands among the digits.
    have h := shows_between hall hhead negative (k := ((ds.length : ℤ) + exponent).toNat)
      (by omega) (by omega)
    rw [show ((((ds.length : ℤ) + exponent).toNat : ℤ) - ds.length) = exponent by omega] at h
    exact ⟨_, rfl, h⟩
  next hnegative =>
    -- The decimal is a natural, and zeros fill it up to the point.
    have h := shows_before hall hne hhead negative exponent.toNat
    rw [Int.toNat_of_nonneg (by omega)] at h
    exact ⟨_, rfl, h⟩

/-! ## §4. Numbers. -/

/-- An integer is written as its digits. -/
theorem exists_numeral_of_int {i : ℤ} (h : (Decimal.digitsOf i.natAbs).length ≤ maxDigits) :
    ∃ n : Numeral, n.Proper ∧ n.chars = intChars i ∧ n.value = .ok (.int i) := by
  refine ⟨⟨decide (i < 0), Decimal.digitsOf i.natAbs, [], none⟩,
    ⟨allDigits_digitsOf _, digitsOf_ne_nil _, fun hzero => ?_, nofun, nofun⟩, ?_, ?_⟩
  · rcases Nat.eq_zero_or_pos i.natAbs with hi | hi
    · show Decimal.digitsOf i.natAbs = ['0']
      rw [hi]
      rfl
    · exact absurd hzero (head?_digitsOf hi)
  · unfold Numeral.chars intChars signChars
    by_cases hi : i < 0 <;> simp [fractionChars, exponentChars, hi]
  · show (if maxDigits < (Decimal.digitsOf i.natAbs).length then _ else _) = _
    rw [if_neg (Nat.not_lt.mpr h)]
    dsimp only
    rw [digitsValue_digitsOf]
    congr 2
    by_cases hi : i < 0
    · simp only [hi, decide_true, if_true]
      omega
    · simp only [hi, decide_false, Bool.false_eq_true, if_false]
      omega

/-- A finite double is written as its shortest text, with its sign. -/
theorem exists_numeral_of_double {x : Binary64} (h : x.isFinite = true) :
    ∃ n : Numeral, n.Proper ∧ n.chars = x.render specialTexts ∧ n.value = .ok (.double x) := by
  have hfinite : x.magnitude < Binary64.infinityBits := of_decide_eq_true h
  have hnan : x.isNaN = false := decide_eq_false hfinite.not_gt
  have hinfinite : x.isInfinite = false := beq_eq_false_iff_ne.mpr hfinite.ne
  unfold Binary64.render
  rw [hnan, hinfinite]
  by_cases hzero : x.magnitude = 0
  · have hshows := shows_point x.isNegative ['0'] ['0'] (by decide)
      (by decide) (fun _ => rfl) (by decide) (by decide)
    refine ⟨_, hshows.proper, ?_, ?_⟩
    · rw [hshows.chars]
      simp [hzero, signChars]
    · rw [value_of_point hshows.point]
      show Except.ok (Number.double (Binary64.zero x.isNegative)) = _
      unfold Binary64.zero
      rw [← hzero, Binary64.ofMagnitude_magnitude]
  · obtain ⟨n, hnegative, hshows⟩ := exists_numeral_of_layout x.isNegative
      (Decimal.shortest_digits_pos h hzero)
    refine ⟨n, hshows.proper, ?_, ?_⟩
    · rw [hshows.chars, hnegative]
      simp [hzero, signChars]
    · rw [value_of_point hshows.point, hnegative,
        Decimal.ofDecimal_of_eq_shortest h hzero hshows.value]

/-- Every writable number is written as a numeral that is read as the number. -/
theorem exists_numeral {n : Number} (h : n.Writable) :
    ∃ k : Numeral, k.Proper ∧ k.chars = numberChars n ∧ k.value = .ok n :=
  match n with
  | .int _ => exists_numeral_of_int h
  | .double _ => exists_numeral_of_double h

/-- Digits that are not too many stand for a number of not too many digits. -/
theorem length_digitsOf_le {k : ℕ} (hds : AllDigits ds) (hlength : ds.length ≤ k) (hk : 0 < k) :
    (Decimal.digitsOf (digitsValue ds)).length ≤ k :=
  (Nat.length_toDigits_le_iff (by decide) hk).mpr
    ((digitsValue_lt hds).trans_le (Nat.pow_le_pow_right (by decide) hlength))

theorem scanWhole_digits {cs : List Char} (h : scanWhole cs = some (ds, rest)) : AllDigits ds := by
  unfold scanWhole at h
  split at h
  next =>
    cases h
    decide
  next =>
    dsimp only at h
    split at h
    next => cases h
    next =>
      cases h
      exact fun c hc => List.mem_takeWhile_imp hc

theorem scanNumeral_digits {cs : List Char} {n : Numeral} (h : scanNumeral cs = some (n, rest)) :
    AllDigits n.whole := by
  simp only [scanNumeral, Option.map_eq_some_iff] at h
  obtain ⟨⟨whole, rest'⟩, hwhole, heq⟩ := h
  cases heq
  exact scanWhole_digits hwhole

/-- A finite number that is read is writable. -/
theorem writable_of_value {n : Numeral} {v : Number} (hn : AllDigits n.whole)
    (h : n.value = .ok v) (hfinite : ∀ x, v = .double x → x.isFinite = true) : v.Writable := by
  unfold Numeral.value at h
  split at h
  next =>
    split at h
    next => cases h
    next hlength =>
      cases h
      have hnat : (if n.negative = true then -(digitsValue n.whole : ℤ)
          else digitsValue n.whole).natAbs = digitsValue n.whole := by
        split <;> simp
      show (Decimal.digitsOf (Int.natAbs _)).length ≤ maxDigits
      rw [hnat]
      exact length_digitsOf_le hn (Nat.le_of_not_lt hlength) (by decide)
  next =>
    cases h
    exact hfinite _ rfl

end Json

end Mandate
