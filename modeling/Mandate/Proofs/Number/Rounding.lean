/-
  Mandate.Proofs.Number.Rounding
  ────────────────────────────────
  **WHAT ROUNDS TO A DOUBLE.**

  A double stands for an interval of rationals, those nearer to it than to its neighbours.
  Below a power of two the neighbour is half as far away as above it, and the ends of the
  interval belong to it exactly if the mantissa is even.

      Nearest n v           — rounding takes the rational v to the natural n
      Within m q narrow v   — the rational v lies in the interval of m · 2 ^ q

  Main results:
    * `lastPlace_eq_log`    — the exponent of the last place is that of the leading bit;
    * `ofRatio_of_within`   — every quotient in the interval of a double rounds to it;
    * `ofDecimal_of_within` — and so does every decimal there.
-/
import Mandate.Number.Binary64
import Mathlib.Algebra.Order.Field.Power
import Mathlib.Data.Int.Log
import Mathlib.Data.Rat.Floor
import Mathlib.Tactic.FieldSimp
import Mathlib.Tactic.Linarith
import Mathlib.Tactic.Positivity
import Mathlib.Tactic.Ring

namespace Mandate.Binary64

/-! ## §1. Rounding to a natural. -/

/-- A rational is rounded to a natural: no other one is nearer, and it is even if another
one is as near. -/
structure Nearest (n : ℕ) (v : ℚ) : Prop where
  low : (n : ℚ) - 1 / 2 ≤ v
  high : v ≤ n + 1 / 2
  inside : n % 2 = 1 → (n : ℚ) - 1 / 2 < v ∧ v < n + 1 / 2

/-- Over the naturals, the quotient is at most half a step away. -/
theorem Nearest.bounds {num den n : ℕ} (hden : 0 < den) (h : Nearest n (num / den)) :
    2 * (n * den) ≤ 2 * num + den ∧ 2 * num ≤ 2 * (n * den) + den ∧
      (n % 2 = 1 → 2 * (n * den) < 2 * num + den ∧ 2 * num < 2 * (n * den) + den) := by
  have hpos : (0 : ℚ) < den := by exact_mod_cast hden
  obtain ⟨hlow, hhigh, hinside⟩ := h
  rw [le_div_iff₀ hpos] at hlow
  rw [div_le_iff₀ hpos] at hhigh
  refine ⟨?_, ?_, fun hodd => ⟨?_, ?_⟩⟩
  · have : (2 * (n * den) : ℚ) ≤ 2 * num + den := by linarith
    exact_mod_cast this
  · have : (2 * num : ℚ) ≤ 2 * (n * den) + den := by linarith
    exact_mod_cast this
  · have hbelow := (hinside hodd).1
    rw [lt_div_iff₀ hpos] at hbelow
    have : (2 * (n * den) : ℚ) < 2 * num + den := by linarith
    exact_mod_cast this
  · have habove := (hinside hodd).2
    rw [div_lt_iff₀ hpos] at habove
    have : (2 * num : ℚ) < 2 * (n * den) + den := by linarith
    exact_mod_cast this

theorem roundedQuotient_of_nearest {num den n : ℕ} (hden : 0 < den)
    (h : Nearest n (num / den)) : roundedQuotient num den = n := by
  obtain ⟨hlow, hhigh, hinside⟩ := h.bounds hden
  have hdiv : num / den * den + num % den = num := by
    rw [Nat.mul_comm]
    exact Nat.div_add_mod num den
  have hmod : num % den < den := Nat.mod_lt _ hden
  have hle : n < num / den + 2 := by
    have : (num / den + 2) * den = num / den * den + 2 * den := by ring
    exact lt_of_mul_lt_mul_right (a := den) (by omega) (Nat.zero_le _)
  have hge : num / den < n + 1 := by
    have : (n + 1) * den = n * den + den := by ring
    exact lt_of_mul_lt_mul_right (a := den) (by omega) (Nat.zero_le _)
  unfold roundedQuotient
  -- So it is the quotient rounded down, or the next natural.
  rcases Nat.lt_or_ge n (num / den + 1) with hn | hn
  · have heq : num / den = n := by omega
    rw [heq] at hdiv ⊢
    dsimp only
    split
    · rfl
    · split
      · omega
      · split
        · rfl
        · have := hinside (by omega)
          omega
  · have heq : n = num / den + 1 := by omega
    have hmul : n * den = num / den * den + den := by rw [heq]; ring
    dsimp only
    split
    · omega
    · split
      · exact heq.symm
      · split
        · have := hinside (by omega)
          omega
        · exact heq.symm

/-! ## §2. The place of the last bit. -/

theorem pow_toNat_div {b : ℚ} (hb : b ≠ 0) (q : ℤ) : b ^ q.toNat / b ^ (-q).toNat = b ^ q := by
  rw [← zpow_natCast, ← zpow_natCast, ← zpow_sub₀ hb]
  congr 1
  omega

theorem quotient_scaled (num den : ℕ) (q : ℤ) :
    ((num * 2 ^ (-q).toNat : ℕ) : ℚ) / ((den * 2 ^ q.toNat : ℕ) : ℚ) = num / den / 2 ^ q := by
  rw [← pow_toNat_div two_ne_zero q]
  push_cast
  have hup : (2 : ℚ) ^ q.toNat ≠ 0 := by positivity
  have hdown : (2 : ℚ) ^ (-q).toNat ≠ 0 := by positivity
  rw [div_div_eq_mul_div, div_mul_eq_mul_div, div_div]

/-- The leading bits of numerator and denominator give that of the quotient, up to one. -/
theorem quotient_bounds {num den : ℕ} (hnum : num ≠ 0) (hden : den ≠ 0) :
    (2 : ℚ) ^ ((num.log2 : ℤ) - den.log2 - 1) < num / den ∧
      (num / den : ℚ) < 2 ^ ((num.log2 : ℤ) - den.log2 + 1) := by
  have hpos : (0 : ℚ) < den := by exact_mod_cast Nat.pos_of_ne_zero hden
  have hnumle : (2 : ℚ) ^ (num.log2 : ℤ) ≤ num := by
    rw [zpow_natCast]
    exact_mod_cast Nat.log2_self_le hnum
  have hnumlt : (num : ℚ) < 2 ^ ((num.log2 : ℤ) + 1) := by
    have : num < 2 ^ (num.log2 + 1) := Nat.lt_log2_self
    exact_mod_cast this
  have hdenle : (2 : ℚ) ^ (den.log2 : ℤ) ≤ den := by
    rw [zpow_natCast]
    exact_mod_cast Nat.log2_self_le hden
  have hdenlt : (den : ℚ) < 2 ^ ((den.log2 : ℤ) + 1) := by
    have : den < 2 ^ (den.log2 + 1) := Nat.lt_log2_self
    exact_mod_cast this
  constructor
  · rw [lt_div_iff₀ hpos]
    calc (2 : ℚ) ^ ((num.log2 : ℤ) - den.log2 - 1) * den
        < 2 ^ ((num.log2 : ℤ) - den.log2 - 1) * 2 ^ ((den.log2 : ℤ) + 1) := by gcongr
      _ = 2 ^ (num.log2 : ℤ) := by
          rw [← zpow_add₀ two_ne_zero]
          congr 1
          ring
      _ ≤ num := hnumle
  · rw [div_lt_iff₀ hpos]
    calc (num : ℚ) < 2 ^ ((num.log2 : ℤ) + 1) := hnumlt
      _ = 2 ^ ((num.log2 : ℤ) - den.log2 + 1) * 2 ^ (den.log2 : ℤ) := by
          rw [← zpow_add₀ two_ne_zero]
          congr 1
          ring
      _ ≤ 2 ^ ((num.log2 : ℤ) - den.log2 + 1) * den := by gcongr

/-- Whether a quotient reaches a power of two is told by naturals. -/
theorem reached_iff (num : ℕ) {den : ℕ} (hden : den ≠ 0) (e : ℤ) :
    (if e < 0 then decide (den ≤ num * Nat.pow 2 (-e).toNat)
      else decide (den * Nat.pow 2 e.toNat ≤ num)) = true ↔ (2 : ℚ) ^ e ≤ num / den := by
  have hpos : (0 : ℚ) < den := by exact_mod_cast Nat.pos_of_ne_zero hden
  rw [le_div_iff₀ hpos, ← pow_toNat_div two_ne_zero e, div_mul_eq_mul_div,
    div_le_iff₀ (by positivity)]
  have hiff : ((2 : ℚ) ^ e.toNat * den ≤ num * 2 ^ (-e).toNat) ↔
      2 ^ e.toNat * den ≤ num * 2 ^ (-e).toNat := by exact_mod_cast Iff.rfl
  rw [hiff]
  split
  next he =>
    have : e.toNat = 0 := by omega
    simp [this]
  next he =>
    have : (-e).toNat = 0 := by omega
    simp [this, Nat.mul_comm]

/-- The last place is fifty-two below the leading bit, and never below that of the smallest
double. -/
theorem lastPlace_eq_log {num den : ℕ} (hnum : num ≠ 0) (hden : den ≠ 0) :
    lastPlace num den = max (Int.log 2 (num / den : ℚ) - 52) (-1074) := by
  obtain ⟨hlow, hhigh⟩ := quotient_bounds hnum hden
  have hpos : (0 : ℚ) < num / den := lt_of_le_of_lt (by positivity) hlow
  have hlog : ∀ e : ℤ, (2 : ℚ) ^ e ≤ num / den ↔ e ≤ Int.log 2 (num / den : ℚ) := by
    intro e
    have := Int.zpow_le_iff_le_log (b := 2) (x := e) one_lt_two hpos
    rwa [Nat.cast_ofNat] at this
  have hge := (hlog _).mp hlow.le
  have hlt := lt_of_not_ge (mt (hlog _).mpr hhigh.not_ge)
  have hreached := (reached_iff num hden ((num.log2 : ℤ) - den.log2)).trans (hlog _)
  unfold lastPlace
  dsimp only
  congr 2
  by_cases h : (num.log2 : ℤ) - den.log2 ≤ Int.log 2 (num / den : ℚ)
  · rw [if_pos (hreached.mpr h)]
    omega
  · rw [if_neg (mt hreached.mp h)]
    omega

theorem lastPlace_eq {num den : ℕ} {q : ℤ} (hnum : num ≠ 0) (hden : den ≠ 0)
    (hq : -1074 ≤ q) (hlt : (num / den : ℚ) < 2 ^ (q + 53))
    (hle : (2 : ℚ) ^ (q + 52) ≤ num / den ∨ q = -1074) : lastPlace num den = q := by
  have hpos : (0 : ℚ) < num / den := by positivity
  have hlog := Int.lt_zpow_iff_log_lt (b := 2) (x := q + 53) one_lt_two hpos
  rw [Nat.cast_ofNat] at hlog
  have habove := hlog.mp hlt
  rw [lastPlace_eq_log hnum hden]
  rcases hle with hle | rfl
  · have hlog := Int.zpow_le_iff_le_log (b := 2) (x := q + 52) one_lt_two hpos
    rw [Nat.cast_ofNat] at hlog
    have hbelow := hlog.mp hle
    omega
  · omega

/-! ## §3. The interval of a double. -/

/-- The lower end of the interval of a double, in quarters of the last place. -/
def lowEnd (m : ℕ) (narrow : Bool) : ℕ := if narrow then 4 * m - 1 else 4 * m - 2

theorem lowEnd_wide {m : ℕ} (hm : 0 < m) : ((lowEnd m false : ℕ) : ℚ) = 4 * m - 2 := by
  unfold lowEnd
  rw [if_neg Bool.false_ne_true, Nat.cast_sub (by omega)]
  push_cast
  ring

theorem lowEnd_narrow {m : ℕ} (hm : 0 < m) : ((lowEnd m true : ℕ) : ℚ) = 4 * m - 1 := by
  unfold lowEnd
  rw [if_pos rfl, Nat.cast_sub (by omega)]
  push_cast
  ring

theorem two_le_lowEnd {m : ℕ} (narrow : Bool) (hm : 0 < m) : 2 ≤ lowEnd m narrow := by
  unfold lowEnd
  split <;> omega

/-- A rational lies in the interval of `m · 2 ^ q`: half way to either neighbour at most, or
a quarter below a power of two, and with the ends if the mantissa is even. -/
structure Within (m : ℕ) (q : ℤ) (narrow : Bool) (v : ℚ) : Prop where
  low : (lowEnd m narrow : ℚ) * 2 ^ (q - 2) ≤ v
  high : v ≤ (4 * m + 2 : ℕ) * 2 ^ (q - 2)
  inside : m % 2 = 1 →
    (lowEnd m narrow : ℚ) * 2 ^ (q - 2) < v ∧ v < (4 * m + 2 : ℕ) * 2 ^ (q - 2)

/-- The lower neighbour is half as far away as the upper one. -/
def narrowBelow (m : ℕ) (q : ℤ) : Bool := m == exponentWeight && (-1074 : ℤ) < q

/-- Mantissa and exponent of a finite magnitude: the mantissa has its leading bit, unless the
exponent is the least one. -/
structure IsParts (magnitude m : ℕ) (q : ℤ) : Prop where
  least : -1074 ≤ q
  greatest : q ≤ 971
  small : m < 2 * exponentWeight
  leading : exponentWeight ≤ m ∨ q = -1074
  bits : (q + 1074).toNat * exponentWeight + m = magnitude

theorem isParts {x : Binary64} (h : x.isFinite = true) :
    IsParts x.magnitude x.parts.1 x.parts.2 := by
  have hlt : x.magnitude < exponentWeight * 2047 := by
    rw [Nat.mul_comm]
    exact of_decide_eq_true h
  have hdiv := Nat.div_add_mod x.magnitude exponentWeight
  have hmod : x.magnitude % exponentWeight < exponentWeight := Nat.mod_lt _ (by decide)
  have he : x.magnitude / exponentWeight < 2047 := Nat.div_lt_of_lt_mul hlt
  unfold parts
  dsimp only
  generalize x.magnitude / exponentWeight = e at hdiv he
  generalize x.magnitude % exponentWeight = f at hdiv hmod
  cases e with
  | zero =>
      rw [if_pos rfl]
      dsimp only
      exact ⟨le_refl _, by omega, by omega, .inr rfl, by simpa using hdiv⟩
  | succ e =>
      have hplace : ((e + 1 : ℕ) - 1075 + 1074 : ℤ).toNat = e := by omega
      rw [if_neg (Nat.succ_ne_zero e)]
      dsimp only
      refine ⟨by omega, by omega, by omega, .inl (Nat.le_add_right _ _), ?_⟩
      rw [hplace, ← hdiv]
      ring

/-- A double is its sign and its magnitude. -/
theorem ofMagnitude_magnitude (x : Binary64) : ofMagnitude x.isNegative x.magnitude = x := by
  obtain ⟨bits⟩ := x
  have hlt : bits.toNat < signWeight * 2 := bits.toNat_lt
  have hdiv := Nat.div_add_mod bits.toNat signWeight
  have hsign : bits.toNat / signWeight < 2 := Nat.div_lt_of_lt_mul hlt
  have hbits : (if bits.toNat / signWeight == 1 then signWeight + bits.toNat % signWeight
      else bits.toNat % signWeight) = bits.toNat := by
    generalize bits.toNat / signWeight = s at hdiv hsign
    rcases Nat.lt_succ_iff_lt_or_eq.mp hsign with hs | rfl
    · have hs : s = 0 := by omega
      subst hs
      simpa using hdiv
    · simpa using hdiv
  unfold ofMagnitude isNegative magnitude
  rw [hbits, UInt64.ofNat_toNat]

section Interval

variable {m num den magnitude : ℕ} {q : ℤ} {narrow : Bool} {v : ℚ}

theorem zpow_quarter (q : ℤ) : (2 : ℚ) ^ (q - 2) = 2 ^ q / 4 := by
  rw [zpow_sub₀ two_ne_zero]
  norm_num

theorem Within.pos (h : Within m q narrow v) (hm : 0 < m) : 0 < v := by
  have hend : 0 < lowEnd m narrow := Nat.lt_of_lt_of_le Nat.two_pos (two_le_lowEnd narrow hm)
  exact lt_of_lt_of_le (by positivity) h.low

/-- From its mantissa on, an interval is the same with a near neighbour below. -/
theorem Within.nearest (h : Within m q narrow v) (hm : 0 < m)
    (hside : narrow = false ∨ m * 2 ^ q ≤ v) : Nearest m (v / 2 ^ q) := by
  have hscale : (0 : ℚ) < 2 ^ q := by positivity
  obtain ⟨hlow, hhigh, hinside⟩ := h
  rw [zpow_quarter] at hlow hhigh hinside
  push_cast at hhigh hinside
  have hhigh : v / 2 ^ q ≤ m + 1 / 2 := by
    rw [div_le_iff₀ hscale]
    linarith
  have hinsideHigh : m % 2 = 1 → v / 2 ^ q < m + 1 / 2 := by
    intro hodd
    rw [div_lt_iff₀ hscale]
    linarith [(hinside hodd).2]
  rcases hside with rfl | hside
  · rw [lowEnd_wide hm] at hlow hinside
    refine ⟨?_, hhigh, fun hodd => ⟨?_, hinsideHigh hodd⟩⟩
    · rw [le_div_iff₀ hscale]
      linarith
    · rw [lt_div_iff₀ hscale]
      linarith [(hinside hodd).1]
  · have hm : (m : ℚ) ≤ v / 2 ^ q := by rwa [le_div_iff₀ hscale]
    exact ⟨by linarith, hhigh, fun hodd => ⟨by linarith, hinsideHigh hodd⟩⟩

/-- Below a power of two, places are half as wide. -/
theorem Within.nearest_below (h : Within m q true v) (hm : 0 < m) (hside : v < m * 2 ^ q) :
    Nearest (2 * m) (v / 2 ^ (q - 1)) := by
  have hscale : (0 : ℚ) < 2 ^ (q - 1) := by positivity
  have hplace : (2 : ℚ) ^ q = 2 * 2 ^ (q - 1) := by
    rw [zpow_sub₀ two_ne_zero]
    ring
  have hlow := h.low
  rw [zpow_quarter, lowEnd_narrow hm, hplace] at hlow
  rw [hplace] at hside
  refine ⟨?_, ?_, fun hodd => absurd hodd (by omega)⟩
  · rw [le_div_iff₀ hscale]
    push_cast
    linarith
  · rw [div_le_iff₀ hscale]
    push_cast
    linarith

theorem ofRatio_eq (negative : Bool) (hnum : num ≠ 0) (hden : den ≠ 0)
    (hplace : lastPlace num den = q) (hnear : Nearest m (num / den / 2 ^ q))
    (hbits : (q + 1074).toNat * exponentWeight + m < infinityBits) :
    ofRatio negative num den
      = ofMagnitude negative ((q + 1074).toNat * exponentWeight + m) := by
  have hmantissa : (if q < 0 then roundedQuotient (num * Nat.pow 2 (-q).toNat) den
      else roundedQuotient num (den * Nat.pow 2 q.toNat)) = m := by
    have hscaled : roundedQuotient (num * 2 ^ (-q).toNat) (den * 2 ^ q.toNat) = m := by
      refine roundedQuotient_of_nearest (by positivity) ?_
      rwa [quotient_scaled]
    split
    next hq =>
      have : q.toNat = 0 := by omega
      simpa [this] using hscaled
    next hq =>
      have : (-q).toNat = 0 := by omega
      simpa [this] using hscaled
  unfold ofRatio
  rw [if_neg (not_or.mpr ⟨hnum, hden⟩), hplace]
  dsimp only
  rw [hmantissa, if_neg (Nat.not_le.mpr hbits)]

theorem narrowBelow_eq_true_iff : narrowBelow m q = true ↔ m = exponentWeight ∧ -1074 < q := by
  simp [narrowBelow]

theorem zpow_leading (q : ℤ) : (2 : ℚ) ^ (q + 52) = exponentWeight * 2 ^ q := by
  rw [zpow_add₀ two_ne_zero, mul_comm]
  norm_num [exponentWeight]

/-- A double with a leading bit, and no near neighbour below it, is never rounded to from
below its leading bit. -/
theorem Within.leading_le (h : Within m q (narrowBelow m q) v) (hm : exponentWeight ≤ m)
    (hq : -1074 < q) (hside : narrowBelow m q = false ∨ m * 2 ^ q ≤ v) :
    (2 : ℚ) ^ (q + 52) ≤ v := by
  have hscale : (0 : ℚ) < 2 ^ q := by positivity
  rw [zpow_leading]
  rcases hside with hnarrow | hside
  · have hne : m ≠ exponentWeight := by
      intro heq
      rw [narrowBelow_eq_true_iff.mpr ⟨heq, hq⟩] at hnarrow
      cases hnarrow
    have hend : 4 * exponentWeight ≤ lowEnd m false := by
      show 4 * exponentWeight ≤ 4 * m - 2
      omega
    have hend : (4 * exponentWeight : ℚ) ≤ (lowEnd m false : ℕ) := by exact_mod_cast hend
    have hlow := h.low
    rw [hnarrow, zpow_quarter] at hlow
    nlinarith
  · have hm : (exponentWeight : ℚ) ≤ m := by exact_mod_cast hm
    nlinarith

theorem Within.lt_next (h : Within m q narrow v) (hm : m < 2 * exponentWeight) :
    v < 2 ^ (q + 53) := by
  have hscale : (0 : ℚ) < 2 ^ q := by positivity
  have hnext : (2 : ℚ) ^ (q + 53) = 2 * (exponentWeight * 2 ^ q) := by
    rw [← zpow_leading, show q + 53 = q + 52 + 1 by ring, zpow_add_one₀ two_ne_zero, mul_comm]
  have hm : (m : ℚ) + 1 ≤ 2 * exponentWeight := by exact_mod_cast hm
  have hhigh := h.high
  rw [zpow_quarter] at hhigh
  push_cast at hhigh
  rw [hnext]
  nlinarith

/-- Every quotient in the interval of a double rounds to it. -/
theorem ofRatio_of_within (negative : Bool) (hparts : IsParts magnitude m q) (hm : 0 < m)
    (hfinite : magnitude < infinityBits) (hden : den ≠ 0)
    (h : Within m q (narrowBelow m q) (num / den)) :
    ofRatio negative num den = ofMagnitude negative magnitude := by
  have hnum : num ≠ 0 := by
    rintro rfl
    have hpos := h.pos hm
    simp at hpos
  rw [← hparts.bits] at hfinite ⊢
  by_cases hside : narrowBelow m q = false ∨ m * 2 ^ q ≤ (num / den : ℚ)
  · -- The last place of the quotient is that of the double.
    have hplace : lastPlace num den = q := by
      refine lastPlace_eq hnum hden hparts.least (h.lt_next hparts.small) ?_
      by_cases hq : q = -1074
      · exact .inr hq
      · have hleading := hparts.leading.resolve_right hq
        exact .inl (h.leading_le hleading (lt_of_le_of_ne hparts.least (Ne.symm hq)) hside)
    exact ofRatio_eq negative hnum hden hplace (h.nearest hm hside) hfinite
  · -- The quotient lies below a power of two, where the last place is one lower.
    obtain ⟨hnarrow, hbelow⟩ := not_or.mp hside
    rw [Bool.not_eq_false] at hnarrow
    rw [hnarrow] at h
    obtain ⟨rfl, hq⟩ := narrowBelow_eq_true_iff.mp hnarrow
    have hbelow : (num / den : ℚ) < exponentWeight * 2 ^ q := lt_of_not_ge hbelow
    have hplace : lastPlace num den = q - 1 := by
      refine lastPlace_eq hnum hden (by omega) ?_ (.inl ?_)
      · rwa [show q - 1 + 53 = q + 52 by ring, zpow_leading]
      · have hscale : (0 : ℚ) < 2 ^ q := by positivity
        have hlow := h.low
        rw [zpow_quarter] at hlow
        rw [zpow_leading, zpow_sub_one₀ two_ne_zero]
        norm_num [lowEnd, exponentWeight] at hlow ⊢
        linarith
    -- There it rounds to twice the mantissa, and the carry leads to the same bits.
    have hcarry : (q - 1 + 1074).toNat * exponentWeight + 2 * exponentWeight
        = (q + 1074).toNat * exponentWeight + exponentWeight := by
      rw [show (q + 1074).toNat = (q - 1 + 1074).toNat + 1 by omega]
      ring
    rw [← hcarry] at hfinite ⊢
    exact ofRatio_eq negative hnum hden hplace (h.nearest_below hm hbelow) hfinite

/-! ## §4. Decimals. -/

theorem Within.lt_overflow (h : Within m q narrow v) (hparts : IsParts magnitude m q) :
    v < 2 ^ (1024 : ℤ) :=
  calc v < 2 ^ (q + 53) := h.lt_next hparts.small
    _ ≤ 2 ^ (1024 : ℤ) := zpow_le_zpow_right₀ one_le_two (by linarith [hparts.greatest])

theorem Within.underflow_le (h : Within m q narrow v) (hparts : IsParts magnitude m q)
    (hm : 0 < m) : (2 : ℚ) ^ (-1075 : ℤ) ≤ v := by
  have hend : (2 : ℚ) ≤ (lowEnd m narrow : ℕ) := by exact_mod_cast two_le_lowEnd narrow hm
  calc (2 : ℚ) ^ (-1075 : ℤ) ≤ 2 ^ (q - 2 + 1) :=
        zpow_le_zpow_right₀ one_le_two (by linarith [hparts.least])
    _ = 2 * 2 ^ (q - 2) := by rw [zpow_add_one₀ two_ne_zero, mul_comm]
    _ ≤ lowEnd m narrow * 2 ^ (q - 2) := by gcongr
    _ ≤ v := h.low

/-- Ten is more than eight, so its powers are further from one. -/
theorem le_ten_zpow {e : ℤ} (he : 0 ≤ e) : (2 : ℚ) ^ (3 * e) ≤ 10 ^ e := by
  obtain ⟨n, rfl⟩ := Int.eq_ofNat_of_zero_le he
  rw [zpow_mul, zpow_natCast, zpow_natCast]
  gcongr
  norm_num

theorem ten_zpow_le {e : ℤ} (he : e ≤ 0) : (10 : ℚ) ^ e ≤ 2 ^ (3 * e) := by
  obtain ⟨n, rfl⟩ := Int.exists_eq_neg_ofNat he
  rw [zpow_mul, zpow_neg, zpow_neg, zpow_natCast, zpow_natCast]
  gcongr
  norm_num

variable {digits : ℕ} {exponent : ℤ}

/-- A decimal in an interval has digits. -/
theorem Within.digits_ne_zero (h : Within m q narrow (digits * 10 ^ exponent)) (hm : 0 < m) :
    digits ≠ 0 := by
  rintro rfl
  have hpos := h.pos hm
  simp at hpos

/-- Its exponent is not so large that it overflows whatever its digits are. -/
theorem Within.exponent_le (h : Within m q narrow (digits * 10 ^ exponent))
    (hparts : IsParts magnitude m q) (hm : 0 < m) : exponent ≤ 400 := by
  by_contra hexponent
  have hone : (1 : ℚ) ≤ digits := by
    exact_mod_cast Nat.pos_of_ne_zero (h.digits_ne_zero hm)
  have hle : (2 : ℚ) ^ (1024 : ℤ) ≤ digits * 10 ^ exponent :=
    calc (2 : ℚ) ^ (1024 : ℤ) ≤ 2 ^ (3 * exponent) :=
          zpow_le_zpow_right₀ one_le_two (by omega)
      _ ≤ 10 ^ exponent := le_ten_zpow (by omega)
      _ ≤ digits * 10 ^ exponent := le_mul_of_one_le_left (by positivity) hone
  exact absurd (h.lt_overflow hparts) hle.not_gt

/-- And it is not so small that the decimal vanishes. -/
theorem Within.le_exponent (h : Within m q narrow (digits * 10 ^ exponent))
    (hparts : IsParts magnitude m q) (hm : 0 < m) :
    -1100 ≤ (digits.log2 : ℤ) + 1 + 3 * exponent := by
  by_contra hexponent
  have hlog : (digits : ℚ) < 2 ^ ((digits.log2 : ℤ) + 1) := by
    have : digits < 2 ^ (digits.log2 + 1) := Nat.lt_log2_self
    exact_mod_cast this
  have hlt : digits * (10 : ℚ) ^ exponent < 2 ^ (-1075 : ℤ) :=
    calc digits * (10 : ℚ) ^ exponent < 2 ^ ((digits.log2 : ℤ) + 1) * 10 ^ exponent := by
          gcongr
      _ ≤ 2 ^ ((digits.log2 : ℤ) + 1) * 2 ^ (3 * exponent) := by
          gcongr
          exact ten_zpow_le (by omega)
      _ = 2 ^ ((digits.log2 : ℤ) + 1 + 3 * exponent) := (zpow_add₀ two_ne_zero _ _).symm
      _ ≤ 2 ^ (-1075 : ℤ) := zpow_le_zpow_right₀ one_le_two (by omega)
  exact absurd (h.underflow_le hparts hm) hlt.not_ge

theorem natPow_ten_cast (k : ℕ) : ((Nat.pow 10 k : ℕ) : ℚ) = 10 ^ k := by
  push_cast [Nat.pow_eq]
  rfl

/-- Every decimal in the interval of a double rounds to it. -/
theorem ofDecimal_of_within (negative : Bool) (hparts : IsParts magnitude m q) (hm : 0 < m)
    (hfinite : magnitude < infinityBits)
    (h : Within m q (narrowBelow m q) (digits * 10 ^ exponent)) :
    ofDecimal negative digits exponent = ofMagnitude negative magnitude := by
  have hlarge : ¬ 400 < exponent := (h.exponent_le hparts hm).not_gt
  have hsmall : ¬ (digits.log2 : ℤ) + 1 + 3 * exponent < -1100 := (h.le_exponent hparts hm).not_gt
  have hscaled := pow_toNat_div (b := 10) (by norm_num) exponent
  unfold ofDecimal
  rw [if_neg (h.digits_ne_zero hm), if_neg hlarge, if_neg hsmall]
  split
  next hexponent =>
    have hzero : exponent.toNat = 0 := by omega
    rw [hzero, pow_zero] at hscaled
    refine ofRatio_of_within negative hparts hm hfinite (pow_ne_zero _ (by decide)) ?_
    rwa [natPow_ten_cast, div_eq_mul_one_div, hscaled]
  next hexponent =>
    have hzero : (-exponent).toNat = 0 := by omega
    rw [hzero, pow_zero, div_one] at hscaled
    refine ofRatio_of_within negative hparts hm hfinite one_ne_zero ?_
    rwa [Nat.cast_mul, natPow_ten_cast, hscaled, Nat.cast_one, div_one]

end Interval

end Mandate.Binary64
