/-
  Mandate.Proofs.Number.Shortest
  ────────────────────────────────
  **THE SHORTEST DECIMAL ROUNDS BACK.**

  The search for the fewest digits compares decimals with the ends of an interval, in
  naturals.  Whatever grid it stops at, and also where it falls back on the exact value, the
  decimal it gives lies in the interval of the double.

  Main results:
    * `roundsTo_iff`     — the test of the search is the interval of the double;
    * `shortest_within`  — the decimal that is found lies in it;
    * `ofDecimal_of_eq_shortest` — so every decimal of that value rounds to the double.
-/
import Mandate.Number.Shortest
import Mandate.Proofs.Number.Rounding

namespace Mandate.Decimal

open Binary64 (Within IsParts narrowBelow lowEnd pow_toNat_div)

variable {d : Decimal} {m : ℕ} {q : ℤ} {narrow : Bool}

/-- The rational that a decimal is. -/
def value (d : Decimal) : ℚ := d.digits * 10 ^ d.exponent

/-! ## §1. The test of the search. -/

/-- Decimals and binary numbers are compared in naturals. -/
theorem compareScaled_eq (a : ℕ) (i : ℤ) (n : ℕ) (j : ℤ) :
    compareScaled a i n j = compare (a * 10 ^ i : ℚ) (n * 2 ^ j) := by
  have hten := pow_toNat_div (b := 10) (by norm_num) i
  have htwo := pow_toNat_div (b := 2) two_ne_zero j
  have hscale : (0 : ℚ) < 10 ^ (-i).toNat * 2 ^ (-j).toNat := by positivity
  -- Both sides are naturals on the common scale, and the scale keeps the order.
  have hleft : (a * 10 ^ i : ℚ) * (10 ^ (-i).toNat * 2 ^ (-j).toNat)
      = (a * 10 ^ i.toNat * 2 ^ (-j).toNat : ℕ) := by
    rw [← hten]
    push_cast
    field_simp
  have hright : (n * 2 ^ j : ℚ) * (10 ^ (-i).toNat * 2 ^ (-j).toNat)
      = (n * 2 ^ j.toNat * 10 ^ (-i).toNat : ℕ) := by
    rw [← htwo]
    push_cast
    field_simp
  have hlt : a * 10 ^ i.toNat * 2 ^ (-j).toNat < n * 2 ^ j.toNat * 10 ^ (-i).toNat ↔
      (a * 10 ^ i : ℚ) < n * 2 ^ j := by
    rw [← mul_lt_mul_iff_of_pos_right hscale, hleft, hright, Nat.cast_lt]
  have heq : a * 10 ^ i.toNat * 2 ^ (-j).toNat = n * 2 ^ j.toNat * 10 ^ (-i).toNat ↔
      (a * 10 ^ i : ℚ) = n * 2 ^ j := by
    rw [← mul_left_inj' hscale.ne', hleft, hright, Nat.cast_inj]
  show compare (a * 10 ^ i.toNat * 2 ^ (-j).toNat) (n * 2 ^ j.toNat * 10 ^ (-i).toNat) = _
  rcases lt_trichotomy (a * 10 ^ i : ℚ) (n * 2 ^ j) with h | h | h
  · rw [compare_lt_iff_lt.mpr h, compare_lt_iff_lt]
    exact hlt.mpr h
  · rw [compare_eq_iff_eq.mpr h, compare_eq_iff_eq]
    exact heq.mpr h
  · rw [compare_gt_iff_gt.mpr h, compare_gt_iff_gt]
    refine lt_of_le_of_ne (Nat.le_of_not_lt fun hn => ?_) fun hn => ?_
    · exact absurd (hlt.mp hn) h.not_gt
    · exact h.ne (heq.mp hn.symm).symm

/-- The test of the search is the interval of the double. -/
theorem roundsTo_iff : d.roundsTo m q narrow = true ↔ Within m q narrow d.value := by
  have htest : d.roundsTo m q narrow = true ↔
      (lowEnd m narrow * 2 ^ (q - 2) < d.value ∨
        m % 2 = 0 ∧ d.value = lowEnd m narrow * 2 ^ (q - 2)) ∧
      (d.value < (4 * m + 2 : ℕ) * 2 ^ (q - 2) ∨
        m % 2 = 0 ∧ d.value = (4 * m + 2 : ℕ) * 2 ^ (q - 2)) := by
    simp only [roundsTo, compareScaled_eq, Bool.and_eq_true, Bool.or_eq_true, beq_iff_eq,
      compare_gt_iff_gt, compare_lt_iff_lt, compare_eq_iff_eq]
    rfl
  rw [htest]
  constructor
  · rintro ⟨hlow, hhigh⟩
    refine ⟨?_, ?_, fun hodd => ⟨?_, ?_⟩⟩
    · exact hlow.elim le_of_lt fun h => h.2.ge
    · exact hhigh.elim le_of_lt fun h => h.2.le
    · exact hlow.resolve_right fun h => absurd h.1 (by omega)
    · exact hhigh.resolve_right fun h => absurd h.1 (by omega)
  · rintro ⟨hlow, hhigh, hinside⟩
    rcases Nat.mod_two_eq_zero_or_one m with heven | hodd
    · exact ⟨hlow.lt_or_eq.imp_right fun h => ⟨heven, h.symm⟩,
        hhigh.lt_or_eq.imp_right fun h => ⟨heven, h⟩⟩
    · exact ⟨.inl (hinside hodd).1, .inl (hinside hodd).2⟩

/-- A double lies in its own interval. -/
theorem within_self (hm : 0 < m) : Within m q narrow (m * 2 ^ q) := by
  have hscale : (0 : ℚ) < 2 ^ q := by positivity
  have hend : lowEnd m narrow < 4 * m := by
    unfold lowEnd
    split <;> omega
  have hend : (lowEnd m narrow : ℚ) < 4 * m := by exact_mod_cast hend
  have hbelow : (lowEnd m narrow * 2 ^ (q - 2) : ℚ) < m * 2 ^ q := by
    rw [Binary64.zpow_quarter]
    nlinarith
  have habove : (m * 2 ^ q : ℚ) < (4 * m + 2 : ℕ) * 2 ^ (q - 2) := by
    rw [Binary64.zpow_quarter]
    push_cast
    nlinarith
  exact ⟨hbelow.le, habove.le, fun _ => ⟨hbelow, habove⟩⟩

/-! ## §2. The search. -/

theorem roundedQuotient_eq_or (num den : ℕ) :
    Binary64.roundedQuotient num den = num / den ∨
      Binary64.roundedQuotient num den = num / den + 1 := by
  unfold Binary64.roundedQuotient
  dsimp only
  split_ifs <;> simp

/-- What is found on a grid passes the test. -/
theorem onGrid_within {e : ℤ} (h : onGrid m q narrow e = some d) : Within m q narrow d.value := by
  rw [← roundsTo_iff]
  unfold onGrid at h
  dsimp only at h
  split at h
  next => cases h
  next hlower _ =>
    cases h
    exact hlower
  next hupper =>
    cases h
    exact hupper
  next hlower hupper =>
    cases h
    rcases roundedQuotient_eq_or (m * Nat.pow 2 q.toNat * Nat.pow 10 (-e).toNat)
      (Nat.pow 10 e.toNat * Nat.pow 2 (-q).toNat) with heq | heq
    · rw [heq]
      exact hlower
    · rw [heq]
      exact hupper

/-- The decimal behind the search is the double itself. -/
theorem exact_value (m : ℕ) (q : ℤ) :
    value ⟨m * Nat.pow 2 q.toNat * Nat.pow 5 (-q).toNat, min q 0⟩ = m * 2 ^ q := by
  have htwo := pow_toNat_div (b := 2) two_ne_zero q
  have hmin : min q 0 = -((-q).toNat : ℤ) := by omega
  have hten : (10 : ℚ) ^ (-q).toNat = 2 ^ (-q).toNat * 5 ^ (-q).toNat := by
    rw [← mul_pow]
    norm_num
  unfold value
  rw [← htwo, hmin, zpow_neg, zpow_natCast, hten]
  push_cast [Nat.pow_eq]
  field_simp

theorem strip_value (fuel : ℕ) (d : Decimal) : (strip fuel d).value = d.value := by
  induction fuel generalizing d with
  | zero => rfl
  | succ fuel ih =>
      rw [strip]
      split
      next h =>
        rw [ih]
        have hdigits : (d.digits : ℚ) = 10 * (d.digits / 10 : ℕ) := by
          have : d.digits = 10 * (d.digits / 10) := by omega
          exact_mod_cast this
        unfold value
        rw [hdigits, zpow_add_one₀ (by norm_num)]
        ring
      next => rfl

/-- The decimal that is found lies in the interval of the double. -/
theorem shortest_within {x : Binary64} (hm : 0 < x.parts.1) :
    Within x.parts.1 x.parts.2 (narrowBelow x.parts.1 x.parts.2) (shortest x).value := by
  unfold shortest
  dsimp only
  rw [strip_value]
  -- Either some grid has a decimal that passes the test, or the exact value is taken.
  generalize hfound : List.findSome? _ (List.range 17) = found
  cases found with
  | none =>
      rw [Option.getD_none, exact_value]
      exact within_self hm
  | some d =>
      obtain ⟨n, -, hgrid⟩ := List.exists_of_findSome?_eq_some hfound
      exact onGrid_within hgrid

/-! ## §3. Rounding back. -/

section Back

variable {x : Binary64} (hfinite : x.isFinite = true) (hzero : x.magnitude ≠ 0)

include hfinite hzero in
theorem mantissa_pos : 0 < x.parts.1 := by
  have hparts := Binary64.isParts hfinite
  refine Nat.pos_of_ne_zero fun hm => hzero ?_
  have hbits := hparts.bits
  rcases hparts.leading with hleading | hq
  · rw [hm] at hleading
    exact absurd hleading (by decide)
  · rw [hm, hq] at hbits
    simpa using hbits.symm

include hfinite hzero in
theorem shortest_digits_pos : 0 < (shortest x).digits := by
  have hm := mantissa_pos hfinite hzero
  refine Nat.pos_of_ne_zero fun hdigits => ?_
  have hpos := (shortest_within hm).pos hm
  unfold value at hpos
  rw [hdigits, Nat.cast_zero, zero_mul] at hpos
  exact lt_irrefl _ hpos

include hfinite hzero in
/-- Every decimal that is as much as the shortest one rounds to the double. -/
theorem ofDecimal_of_eq_shortest {digits : ℕ} {exponent : ℤ}
    (h : (digits * 10 ^ exponent : ℚ) = (shortest x).value) :
    Binary64.ofDecimal x.isNegative digits exponent = x := by
  have hm := mantissa_pos hfinite hzero
  have hwithin := shortest_within hm
  rw [← h] at hwithin
  rw [Binary64.ofDecimal_of_within x.isNegative (Binary64.isParts hfinite) hm
    (of_decide_eq_true hfinite) hwithin]
  exact x.ofMagnitude_magnitude

end Back

end Mandate.Decimal
