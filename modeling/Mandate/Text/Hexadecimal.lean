/-
  Mandate.Text.Hexadecimal
  ────────────────────────────────
  **HEXADECIMAL DIGITS.**
-/

namespace Mandate.Text

/-- The lower-case digit of a value below sixteen. -/
def hexDigit (d : Nat) : Char :=
  if d < 10 then Char.ofNat (48 + d) else Char.ofNat (87 + d)

/-- The last `width` hexadecimal digits of a natural, in lower case. -/
def hex : Nat → Nat → List Char
  | 0, _ => []
  | width + 1, n => hex width (n / 16) ++ [hexDigit (n % 16)]

/-- The value of a hexadecimal digit of either case. -/
def hexValue? (c : Char) : Option Nat :=
  let n := c.toNat
  if 48 ≤ n ∧ n ≤ 57 then some (n - 48)
  else if 97 ≤ n ∧ n ≤ 102 then some (n - 87)
  else if 65 ≤ n ∧ n ≤ 70 then some (n - 55)
  else none

/-- The value of a run of hexadecimal digits. -/
def hexValues? (cs : List Char) : Option Nat :=
  cs.foldlM (fun acc c => (hexValue? c).map (16 * acc + ·)) 0

theorem hex_length (width n : Nat) : (hex width n).length = width := by
  induction width generalizing n with
  | zero => rfl
  | succ w ih => simp [hex, ih]

end Mandate.Text
