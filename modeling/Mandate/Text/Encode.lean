/-
  Mandate.Text.Encode
  ────────────────────────────────
  **TEXTS AS STRINGS.**

  Halves have no place in UTF-8.  Where a text has to be encoded, the first run
  of halves in it is a refusal.  The names of files are bytes, and those that
  spell nothing are kept as halves: there, only the other halves are refused.
-/
import Mandate.Text.Quoted

namespace Mandate.Text

/-- Halves at fault: `count` of them in a row from `first` on, the first being
`half`. -/
structure Unencodable where
  half : Half
  first : Nat
  count : Nat
  deriving DecidableEq, Repr

/-- The refusal in words. -/
def Unencodable.message (u : Unencodable) : String :=
  let place :=
    if u.count = 1 then
      "character '" ++ String.ofList (halfChars u.half) ++ "' in position " ++ toString u.first
    else "characters in position " ++ toString u.first ++ "-" ++ toString (u.first + u.count - 1)
  "'utf-8' codec can't encode " ++ place ++ ": surrogates not allowed"

/-- The halves that a text begins with. -/
def leadingHalves : Text → Nat
  | .torn "" _ rest => leadingHalves rest + 1
  | _ => 0

/-- The string that a text is, or the first of its halves. -/
def encoded : Text → Except Unencodable String
  | .plain s => .ok s
  | .torn front half rest => .error ⟨half, front.length, leadingHalves rest + 1⟩

/-- The half that a byte is kept as, in the name of a file. -/
def isKeptByte (h : Half) : Bool := 0xDC80 ≤ h.unit && h.unit ≤ 0xDCFF

/-- The first of the halves that no name of a file has, with `before` points in front of the
text. -/
def fileFault? (before : Nat) : Text → Option Unencodable
  | .plain _ => none
  | .torn front half rest =>
      let first := before + front.length
      if isKeptByte half then fileFault? (first + 1) rest
      else some ⟨half, first, leadingHalves rest + 1⟩

/-- A text without halves. -/
def Whole (t : Text) : Prop := ∃ s : String, t = s

/-- The whole texts are those that can be encoded. -/
theorem whole_iff_encoded {t : Text} : t.Whole ↔ ∃ s, t.encoded = .ok s := by
  cases t <;> simp [Whole, encoded]

end Mandate.Text
