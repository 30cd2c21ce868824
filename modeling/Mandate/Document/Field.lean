/-
  Mandate.Document.Field
  ────────────────────────────────
  **FIELDS OF DOCUMENTS.**

  Three kinds of fields recur in every document.

      times    — absent, or a text in ISO 8601
      names    — absent, one text, or a list of texts
      values   — absent, one text or object, or a list

  A list of names is written back in its shortest form: nothing for no name,
  the name alone for one (`compact`), and reading that form gives the names
  again (`readNames_compact`).
-/
import Mandate.Fault.Failure
import Mandate.Time.Iso

namespace Mandate.Document

open Json (Value Fields)
open Time (Stamp)

/-- The value of a field; an absent field counts as null. -/
def field (fields : Fields) (name : String) : Value :=
  (fields.lookup (name : Text)).getD .null

/-! ## §1. Times. -/

/-- A time, or nothing. -/
def readTime (name : String) : Value → Except FormatFault (Option Stamp)
  | .null => .ok none
  | .text s =>
      match Time.Iso.moment? s with
      | some m => .ok (some m.stamp)
      | none => .error (.timeUnreadable name (.text s))
  | v => .error (.timeNotText name v)

/-- A time as documents carry it. -/
def timeText (s : Stamp) : Except Failure String :=
  match s.documentText? with
  | some text => .ok text
  | none => .error .dateOutOfRange

/-! ## §2. Names. -/

/-- The texts of a list of values, each of which has to be one. -/
def readTexts (name : String) : List Value → Except FormatFault (List Text)
  | [] => .ok []
  | .text s :: vs => (readTexts name vs).map (s :: ·)
  | v :: _ => .error (.entryNotText name v)

/-- Names: none, one, or a list of them. -/
def readNames (name : String) : Value → Except FormatFault (List Text)
  | .null => .ok []
  | .text s => .ok [s]
  | .list vs => readTexts name vs
  | v => .error (.notNames name v)

/-- A list in its shortest form: null for none, the member alone for one. -/
def compact : List Value → Value
  | [] => .null
  | [v] => v
  | vs => .list vs

theorem readTexts_texts (name : String) (ss : List Text) :
    readTexts name (ss.map .text) = .ok ss := by
  induction ss with
  | nil => rfl
  | cons s ss ih => simp [readTexts, ih, Except.map]

/-- Names are read back from their shortest form. -/
theorem readNames_compact (name : String) (ss : List Text) :
    readNames name (compact (ss.map .text)) = .ok ss := by
  match ss with
  | [] => rfl
  | [s] => rfl
  | s :: t :: ss => exact readTexts_texts name (s :: t :: ss)

/-! ## §3. Values. -/

/-- Values: none, one text or object, or a list of any. -/
def readValues (name : String) : Value → Except FormatFault (List Value)
  | .null => .ok []
  | .text s => .ok [.text s]
  | .object fs => .ok [.object fs]
  | .list vs => .ok vs
  | v => .error (.notValues name v)

/-- A text that is there and not empty. -/
def properText? : Value → Option Text
  | .text s => if s.isEmpty then none else some s
  | _ => none

theorem properText?_eq_some {v : Value} {s : Text} :
    properText? v = some s ↔ v = .text s ∧ s.isEmpty = false := by
  cases v <;> simp [properText?]
  next t =>
    constructor
    · rintro ⟨h, rfl⟩
      exact ⟨rfl, h⟩
    · rintro ⟨rfl, h⟩
      exact ⟨h, rfl⟩

end Mandate.Document
