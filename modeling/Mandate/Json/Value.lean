/-
  Mandate.Json.Value
  ────────────────────────────────
  **DOCUMENT VALUES.**

  The tree that every document, detail record and answer is made of.  An
  object is a list of fields in the order in which they were written; a field
  written again keeps its first place and takes the last value (`Table.put`).

  Two relations compare values.  Equality tells apart everything that can be
  written down.  `Value.alike` is the looser one that capabilities are compared
  with: numbers by value, truth values as the numbers one and zero, objects
  without regard to the order of their fields.
-/
import Mandate.Number.Basic
import Mandate.Table
import Mandate.Text.Basic

namespace Mandate.Json

/-- A document value. -/
inductive Value where
  | null
  | bool (b : Bool)
  | number (n : Number)
  | text (t : Text)
  | list (items : List Value)
  | object (fields : List (Text × Value))
  deriving Inhabited, Repr

/-- The fields of an object, in order. -/
abbrev Fields := Table Text Value

/-! ## §1. Equality. -/

namespace Value

mutual

/-- Same tree, same numerals, same order of fields. -/
def same : Value → Value → Bool
  | .null, .null => true
  | .bool a, .bool b => a == b
  | .number a, .number b => a == b
  | .text a, .text b => a == b
  | .list as, .list bs => sameItems as bs
  | .object fs, .object gs => sameFields fs gs
  | _, _ => false

/-- `same`, place by place. -/
def sameItems : List Value → List Value → Bool
  | [], [] => true
  | a :: as, b :: bs => same a b && sameItems as bs
  | _, _ => false

/-- `same`, field by field. -/
def sameFields : List (Text × Value) → List (Text × Value) → Bool
  | [], [] => true
  | (k, a) :: fs, (l, b) :: gs => k == l && same a b && sameFields fs gs
  | _, _ => false

end

mutual

theorem same_iff : ∀ a b : Value, same a b = true ↔ a = b
  | .null, b => by cases b <;> simp [same]
  | .bool _, b => by cases b <;> simp [same]
  | .number _, b => by cases b <;> simp [same]
  | .text _, b => by cases b <;> simp [same]
  | .list as, b => by
      cases b <;> simp [same]
      exact sameItems_iff as _
  | .object fs, b => by
      cases b <;> simp [same]
      exact sameFields_iff fs _

theorem sameItems_iff : ∀ as bs : List Value, sameItems as bs = true ↔ as = bs
  | [], bs => by cases bs <;> simp [sameItems]
  | a :: as, bs => by
      cases bs with
      | nil => simp [sameItems]
      | cons b bs => simp [sameItems, same_iff a b, sameItems_iff as bs]

theorem sameFields_iff :
    ∀ fs gs : List (Text × Value), sameFields fs gs = true ↔ fs = gs
  | [], gs => by cases gs <;> simp [sameFields]
  | (k, a) :: fs, gs => by
      cases gs with
      | nil => simp [sameFields]
      | cons g gs =>
          obtain ⟨l, b⟩ := g
          simp [sameFields, same_iff a b, sameFields_iff fs gs]

end

instance : DecidableEq Value := fun a b =>
  decidable_of_iff (same a b = true) (same_iff a b)

/-! ## §2. The looser comparison. -/

/-- The number that a value counts as: truth values are one and zero. -/
def asNumber? : Value → Option Number
  | .bool b => some (.int (if b then 1 else 0))
  | .number n => some n
  | _ => none

mutual

/-- Equal up to the form of numbers and the order of fields. -/
def matching : Value → Value → Bool
  | .null, .null => true
  | .text a, .text b => a == b
  | .list as, .list bs => matchingItems as bs
  | .object fs, .object gs => fs.length == gs.length && matchingFields fs gs
  | .bool a, b => matchingNumber (.int (if a then 1 else 0)) b.asNumber?
  | .number a, b => matchingNumber a b.asNumber?
  | _, _ => false

/-- `matching`, place by place. -/
def matchingItems : List Value → List Value → Bool
  | [], [] => true
  | a :: as, b :: bs => matching a b && matchingItems as bs
  | _, _ => false

/-- Every field on the left has a matching field of its name on the right. -/
def matchingFields : List (Text × Value) → List (Text × Value) → Bool
  | [], _ => true
  | (k, a) :: fs, gs =>
      (match gs.lookup k with
        | some b => matching a b
        | none => false) && matchingFields fs gs

/-- The right-hand side counts as the same number. -/
def matchingNumber : Number → Option Number → Bool
  | a, some b => a.sameValue b
  | _, none => false

end

/-- Values that capabilities do not tell apart.  A value is alike to itself,
also where it holds a NaN. -/
def alike (a b : Value) : Bool :=
  decide (a = b) || matching a b

theorem alike_refl (a : Value) : alike a a = true := by simp [alike]

/-- Two lists, alike place by place. -/
def alikeAll (as bs : List Value) : Bool :=
  as.length == bs.length && (as.zip bs).all fun p => alike p.1 p.2

theorem alikeAll_refl (as : List Value) : alikeAll as as = true := by
  induction as with
  | nil => rfl
  | cons a as ih =>
      simp only [alikeAll, beq_self_eq_true, Bool.true_and] at ih
      simp [alikeAll, alike_refl, ih]

/-! ## §3. Shapes. -/

/-- The text, of a text. -/
def text? : Value → Option Text
  | .text t => some t
  | _ => none

/-- A text or nothing, as a value. -/
def ofText? : Option Text → Value
  | some s => .text s
  | none => .null

/-- An integer, as a value. -/
def int (n : Int) : Value :=
  .number (.int n)

/-- Several texts, as a value. -/
def texts (ss : List Text) : Value :=
  .list (ss.map .text)

end Value

end Mandate.Json
