/-
  Mandate.Proofs.Json.Reading
  ────────────────────────────────
  **WHAT STANDS AT THE HEAD OF A TEXT.**

  A reader takes a value from the head of a text and leaves the rest.  What it takes is told
  by the parts of the text, one behind the other:

      Reads       — a value, and what is left behind it
      ReadsItems  — the items of a list, up to its closing bracket
      ReadsFields — the fields of an object, up to its closing brace

  All of it is told for a process with room for any brackets.

  Main results:
    * `scanText_plain`        — characters that need no escape stand for themselves;
    * `readPoints_textFields` — so an object of texts is read as it is written.
-/
import Mandate.Json.Reader
import Mandate.Proofs.Success

namespace Mandate.Json

variable {cs t rest rest' tail : List Point} {v : Value} {items : List Value}
  {seen fields : Fields}

/-! ## §1. Texts. -/

/-- A character that stands for itself between quotes. -/
def IsPlain (c : Char) : Prop := c ≠ '"' ∧ c ≠ '\\' ∧ 0x20 ≤ c.toNat

instance (c : Char) : Decidable (IsPlain c) := inferInstanceAs (Decidable (_ ∧ _))

theorem scanText_cons {c : Char} (hc : IsPlain c) (start : Nat) :
    scanText start (.char c :: rest)
      = (scanText start rest).map fun p => (.char c :: p.1, p.2) := by
  obtain ⟨hquote, hslash, hcontrol⟩ := hc
  have hslash : Point.char c ≠ .char '\\' := fun h => hslash (Point.char.inj h)
  rw [scanText]
  · exact if_neg (Nat.not_lt.mpr hcontrol)
  · exact fun h => hquote (Point.char.inj h)
  · exact fun h _ => hslash h
  · exact fun _ h _ => hslash h
  · exact fun _ _ h _ => hslash h

/-- Characters that need no escape stand for themselves, up to the closing quote. -/
theorem scanText_plain {t : List Char} (ht : ∀ c ∈ t, IsPlain c) (start : Nat) :
    scanText start (t.map .char ++ .char '"' :: rest) = .ok (t.map .char, rest) := by
  induction t with
  | nil => rw [List.map_nil, List.nil_append, scanText]
  | cons c t ih =>
      obtain ⟨hc, ht⟩ := List.forall_mem_cons.mp ht
      rw [List.map_cons, List.cons_append, scanText_cons hc, ih ht]
      rfl

/-! ## §2. Values and fields. -/

/-- A value stands at the head of a text, and so much is left behind it. -/
def Reads (cs : List Point) (v : Value) (rest : List Point) : Prop :=
  (readValue none cs).map Subtype.val = .ok (v, rest)

/-- Items stand at the head of a text, up to the closing bracket. -/
def ReadsItems (cs : List Point) (items : List Value) (rest : List Point) : Prop :=
  (readItems none cs).map Subtype.val = .ok (items, rest)

/-- Fields stand at the head of a text, up to the closing brace, on top of those seen. -/
def ReadsFields (seen : Fields) (cs : List Point) (fields : Fields) (rest : List Point) : Prop :=
  (readFields none seen cs).map Subtype.val = .ok (fields, rest)

theorem Reads.text (h : scanText (cs.length + 1) cs = .ok (t, rest)) :
    Reads (.char '"' :: cs) (.text (.ofPoints t)) rest := by
  unfold Reads
  rw [readValue]
  split
  next he =>
    rw [h] at he
    cases he
  next he =>
    rw [h] at he
    cases he
    rfl

/-- A character that opens no text, no list and no object. -/
def OpensNothing (c : Char) : Prop := c ≠ '"' ∧ c ≠ '[' ∧ c ≠ '{'

instance (c : Char) : Decidable (OpensNothing c) := inferInstanceAs (Decidable (_ ∧ _))

theorem Reads.word {c : Char} (hc : OpensNothing c)
    (h : scanWord (.char c :: cs) valueWords = some (v, rest)) :
    Reads (.char c :: cs) v rest := by
  obtain ⟨hquote, hbracket, hbrace⟩ := hc
  unfold Reads
  rw [readValue]
  · split
    next he =>
      rw [h] at he
      cases he
      rfl
    next he =>
      rw [h] at he
      cases he
  · exact fun _ he => hquote (Point.char.inj (List.cons.inj he).1)
  · exact fun _ he => hbracket (Point.char.inj (List.cons.inj he).1)
  · exact fun _ he => hbrace (Point.char.inj (List.cons.inj he).1)

theorem leading_chars (cs : List Char) : leading (cs.map .char) = cs := by
  induction cs with
  | nil => rfl
  | cons c cs ih => rw [List.map_cons, leading, ih]

/-- A numeral among characters only. -/
theorem Reads.number {c : Char} {cs rest : List Char} {n : Numeral} {number : Number}
    (hc : OpensNothing c) (hword : scanWord (.char c :: cs.map .char) valueWords = none)
    (h : scanNumeral (c :: cs) = some (n, rest)) (hbehind : rest <:+ c :: cs)
    (hvalue : n.value = .ok number) :
    Reads (.char c :: cs.map .char) (.number number) (rest.map .char) := by
  obtain ⟨hquote, hbracket, hbrace⟩ := hc
  have hleading : leading (.char c :: cs.map .char) = c :: cs := leading_chars (c :: cs)
  unfold Reads
  rw [readValue]
  · split
    next he =>
      rw [hword] at he
      cases he
    next he =>
      unfold readNumber
      split
      next hn =>
        rw [hleading, h] at hn
        cases hn
      next hn =>
        rw [hleading, h] at hn
        cases hn
        rw [hvalue]
        show Except.ok (Value.number number, List.drop _ _) = _
        rw [hleading, ← List.map_cons, ← List.map_drop, ← List.suffix_iff_eq_drop.mp hbehind]
  · exact fun _ he => hquote (Point.char.inj (List.cons.inj he).1)
  · exact fun _ he => hbracket (Point.char.inj (List.cons.inj he).1)
  · exact fun _ he => hbrace (Point.char.inj (List.cons.inj he).1)

theorem Reads.emptyList (rest : List Point) :
    Reads (.char '[' :: .char ']' :: rest) (.list []) rest := by
  unfold Reads
  rw [readValue]
  rfl

theorem Reads.list (h : ReadsItems (skipGap cs) items rest)
    (hbracket : (skipGap cs).head? ≠ some (.char ']')) :
    Reads (.char '[' :: cs) (.list items) rest := by
  unfold Reads
  obtain ⟨⟨p, hlt⟩, hitems, hp⟩ := map_eq_ok_iff.mp h
  cases hp
  rw [readValue]
  split
  next he => cases he
  next he =>
    cases he
    split
    next he =>
      rw [he] at hbracket
      exact absurd rfl hbracket
    next =>
      simp only [hitems]
      rfl

/-- The last item of a list. -/
theorem ReadsItems.last (hv : Reads cs v rest') (hend : skipGap rest' = .char ']' :: rest) :
    ReadsItems cs [v] rest := by
  unfold ReadsItems
  obtain ⟨⟨p, hlt⟩, hv, hp⟩ := map_eq_ok_iff.mp hv
  cases hp
  rw [readItems]
  simp only [hv]
  split
  next he =>
    rw [hend] at he
    cases he
    rfl
  next he =>
    rw [hend] at he
    cases he
  next hne _ => exact absurd hend (hne _)

/-- An item of a list with others behind it. -/
theorem ReadsItems.next {more : List Point} (hv : Reads cs v rest')
    (hcomma : skipGap rest' = .char ',' :: more) (hmore : ReadsItems (skipGap more) items rest) :
    ReadsItems cs (v :: items) rest := by
  unfold ReadsItems at hmore ⊢
  obtain ⟨⟨p, hlt⟩, hv, hp⟩ := map_eq_ok_iff.mp hv
  cases hp
  obtain ⟨⟨p, hlt⟩, hmore, hp⟩ := map_eq_ok_iff.mp hmore
  cases hp
  rw [readItems]
  simp only [hv]
  split
  next he =>
    rw [hcomma] at he
    cases he
  next he =>
    rw [hcomma] at he
    cases he
    simp only [hmore]
    rfl
  next _ hne => exact absurd hcomma (hne _)

theorem Reads.emptyObject (rest : List Point) :
    Reads (.char '{' :: .char '}' :: rest) (.object []) rest := by
  unfold Reads
  rw [readValue]
  rfl

theorem Reads.object (h : ReadsFields [] (skipGap cs) fields rest)
    (hbrace : (skipGap cs).head? ≠ some (.char '}')) :
    Reads (.char '{' :: cs) (.object fields) rest := by
  unfold Reads
  obtain ⟨⟨p, hlt⟩, hfields, hp⟩ := map_eq_ok_iff.mp h
  cases hp
  rw [readValue]
  split
  next he => cases he
  next he =>
    cases he
    split
    next he =>
      rw [he] at hbrace
      exact absurd rfl hbrace
    next =>
      simp only [hfields]
      rfl

/-- The last field of an object. -/
theorem ReadsFields.last {name : List Point}
    (hname : scanText (cs.length + 1) cs = .ok (name, t)) (hcolon : skipGap t = .char ':' :: tail)
    (hv : Reads (skipGap tail) v rest') (hend : skipGap rest' = .char '}' :: rest) :
    ReadsFields seen (.char '"' :: cs) (Table.put seen (.ofPoints name) v) rest := by
  unfold ReadsFields
  obtain ⟨⟨p, hlt⟩, hv, hp⟩ := map_eq_ok_iff.mp hv
  cases hp
  rw [readFields]
  -- Each part is the one that is given, so every other branch of the reader is closed.
  split
  next he =>
    rw [hname] at he
    cases he
  next he =>
    rw [hname] at he
    cases he
    split
    next he =>
      rw [hcolon] at he
      cases he
      simp only [hv]
      split
      next he =>
        rw [hend] at he
        cases he
        rfl
      next he =>
        rw [hend] at he
        cases he
      next hne _ => exact absurd hend (hne _)
    next hne => exact absurd hcolon (hne _)

/-- A field of an object with others behind it. -/
theorem ReadsFields.next {name more : List Point}
    (hname : scanText (cs.length + 1) cs = .ok (name, t)) (hcolon : skipGap t = .char ':' :: tail)
    (hv : Reads (skipGap tail) v rest') (hcomma : skipGap rest' = .char ',' :: more)
    (hmore : ReadsFields (Table.put seen (.ofPoints name) v) (skipGap more) fields rest) :
    ReadsFields seen (.char '"' :: cs) fields rest := by
  unfold ReadsFields at hmore ⊢
  obtain ⟨⟨p, hlt⟩, hv, hp⟩ := map_eq_ok_iff.mp hv
  cases hp
  obtain ⟨⟨p, hlt⟩, hmore, hp⟩ := map_eq_ok_iff.mp hmore
  cases hp
  rw [readFields]
  split
  next he =>
    rw [hname] at he
    cases he
  next he =>
    rw [hname] at he
    cases he
    split
    next he =>
      rw [hcolon] at he
      cases he
      simp only [hv]
      split
      next he =>
        rw [hcomma] at he
        cases he
      next he =>
        rw [hcomma] at he
        cases he
        simp only [hmore]
        rfl
      next _ hne => exact absurd hcomma (hne _)
    next hne => exact absurd hcolon (hne _)

/-! ## §3. Documents. -/

theorem readPoints_of_reads (h : Reads (skipGap cs) v rest) (hrest : skipGap rest = []) :
    readPoints none cs = .ok v := by
  obtain ⟨⟨p, hlt⟩, hv, hp⟩ := map_eq_ok_iff.mp h
  cases hp
  unfold readPoints
  simp only [hv, hrest]
  rfl

/-- Fields of texts, as they are written without blanks, up to the closing brace. -/
def textFields (name value : List Char) : List (List Char × List Char) → List Char
  | [] => '"' :: (name ++ '"' :: ':' :: '"' :: (value ++ ['"', '}']))
  | (n, v) :: more =>
      '"' :: (name ++ '"' :: ':' :: '"' :: (value ++ '"' :: ',' :: textFields n v more))

/-- Fields of texts on top of others. -/
def putTexts (seen : Fields) (fields : List (List Char × List Char)) : Fields :=
  fields.foldl (fun fs f => Table.put fs (String.ofList f.1) (.text (String.ofList f.2))) seen

theorem reads_plain {t : List Char} (ht : ∀ c ∈ t, IsPlain c) :
    Reads (skipGap (.char '"' :: (t.map .char ++ .char '"' :: rest)))
      (.text (String.ofList t)) rest := by
  have h : Reads (.char '"' :: (t.map .char ++ .char '"' :: rest)) _ rest :=
    .text (scanText_plain ht _)
  rwa [Text.ofPoints_chars] at h

theorem readsFields_textFields {name value : List Char} {more : List (List Char × List Char)}
    (h : ∀ f ∈ (name, value) :: more, (∀ c ∈ f.1, IsPlain c) ∧ ∀ c ∈ f.2, IsPlain c)
    (seen : Fields) :
    ReadsFields seen ((textFields name value more).map .char)
      (putTexts seen ((name, value) :: more)) [] := by
  induction more generalizing name value seen with
  | nil =>
      obtain ⟨hname, hvalue⟩ := h _ List.mem_cons_self
      simp only [textFields, List.map_cons, List.map_append, List.map_nil, putTexts,
        List.foldl_cons, List.foldl_nil]
      rw [← Text.ofPoints_chars name]
      exact .last (scanText_plain hname _) rfl (reads_plain hvalue) rfl
  | cons f more ih =>
      obtain ⟨⟨hname, hvalue⟩, hmore⟩ := List.forall_mem_cons.mp h
      have hrest := ih hmore (Table.put seen (String.ofList name) (.text (String.ofList value)))
      have hgap : skipGap ((textFields f.1 f.2 more).map .char)
          = (textFields f.1 f.2 more).map .char := by
        cases more <;> rfl
      simp only [textFields, List.map_cons, List.map_append, putTexts, List.foldl_cons] at hrest ⊢
      rw [← Text.ofPoints_chars name] at hrest ⊢
      rw [← hgap] at hrest
      exact .next (scanText_plain hname _) rfl (reads_plain hvalue) rfl hrest

/-- An object of texts is read as it is written. -/
theorem readPoints_textFields {name value : List Char} {more : List (List Char × List Char)}
    (h : ∀ f ∈ (name, value) :: more, (∀ c ∈ f.1, IsPlain c) ∧ ∀ c ∈ f.2, IsPlain c) :
    readPoints none (('{' :: textFields name value more).map .char)
      = .ok (.object (putTexts [] ((name, value) :: more))) := by
  have hfields := readsFields_textFields h []
  cases more with
  | nil => exact readPoints_of_reads (.object hfields nofun) rfl
  | cons f more => exact readPoints_of_reads (.object hfields nofun) rfl

/-- An object of one text, as it is written without blanks. -/
def oneField (name value : List Char) : List Char :=
  '{' :: '"' :: (name ++ '"' :: ':' :: '"' :: (value ++ ['"', '}']))

/-- An object of one text is read as it is written. -/
theorem readPoints_oneField {name value : List Char} (hname : ∀ c ∈ name, IsPlain c)
    (hvalue : ∀ c ∈ value, IsPlain c) :
    readPoints none ((oneField name value).map .char)
      = .ok (.object [(.plain (String.ofList name), .text (String.ofList value))]) := by
  have hplain : ∀ f ∈ [(name, value)], (∀ c ∈ f.1, IsPlain c) ∧ ∀ c ∈ f.2, IsPlain c :=
    List.forall_mem_singleton.mpr ⟨hname, hvalue⟩
  exact readPoints_textFields hplain

end Mandate.Json
