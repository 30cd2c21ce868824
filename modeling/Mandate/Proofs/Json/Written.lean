/-
  Mandate.Proofs.Json.Written
  ────────────────────────────────
  **WRITTEN VALUES ARE READ BACK.**

  A value can be written if a text holds it: its numbers are finite and not too long, its
  texts have no halves, and no object has a name twice.  On one line it is written in
  printable characters of ASCII, and what is read from that line is the value again.

      Value.Writable — finite numbers of a readable length, whole texts, and names apart
      Value.Finite   — no number in it is infinite or undefined
      Value.Whole    — no text in it has halves

  Main results:
    * `Value.Writable.readBack`  — a writable value is read from its characters;
    * `Value.Writable.printed`   — which are printable ASCII;
    * `read_compact`             — so it is read from its line.
-/
import Mandate.Proofs.Json.Escaped
import Mandate.Proofs.Json.Numeral
import Mandate.Proofs.Table
import Mandate.Text.Encode

namespace Mandate.Json

variable {ps : List Point} {rest : List Char} {v : Value} {items : List Value}
  {fields seen : Fields}

namespace Value

/-- A value that can be written so that it is read back: its numbers can, its texts are whole,
and no object has a name twice. -/
inductive Writable : Value → Prop
  | null : Writable .null
  | bool (b : Bool) : Writable (.bool b)
  | number {n : Number} (h : n.Writable) : Writable (.number n)
  | text (s : String) : Writable (.text s)
  | list {items : List Value} (h : ∀ v ∈ items, Writable v) : Writable (.list items)
  | object {fields : Fields} (hnames : Table.Distinct fields)
      (hwhole : ∀ f ∈ fields, f.1.Whole) (h : ∀ f ∈ fields, Writable f.2) :
      Writable (.object fields)

/-- A value whose numbers are neither infinite nor undefined. -/
inductive Finite : Value → Prop
  | null : Finite .null
  | bool (b : Bool) : Finite (.bool b)
  | int (n : Int) : Finite (.number (.int n))
  | double {x : Binary64} (h : x.isFinite = true) : Finite (.number (.double x))
  | text (t : Text) : Finite (.text t)
  | list {items : List Value} (h : ∀ v ∈ items, Finite v) : Finite (.list items)
  | object {fields : Fields} (h : ∀ f ∈ fields, Finite f.2) : Finite (.object fields)

/-- A value whose texts have no halves, the names of its fields among them. -/
inductive Whole : Value → Prop
  | null : Whole .null
  | bool (b : Bool) : Whole (.bool b)
  | number (n : Number) : Whole (.number n)
  | text (s : String) : Whole (.text s)
  | list {items : List Value} (h : ∀ v ∈ items, Whole v) : Whole (.list items)
  | object {fields : Fields} (hnames : ∀ f ∈ fields, f.1.Whole) (h : ∀ f ∈ fields, Whole f.2) :
      Whole (.object fields)

theorem Writable.finite (h : v.Writable) : v.Finite := by
  induction h with
  | null => exact .null
  | bool b => exact .bool b
  | @number n h =>
      cases n with
      | int n => exact .int n
      | double x => exact .double h
  | text s => exact .text s
  | list _ ih => exact .list ih
  | object _ _ _ ih => exact .object ih

theorem Writable.whole (h : v.Writable) : v.Whole := by
  induction h with
  | null => exact .null
  | bool b => exact .bool b
  | number _ => exact .number _
  | text s => exact .text s
  | list _ ih => exact .list ih
  | object _ hwhole _ ih => exact .object hwhole ih

end Value

/-! ## §1. Words and numbers. -/

theorem isDigit_ne {c e : Char} (hc : isDigit c = true) (he : isDigit e = false) : c ≠ e := by
  rintro rfl
  rw [hc] at he
  cases he

/-- A word that differs from a text in some place is not at the head of it. -/
theorem word?_eq_none {word : List Char} {i : Nat} {c d : Char} (hword : word[i]? = some c)
    (hps : ps[i]? = some (.char d)) (h : c ≠ d) : word? word ps = none := by
  unfold word?
  rw [if_neg]
  intro hprefix
  obtain ⟨behind, rfl⟩ := List.isPrefixOf_iff_prefix.mp hprefix
  have hpoint : (word.map Point.char)[i]? = some (.char c) := by
    rw [List.getElem?_map, hword, Option.map_some]
  rw [List.getElem?_append_left (List.getElem?_eq_some_iff.mp hpoint).1, hpoint] at hps
  exact h (Point.char.inj (Option.some.inj hps))

theorem scanWord_eq_none {table : List (String × Value)}
    (h : ∀ e ∈ table, word? e.1.toList ps = none) : scanWord ps table = none := by
  induction table with
  | nil => rfl
  | cons e more ih =>
      obtain ⟨he, hmore⟩ := List.forall_mem_cons.mp h
      rw [scanWord, he]
      exact ih hmore

/-- No word starts with a digit. -/
theorem scanWord_digit {d : Char} (hd : isDigit d = true) :
    scanWord (.char d :: ps) valueWords = none := by
  have hwords : ∀ e ∈ valueWords, e.1.toList[0]?.any (!isDigit ·) = true := by decide
  refine scanWord_eq_none fun e he => ?_
  obtain ⟨c, hword, hc⟩ := (Option.any_eq_true _ _).mp (hwords e he)
  exact word?_eq_none hword rfl (isDigit_ne hd (by simpa using hc)).symm

/-- Nor does one start with a minus sign and a digit. -/
theorem scanWord_minus {d : Char} (hd : isDigit d = true) :
    scanWord (.char '-' :: .char d :: ps) valueWords = none := by
  have hwords : ∀ e ∈ valueWords, e.1.toList[0]?.any (· != '-') = true ∨
      e.1.toList[1]?.any (!isDigit ·) = true := by decide
  refine scanWord_eq_none fun e he => ?_
  rcases hwords e he with hfirst | hsecond
  · obtain ⟨c, hword, hc⟩ := (Option.any_eq_true _ _).mp hfirst
    exact word?_eq_none hword rfl (by simpa using hc)
  · obtain ⟨c, hword, hc⟩ := (Option.any_eq_true _ _).mp hsecond
    exact word?_eq_none hword rfl (isDigit_ne hd (by simpa using hc)).symm

theorem reads_numeral {n : Numeral} {number : Number} (hn : n.Proper)
    (hvalue : n.value = .ok number) (hrest : Stops rest) :
    Reads ((n.chars ++ rest).map .char) (.number number) (rest.map .char) := by
  have hscan := scanNumeral_chars hn hrest
  have hbehind : rest <:+ n.chars ++ rest := List.suffix_append _ _
  obtain ⟨negative, whole, fraction, exponent⟩ := n
  obtain ⟨d, ds, rfl⟩ := List.exists_cons_of_ne_nil hn.nonempty
  have hd : isDigit d = true := hn.whole d List.mem_cons_self
  cases negative with
  | true => exact .number (by decide) (scanWord_minus hd) hscan hbehind hvalue
  | false =>
      have hopens : OpensNothing d := ⟨isDigit_ne hd rfl, isDigit_ne hd rfl, isDigit_ne hd rfl⟩
      exact .number hopens (scanWord_digit hd) hscan hbehind hvalue

/-! ## §2. Values. -/

/-- A written value starts with a character that is no blank and closes no list. -/
theorem Value.Writable.head (h : v.Writable) (layout : Layout) (depth : Nat) :
    ∃ c cs, v.chars layout depth = c :: cs ∧ isGap c = false ∧ c ≠ ']' := by
  cases h with
  | null => exact ⟨_, _, rfl, by decide, by decide⟩
  | bool b => cases b <;> exact ⟨_, _, rfl, by decide, by decide⟩
  | text s => exact ⟨_, _, rfl, by decide, by decide⟩
  | @list items _ => cases items <;> exact ⟨_, _, rfl, by decide, by decide⟩
  | @object fields _ _ _ => cases fields <;> exact ⟨_, _, rfl, by decide, by decide⟩
  | number h =>
      obtain ⟨⟨negative, whole, fraction, exponent⟩, hn, hchars, -⟩ := exists_numeral h
      obtain ⟨d, ds, rfl⟩ := List.exists_cons_of_ne_nil hn.nonempty
      have hd : isDigit d = true := hn.whole d List.mem_cons_self
      rw [Value.chars, ← hchars]
      cases negative with
      | true => exact ⟨_, _, rfl, by decide, by decide⟩
      | false =>
          refine ⟨_, _, rfl, ?_, isDigit_ne hd rfl⟩
          simp [isGap, isDigit_ne hd (e := ' ') rfl, isDigit_ne hd (e := '\t') rfl,
            isDigit_ne hd (e := '\n') rfl, isDigit_ne hd (e := '\r') rfl]

theorem stops_cons {c : Char} (hdigit : isDigit c = false) (hpoint : c ≠ '.') (hsmall : c ≠ 'e')
    (hlarge : c ≠ 'E') : Stops (c :: rest) := by
  intro d hd
  cases hd
  exact ⟨hdigit, hpoint, hsmall, hlarge⟩

theorem chars_list_cons (v : Value) (items : List Value) (depth : Nat) :
    (Value.list (v :: items)).chars .line depth
      = '[' :: (v.chars .line (depth + 1) ++ (Value.moreItems .line depth items ++ [']'])) := by
  simp [Value.chars, Layout.opening, Layout.closing]

theorem chars_object_cons (k : Text) (v : Value) (fields : Fields) (depth : Nat) :
    (Value.object ((k, v) :: fields)).chars .line depth
      = '{' :: (textChars k ++ (':' :: ' ' :: (v.chars .line (depth + 1) ++
        (Value.moreFields .line depth fields ++ ['}'])))) := by
  simp [Value.chars, Layout.opening, Layout.closing]

/-- A value is read from its characters on one line. -/
def ReadBack (v : Value) : Prop :=
  ∀ depth rest, Stops rest → Reads ((v.chars .line depth ++ rest).map .char) v (rest.map .char)

theorem skipGap_chars (h : v.Writable) (depth : Nat) (rest : List Char) :
    skipGap ((v.chars .line depth ++ rest).map .char)
      = (v.chars .line depth ++ rest).map .char := by
  obtain ⟨c, cs, hchars, hgap, -⟩ := h.head .line depth
  rw [hchars]
  unfold skipGap
  rw [List.cons_append, List.map_cons, List.dropWhile_cons_of_neg (by simp [Point.isChar, hgap])]

theorem readsItems_chars (depth : Nat) (hwritable : ∀ w ∈ v :: items, w.Writable)
    (h : ∀ w ∈ v :: items, ReadBack w) (rest : List Char) :
    ReadsItems ((v.chars .line (depth + 1) ++
      (Value.moreItems .line depth items ++ ']' :: rest)).map .char) (v :: items)
      (rest.map .char) := by
  induction items generalizing v with
  | nil =>
      have hv := h v List.mem_cons_self (depth + 1) (']' :: rest)
        (stops_cons rfl (by decide) (by decide) (by decide))
      exact .last hv rfl
  | cons w items ih =>
      obtain ⟨hv, hitems⟩ := List.forall_mem_cons.mp h
      obtain ⟨-, hwritable⟩ := List.forall_mem_cons.mp hwritable
      have hmore := ih hwritable hitems
      rw [← skipGap_chars (hwritable w List.mem_cons_self)] at hmore
      simp only [Value.moreItems, List.append_assoc]
      exact .next (hv _ _ (stops_cons rfl (by decide) (by decide) (by decide))) rfl hmore

theorem textChars_append (s : String) (rest : List Char) :
    textChars s ++ rest = '"' :: (s.toList.flatMap escapeChar ++ '"' :: rest) := by
  have hpoints : (s.toList.map Point.char).flatMap escapePoint = s.toList.flatMap escapeChar :=
    List.flatMap_map ..
  simp [textChars, hpoints]

/-- A name that comes behind others is put behind them. -/
theorem put_of_distinct {f : Text × Value} {fs : Fields}
    (h : Table.Distinct (seen ++ f :: fs)) :
    Table.put seen (.ofPoints f.1.points) f.2 = seen ++ [f] := by
  unfold Table.Distinct at h
  rw [List.map_append, List.map_cons, List.nodup_append] at h
  have hnew : f.1 ∉ seen.map Prod.fst := fun hmem => h.2.2 _ hmem _ List.mem_cons_self rfl
  rw [Text.ofPoints_points, Table.put_of_new hnew]

theorem readsFields_chars (depth : Nat) {f : Text × Value} {fs : Fields}
    (hnames : Table.Distinct (seen ++ f :: fs)) (hwhole : ∀ g ∈ f :: fs, g.1.Whole)
    (hwritable : ∀ g ∈ f :: fs, g.2.Writable) (h : ∀ g ∈ f :: fs, ReadBack g.2)
    (rest : List Char) :
    ReadsFields seen ((textChars f.1 ++ (':' :: ' ' :: (f.2.chars .line (depth + 1) ++
      (Value.moreFields .line depth fs ++ '}' :: rest)))).map .char) (seen ++ f :: fs)
      (rest.map .char) := by
  induction fs generalizing f seen with
  | nil =>
      have hgap := skipGap_chars (hwritable f List.mem_cons_self) (depth + 1) ('}' :: rest)
      have hv := h f List.mem_cons_self (depth + 1) ('}' :: rest)
        (stops_cons rfl (by decide) (by decide) (by decide))
      rw [← hgap] at hv
      obtain ⟨name, hname⟩ := hwhole f List.mem_cons_self
      rw [← put_of_distinct hnames, hname, textChars_append, List.map_cons, List.map_append]
      exact .last (scanText_escaped name.toList _ _) rfl hv rfl
  | cons g fs ih =>
      obtain ⟨k, w⟩ := g
      obtain ⟨⟨name, hname⟩, hwhole⟩ := List.forall_mem_cons.mp hwhole
      obtain ⟨hf, hfields⟩ := List.forall_mem_cons.mp h
      obtain ⟨hfwritable, hfswritable⟩ := List.forall_mem_cons.mp hwritable
      -- What comes behind the first field is read with that field among those seen.
      have hassoc : seen ++ f :: (k, w) :: fs = seen ++ [f] ++ (k, w) :: fs := by simp
      have hmore := ih (hassoc ▸ hnames) hwhole hfswritable hfields
      have hnext : Value.moreFields .line depth ((k, w) :: fs) ++ '}' :: rest
          = ',' :: ' ' :: (textChars k ++ (':' :: ' ' :: (w.chars .line (depth + 1) ++
            (Value.moreFields .line depth fs ++ '}' :: rest)))) := by
        simp [Value.moreFields, Layout.between]
      rw [hnext, hassoc]
      have hv := hf (depth + 1) (',' :: ' ' :: (textChars k ++ (':' :: ' ' ::
          (w.chars .line (depth + 1) ++ (Value.moreFields .line depth fs ++ '}' :: rest)))))
        (stops_cons rfl (by decide) (by decide) (by decide))
      rw [← skipGap_chars hfwritable] at hv
      rw [← put_of_distinct hnames, hname] at hmore ⊢
      rw [textChars_append, List.map_cons, List.map_append]
      exact .next (scanText_escaped name.toList _ _) rfl hv rfl hmore

/-- A writable value is read from its characters. -/
theorem Value.Writable.readBack (h : v.Writable) : ReadBack v := by
  induction h with
  | null => exact fun _ rest _ => .word (by decide) rfl
  | bool b => cases b <;> exact fun _ rest _ => .word (by decide) rfl
  | number h =>
      intro depth rest hrest
      obtain ⟨n, hn, hchars, hvalue⟩ := exists_numeral h
      rw [Value.chars, ← hchars]
      exact reads_numeral hn hvalue hrest
  | text s =>
      intro depth rest _
      have h := Reads.text (scanText_escaped s.toList _ (rest.map .char))
      rw [Text.ofPoints_chars, String.ofList_toList] at h
      rw [Value.chars, textChars_append, List.map_cons, List.map_append]
      exact h
  | @list items hitems ih =>
      intro depth rest _
      cases items with
      | nil => exact .emptyList (rest.map .char)
      | cons v items =>
          have hv : v.Writable := hitems v List.mem_cons_self
          have hread := readsItems_chars depth hitems ih rest
          rw [← skipGap_chars hv] at hread
          rw [chars_list_cons, List.cons_append, List.append_assoc, List.append_assoc,
            List.singleton_append]
          refine .list hread ?_
          -- The first item closes no list, so the list is not taken for an empty one.
          obtain ⟨c, cs, hhead, -, hc⟩ := hv.head .line (depth + 1)
          rw [skipGap_chars hv, hhead]
          exact fun h => hc (Point.char.inj (Option.some.inj h))
  | @object fields hnames hwhole hfields ih =>
      intro depth rest _
      cases fields with
      | nil => exact .emptyObject (rest.map .char)
      | cons f fields =>
          obtain ⟨k, v⟩ := f
          have hnone : Table.Distinct ([] ++ (k, v) :: fields) := hnames
          have hread := readsFields_chars depth hnone hwhole hfields ih rest
          rw [chars_object_cons]
          simp only [List.cons_append, List.append_assoc, List.nil_append]
          exact .object hread nofun

/-! ## §3. Lines. -/

theorem printed_of_isDigit {c : Char} (hc : isDigit c = true) : Printed c := by
  simp only [isDigit, Bool.and_eq_true, decide_eq_true_eq] at hc
  have hlow : '0'.toNat ≤ c.toNat := hc.1
  have hhigh : c.toNat ≤ '9'.toNat := hc.2
  exact ⟨Nat.le_trans (by decide) hlow, Nat.le_trans hhigh (by decide)⟩

theorem AllDigits.printed {ds : List Char} (h : AllDigits ds) : AllPrinted ds :=
  fun c hc => printed_of_isDigit (h c hc)

/-- A numeral is printable. -/
theorem Numeral.Proper.printed {n : Numeral} (h : n.Proper) : AllPrinted n.chars := by
  obtain ⟨negative, whole, fraction, exponent⟩ := n
  have hsign : AllPrinted (Numeral.signChars negative) := by cases negative <;> decide
  have hfraction : AllPrinted (Numeral.fractionChars fraction) := by
    cases fraction with
    | nil => decide
    | cons d ds => exact allPrinted_cons_iff.mpr ⟨by decide, h.fraction.printed⟩
  have hexponent : AllPrinted (Numeral.exponentChars exponent) := by
    cases exponent with
    | none => decide
    | some e =>
        obtain ⟨negative, ds⟩ := e
        have hds := (h.exponent _ rfl).1.printed
        refine allPrinted_cons_iff.mpr ⟨by decide, allPrinted_cons_iff.mpr ⟨?_, hds⟩⟩
        cases negative <;> decide
  unfold Numeral.chars
  simp only [allPrinted_append_iff]
  exact ⟨hsign, h.whole.printed, hfraction, hexponent⟩

/-- What separates two items is printable. -/
theorem between_printed (depth : Nat) : AllPrinted (Layout.line.between depth) := by
  rw [Layout.between]
  decide

theorem moreItems_printed (h : ∀ v ∈ items, ∀ depth, AllPrinted (v.chars .line depth))
    (depth : Nat) : AllPrinted (Value.moreItems .line depth items) := by
  induction items with
  | nil => exact nofun
  | cons v items ih =>
      obtain ⟨hv, hitems⟩ := List.forall_mem_cons.mp h
      rw [Value.moreItems]
      simp only [allPrinted_append_iff]
      exact ⟨⟨between_printed depth, hv _⟩, ih hitems⟩

theorem moreFields_printed (h : ∀ f ∈ fields, ∀ depth, AllPrinted (f.2.chars .line depth))
    (depth : Nat) : AllPrinted (Value.moreFields .line depth fields) := by
  induction fields with
  | nil => exact nofun
  | cons f fields ih =>
      obtain ⟨k, v⟩ := f
      obtain ⟨hv, hfields⟩ := List.forall_mem_cons.mp h
      rw [Value.moreFields]
      simp only [allPrinted_append_iff]
      exact ⟨⟨⟨⟨between_printed depth, textChars_printed k⟩, by decide⟩, hv _⟩, ih hfields⟩

/-- A line is printable ASCII. -/
theorem Value.Writable.printed (h : v.Writable) :
    ∀ depth, AllPrinted (v.chars .line depth) := by
  induction h with
  | null =>
      intro depth
      rw [Value.chars]
      decide
  | bool b =>
      intro depth
      cases b <;> (rw [Value.chars]; decide)
  | number h =>
      intro depth
      obtain ⟨n, hn, hchars, -⟩ := exists_numeral h
      rw [Value.chars, ← hchars]
      exact hn.printed
  | text s => exact fun _ => textChars_printed s
  | @list items _ ih =>
      intro depth
      cases items with
      | nil =>
          rw [Value.chars]
          decide
      | cons v items =>
          obtain ⟨hv, hitems⟩ := List.forall_mem_cons.mp ih
          rw [chars_list_cons]
          simp only [allPrinted_cons_iff, allPrinted_append_iff]
          exact ⟨by decide, hv _, moreItems_printed hitems depth, by decide⟩
  | @object fields _ _ _ ih =>
      intro depth
      cases fields with
      | nil =>
          rw [Value.chars]
          decide
      | cons f fields =>
          obtain ⟨k, v⟩ := f
          obtain ⟨hv, hfields⟩ := List.forall_mem_cons.mp ih
          rw [chars_object_cons]
          simp only [allPrinted_cons_iff, allPrinted_append_iff]
          exact ⟨by decide, textChars_printed k, by decide, by decide, hv _,
            moreFields_printed hfields depth, by decide⟩

theorem toList_compact (v : Value) : v.compact.toList = v.chars .line 0 := String.toList_ofList

/-- A writable value is read from its line. -/
theorem read_compact (h : v.Writable) : Json.read v.compact = .ok v := by
  have hread := h.readBack 0 [] nofun
  rw [← skipGap_chars h, List.append_nil, ← toList_compact] at hread
  -- A byte order mark in front would be a fault, but it is not printable.
  have hmark : ((v.compact.toList.map Point.char).head? == some (.char '\uFEFF')) = false := by
    rw [beq_eq_false_iff_ne, List.head?_map, toList_compact]
    intro hhead
    obtain ⟨c, hc, hpoint⟩ := Option.map_eq_some_iff.mp hhead
    cases hpoint
    exact absurd (h.printed 0 _ (List.mem_of_mem_head? hc)) (by decide)
  unfold Json.read readWithin
  dsimp only
  rw [Text.points_plain, hmark]
  exact readPoints_of_reads hread rfl

end Mandate.Json
