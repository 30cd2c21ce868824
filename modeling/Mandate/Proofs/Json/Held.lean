/-
  Mandate.Proofs.Json.Held
  ────────────────────────────────
  **WHAT A TEXT HOLDS CAN BE WRITTEN.**

  A reader gives integers of a length that it takes, and objects that are written to field by
  field, so with each name once.  Only its doubles can be such that no numeral stands for them:
  the infinite and the undefined ones.  So what some text holds, with finite numbers and whole
  texts only, can be written and read again, and nothing else can.

      Taken cs rest — what a reader can have taken from the head of a text
      Held v        — some text holds the value

  Main results:
    * `Reads.taken`    — what is read from a text has been taken from it;
    * `sound_of_read`  — so it can be written if its numbers are finite and its texts whole;
    * `writable_iff`   — exactly the finite and whole values that some text holds are writable.
-/
import Mandate.Proofs.Json.Written

namespace Mandate.Json

variable {cs rest : List Point} {v : Value} {items : List Value} {fields seen : Fields}

/-! ## §1. What a reader takes. -/

theorem length_skipGap_lt {p : Point} {tail : List Point} (h : skipGap cs = p :: tail) :
    (skipGap tail).length < cs.length := by
  have hle := skipGap_length_le cs
  rw [h] at hle
  exact Nat.lt_of_le_of_lt (skipGap_length_le tail) hle

theorem mem_of_scanWord {table : List (String × Value)} (h : scanWord cs table = some (v, rest)) :
    v ∈ table.map Prod.snd := by
  induction table with
  | nil => cases h
  | cons e more ih =>
      rw [scanWord] at h
      split at h
      next =>
        cases h
        exact List.mem_cons_self
      next => exact List.mem_cons_of_mem _ (ih h)

/-- What a reader has taken from the head of a text: a text, a word, a number, or what is put
together from less than the text. -/
inductive Taken (cs rest : List Point) : Value → Prop
  | text (t : Text) : Taken cs rest (.text t)
  | word {v : Value} (h : v ∈ valueWords.map Prod.snd) : Taken cs rest v
  | number {n : Numeral} {number : Number} (hdigits : AllDigits n.whole)
      (h : n.value = .ok number) : Taken cs rest (.number number)
  | emptyList : Taken cs rest (.list [])
  | list {inner : List Point} {items : List Value} (hlength : inner.length < cs.length)
      (h : ReadsItems inner items rest) : Taken cs rest (.list items)
  | emptyObject : Taken cs rest (.object [])
  | object {inner : List Point} {fields : Fields} (hlength : inner.length < cs.length)
      (h : ReadsFields [] inner fields rest) : Taken cs rest (.object fields)

theorem Reads.taken (hread : Reads cs v rest) : Taken cs rest v := by
  obtain ⟨⟨p, hlt⟩, h, hp⟩ := map_eq_ok_iff.mp hread
  cases hp
  unfold readValue at h
  -- The cases of the reader are told apart by the character in front.
  split at h
  next =>
    split at h
    next => cases h
    next =>
      cases h
      exact .text _
  next tail =>
    split at h
    next he => cases he
    next he =>
      cases he
      dsimp only at h
      split at h
      next =>
        cases h
        exact .emptyList
      next =>
        split at h
        next => cases h
        next hitems =>
          cases h
          have hinner := Nat.lt_succ_of_le (skipGap_length_le tail)
          exact .list hinner (map_eq_ok_iff.mpr ⟨_, hitems, rfl⟩)
  next tail =>
    split at h
    next he => cases he
    next he =>
      cases he
      dsimp only at h
      split at h
      next =>
        cases h
        exact .emptyObject
      next =>
        split at h
        next => cases h
        next hfields =>
          cases h
          have hinner := Nat.lt_succ_of_le (skipGap_length_le tail)
          exact .object hinner (map_eq_ok_iff.mpr ⟨_, hfields, rfl⟩)
  next =>
    split at h
    next hword =>
      cases h
      exact .word (mem_of_scanWord hword)
    next =>
      unfold readNumber at h
      split at h
      next => cases h
      next hn =>
        split at h
        next => cases h
        next hvalue =>
          cases h
          exact .number (scanNumeral_digits hn) hvalue

/-- Items at the head of a text are one, or one in front of others. -/
theorem ReadsItems.cases (hread : ReadsItems cs items rest) :
    ∃ v rest', Reads cs v rest' ∧ (items = [v] ∨ ∃ more inner, inner.length < cs.length ∧
      items = v :: more ∧ ReadsItems inner more rest) := by
  obtain ⟨⟨p, hlt⟩, h, hp⟩ := map_eq_ok_iff.mp hread
  cases hp
  rw [readItems] at h
  split at h
  next => cases h
  next v rest' hr hv =>
    refine ⟨v, rest', map_eq_ok_iff.mpr ⟨_, hv, rfl⟩, ?_⟩
    dsimp only at h
    split at h
    next =>
      cases h
      exact .inl rfl
    next tail hgap =>
      split at h
      next => cases h
      next hmore =>
        cases h
        have hlength : (skipGap tail).length < _ := (length_skipGap_lt hgap).trans hr
        exact .inr ⟨_, _, hlength, rfl, map_eq_ok_iff.mpr ⟨_, hmore, rfl⟩⟩
    next => cases h

/-- Fields at the head of a text are one on top of those seen, or one with others on top of
it. -/
theorem ReadsFields.cases (hread : ReadsFields seen cs fields rest) :
    ∃ name v inner rest', inner.length < cs.length ∧ Reads inner v rest' ∧
      (fields = Table.put seen name v ∨ ∃ more, more.length < cs.length ∧
        ReadsFields (Table.put seen name v) more fields rest) := by
  obtain ⟨⟨p, hlt⟩, h, hp⟩ := map_eq_ok_iff.mp hread
  cases hp
  unfold readFields at h
  split at h
  next cs' =>
    split at h
    next => cases h
    next name rest₁ hname =>
      dsimp only at h
      split at h
      next rest₂ hcolon =>
        split at h
        next => cases h
        next v rest₃ hr hv =>
          have hinner : (skipGap rest₂).length < (.char '"' :: cs').length :=
            ((length_skipGap_lt hcolon).trans (scanText_length hname)).trans (Nat.lt_succ_self _)
          refine ⟨.ofPoints name, v, _, rest₃, hinner, map_eq_ok_iff.mpr ⟨_, hv, rfl⟩, ?_⟩
          split at h
          next =>
            cases h
            exact .inl rfl
          next tail hgap =>
            split at h
            next => cases h
            next hmore =>
              cases h
              have hlength : (skipGap tail).length < (.char '"' :: cs').length :=
                ((length_skipGap_lt hgap).trans hr).trans hinner
              exact .inr ⟨_, hlength, map_eq_ok_iff.mpr ⟨_, hmore, rfl⟩⟩
          next => cases h
      next => cases h
  next => cases h

/-! ## §2. What a text holds. -/

/-- Some text holds a value. -/
def Held (v : Value) : Prop := ∃ s, Json.read s = .ok v

/-- A value that can be written if its numbers are finite and its texts whole. -/
def Sound (v : Value) : Prop := v.Finite → v.Whole → v.Writable

theorem sound_word (h : v ∈ valueWords.map Prod.snd) : Sound v := by
  have hwords : valueWords.map Prod.snd = [.null, .bool true, .bool false,
    .number (.double Binary64.nan), .number (.double (Binary64.infinity false)),
    .number (.double (Binary64.infinity true))] := rfl
  have hdouble : ∀ x : Binary64, x.isFinite = false → Sound (.number (.double x)) := by
    intro x hx hfinite
    cases hfinite with
    | double h =>
        rw [hx] at h
        cases h
  rw [hwords] at h
  simp only [List.mem_cons, List.not_mem_nil, or_false] at h
  rcases h with rfl | rfl | rfl | rfl | rfl | rfl
  · exact fun _ _ => .null
  · exact fun _ _ => .bool true
  · exact fun _ _ => .bool false
  · exact hdouble _ (by decide)
  · exact hdouble _ (by decide)
  · exact hdouble _ (by decide)

theorem sound_text (t : Text) : Sound (.text t) := by
  intro _ hwhole
  cases hwhole with
  | text s => exact .text s

theorem sound_number {n : Numeral} {number : Number} (hn : AllDigits n.whole)
    (h : n.value = .ok number) : Sound (.number number) := by
  intro hfinite _
  refine .number (writable_of_value hn h ?_)
  rintro x rfl
  cases hfinite with
  | double hx => exact hx

theorem sound_list (h : ∀ v ∈ items, Sound v) : Sound (.list items) := by
  intro hfinite hwhole
  cases hfinite with
  | list hitems =>
      cases hwhole with
      | list hwhole => exact .list fun v hv => h v hv (hitems v hv) (hwhole v hv)

theorem sound_object (hnames : Table.Distinct fields) (h : ∀ f ∈ fields, Sound f.2) :
    Sound (.object fields) := by
  intro hfinite hwhole
  cases hfinite with
  | object hfields =>
      cases hwhole with
      | object hkeys hwhole =>
          exact .object hnames hkeys fun f hf => h f hf (hfields f hf) (hwhole f hf)

/-- Writing a value leaves the others as they are. -/
theorem mem_put {name : Text} {f : Text × Value} (h : f ∈ Table.put seen name v) :
    f = (name, v) ∨ f ∈ seen := by
  unfold Table.put at h
  split at h
  next =>
    obtain ⟨e, he, rfl⟩ := List.mem_map.mp h
    split
    · exact .inl rfl
    · exact .inr he
  next =>
    rcases List.mem_append.mp h with h | h
    · exact .inr h
    · exact .inl (List.mem_singleton.mp h)

/-- Fields that are written to by a reader have each name once, and values that can be written. -/
structure SoundFields (fields : Fields) : Prop where
  names : Table.Distinct fields
  values : ∀ f ∈ fields, Sound f.2

theorem SoundFields.put (h : SoundFields seen) (name : Text) (hv : Sound v) :
    SoundFields (Table.put seen name v) := by
  refine ⟨h.names.put name v, fun f hf => ?_⟩
  rcases mem_put hf with rfl | hf
  · exact hv
  · exact h.values f hf

/-- By induction on the length of the text, since every reader leaves less than it is given
to the next. -/
theorem sound_of_length (n : Nat) :
    (∀ cs v rest, cs.length < n → Reads cs v rest → Sound v) ∧
    (∀ cs items rest, cs.length < n → ReadsItems cs items rest → ∀ v ∈ items, Sound v) ∧
    (∀ seen cs fields rest, cs.length < n → SoundFields seen → ReadsFields seen cs fields rest →
      SoundFields fields) := by
  induction n with
  | zero => exact ⟨nofun, nofun, nofun⟩
  | succ n ih =>
      obtain ⟨ihvalue, ihitems, ihfields⟩ := ih
      have hvalue : ∀ cs v rest, cs.length < n + 1 → Reads cs v rest → Sound v := by
        intro cs v rest hlength hread
        cases hread.taken with
        | text t => exact sound_text t
        | word hword => exact sound_word hword
        | number hdigits hnumber => exact sound_number hdigits hnumber
        | emptyList => exact sound_list nofun
        | list hinner hitems => exact sound_list (ihitems _ _ rest (by omega) hitems)
        | emptyObject => exact sound_object Table.distinct_nil nofun
        | object hinner hfields =>
            have h := ihfields [] _ _ rest (by omega) ⟨Table.distinct_nil, nofun⟩ hfields
            exact sound_object h.names h.values
      refine ⟨hvalue, ?_, ?_⟩
      · intro cs items rest hlength hread
        obtain ⟨v, rest', hv, rfl | ⟨more, inner, hinner, rfl, hmore⟩⟩ := hread.cases
        · exact List.forall_mem_singleton.mpr (hvalue cs v rest' hlength hv)
        · exact List.forall_mem_cons.mpr
            ⟨hvalue cs v rest' hlength hv, ihitems inner more rest (by omega) hmore⟩
      · intro seen cs fields rest hlength hseen hread
        obtain ⟨name, v, inner, rest', hinner, hv, rfl | ⟨more, hmore, hfields⟩⟩ := hread.cases
        · exact hseen.put name (hvalue inner v rest' (by omega) hv)
        · exact ihfields _ more fields rest (by omega)
            (hseen.put name (hvalue inner v rest' (by omega) hv)) hfields

theorem sound_of_read {s : Text} (h : Json.read s = .ok v) : Sound v := by
  unfold Json.read readWithin at h
  dsimp only at h
  split at h
  next => cases h
  next =>
    unfold readPoints at h
    dsimp only at h
    split at h
    next => cases h
    next hv =>
      split at h
      next =>
        cases h
        have hread : Reads (skipGap s.points) v _ := map_eq_ok_iff.mpr ⟨_, hv, rfl⟩
        exact (sound_of_length _).1 _ _ _ (Nat.lt_succ_self _) hread
      next => cases h

/-- The writable values are the finite ones with whole texts that some text holds. -/
theorem writable_iff : v.Writable ↔ Held v ∧ v.Finite ∧ v.Whole := by
  constructor
  · intro h
    exact ⟨⟨v.compact, read_compact h⟩, h.finite, h.whole⟩
  · rintro ⟨⟨s, hread⟩, hfinite, hwhole⟩
    exact sound_of_read hread hfinite hwhole

end Mandate.Json
