/-
  Mandate.Proofs.Log.Specification
  ────────────────────────────────
  **WHICH SPECIFICATIONS OF THRESHOLDS ARE READ.**

  A specification is read in two passes.  The first takes every entry apart and keeps the
  last one of each module; the second looks up the levels of those that were kept.  So the
  form of every entry matters, but its level does only as long as no later entry is about the
  same module.

      Assigns    — an entry gives a module the text of a level
      LastEntry  — the last entry about a module gives it this text
      Shaped     — every entry that is not blank has the form `module=LEVEL`
      WellFormed — and its level has a name

  Main results:
    * `exists_readEntry_iff`   — an entry is taken apart at its first equals sign;
    * `exists_readEntries_iff` — the first pass ends well if every entry has the form;
    * `lookup_readEntries_iff` — and keeps the last entry of each module;
    * `lookup_setAll_iff`      — the second gives every module the level of what was kept;
    * `specification_law`      — so this is what is read, what comes of it, and what is refused.
-/
import Mandate.Log.Thresholds
import Mandate.Proofs.History
import Mandate.Proofs.Success
import Mandate.Proofs.Table
import Mandate.Proofs.Text.Parts

namespace Mandate.Log

open Text (trimChars isBlank)

/-! ## §1. Names of levels. -/

namespace Level

/-- A text, in capitals, is a name of a level. -/
def Named (text : String) (l : Level) : Prop :=
  ∃ n, (String.ofList (text.toList.flatMap capitals), n) ∈ ofNames ∧ l = .number n

theorem distinct_ofNames : Table.Distinct ofNames := by decide

/-- A level is read off a text without the blanks around it. -/
theorem ofName?_eq_some_iff {s : String} {l : Level} :
    ofName? s = some l ↔ Named (Text.trim s) l := by
  have htrim : (Text.trim s).toList = trimChars s.toList := String.toList_ofList
  unfold ofName? Named
  rw [htrim, Option.map_eq_some_iff]
  refine exists_congr fun n => and_congr ?_ eq_comm
  exact distinct_ofNames.lookup_eq_some_iff

theorem parse_eq_ok_iff {s : String} {l : Level} : parse s = .ok l ↔ Named (Text.trim s) l := by
  rw [← ofName?_eq_some_iff, parse]
  cases ofName? s <;> simp

theorem parse_eq_error_iff {s : String} {f : SettingFault} :
    parse s = .error f ↔ (¬ ∃ l, Named (Text.trim s) l) ∧ f = .unknownLevel s := by
  simp only [← ofName?_eq_some_iff, parse]
  cases ofName? s <;> simp [eq_comm]

end Level

namespace Thresholds

/-! ## §2. Entries. -/

/-- What stands between the commas of a specification. -/
def pieces (spec : String) : List (List Char) := Text.splitOn ',' spec.toList

/-- An entry of nothing but blanks. -/
def Blank (entry : List Char) : Prop := ∀ c ∈ entry, isBlank c = true

/-- An entry gives a module the text of a level: the module stands in front of its first
equals sign and the level behind it, blanks around either of them aside. -/
def Assigns (entry : List Char) (module text : String) : Prop :=
  ∃ before behind, entry = before ++ '=' :: behind ∧ '=' ∉ before ∧
    module = String.ofList (trimChars before) ∧ module ≠ "" ∧
    text = String.ofList (trimChars behind) ∧ text ≠ ""

variable {entry before behind : List Char} {es : List (List Char)} {m raw text : String}
  {f : SettingFault} {l default : Level}

theorem equals_not_blank : isBlank '=' = false := by decide

theorem not_blank_of_equals : ¬ Blank (before ++ '=' :: behind) := by
  intro h
  have hequals := h '=' (by simp)
  rw [equals_not_blank] at hequals
  cases hequals

/-- An entry without an equals sign is blank or refused. -/
theorem readEntry_of_not_mem (h : '=' ∉ entry) :
    readEntry entry = if trimChars entry = [] then .ok none
      else .error (.moduleLevel (String.ofList (trimChars entry))) := by
  have hnone : Text.cut? '=' (trimChars entry) = none := by
    cases hcut : Text.cut? '=' (trimChars entry) with
    | none => rfl
    | some p =>
        -- Nothing but characters of the entry is left when it is trimmed.
        obtain ⟨hsplit, -⟩ := Text.cut?_eq_some hcut
        have hmem : '=' ∈ trimChars entry := by simp [hsplit]
        have hentry := (List.dropWhile_sublist _).mem (List.rdropWhile_prefix _ _ |>.mem hmem)
        exact absurd hentry h
  unfold readEntry
  simp only [hnone, List.isEmpty_iff]

/-- An entry with one is taken apart at the first. -/
theorem readEntry_append (h : '=' ∉ before) :
    readEntry (before ++ '=' :: behind) =
      if trimChars before = [] ∨ trimChars behind = [] then
        .error (.moduleLevel (String.ofList (trimChars (before ++ '=' :: behind))))
      else .ok (some (String.ofList (trimChars before), String.ofList (behind.rdropWhile isBlank)))
      := by
  have htrim : trimChars (before ++ '=' :: behind)
      = before.dropWhile isBlank ++ '=' :: behind.rdropWhile isBlank :=
    Text.trimWhere_around equals_not_blank
  have hbefore : trimChars (before.dropWhile isBlank) = trimChars before :=
    Text.trimWhere_dropWhile
  have hbehind : trimChars (behind.rdropWhile isBlank) = trimChars behind :=
    Text.trimWhere_rdropWhile
  have hfront : '=' ∉ before.dropWhile isBlank :=
    fun hmem => h ((List.dropWhile_sublist _).mem hmem)
  unfold readEntry
  simp only [htrim, Text.cut?_append hfront, hbefore, hbehind, Bool.or_eq_true, List.isEmpty_iff,
    List.append_eq_nil_iff, reduceCtorEq, and_false, if_false]

/-- An entry has an equals sign, and so a first one, or none. -/
theorem equals_cases (entry : List Char) :
    '=' ∉ entry ∨ ∃ before behind, entry = before ++ '=' :: behind ∧ '=' ∉ before := by
  by_cases h : '=' ∈ entry
  · exact .inr (List.eq_append_cons_of_mem h)
  · exact .inl h

theorem readEntry_eq_none_iff : readEntry entry = .ok none ↔ Blank entry := by
  rcases equals_cases entry with h | ⟨before, behind, rfl, h⟩
  · rw [readEntry_of_not_mem h]
    unfold Blank
    rw [← Text.trimWhere_eq_nil_iff]
    show _ ↔ trimChars entry = []
    split <;> simp [*]
  · rw [readEntry_append h]
    refine iff_of_false ?_ not_blank_of_equals
    split <;> simp

theorem assigns_append_iff (h : '=' ∉ before) :
    Assigns (before ++ '=' :: behind) m text ↔
      m = String.ofList (trimChars before) ∧ m ≠ "" ∧
      text = String.ofList (trimChars behind) ∧ text ≠ "" := by
  constructor
  · rintro ⟨before', behind', heq, h', hrest⟩
    have hcut : Text.cut? '=' (before ++ '=' :: behind) = some (before, behind) :=
      Text.cut?_append h
    rw [heq, Text.cut?_append h'] at hcut
    cases hcut
    exact hrest
  · rintro hrest
    exact ⟨before, behind, rfl, h, hrest⟩

theorem not_assigns_of_not_mem (h : '=' ∉ entry) : ¬ Assigns entry m text := by
  rintro ⟨before, behind, rfl, -⟩
  exact h (by simp)

/-- What is read off an entry is what it assigns. -/
theorem exists_readEntry_iff :
    (∃ raw, readEntry entry = .ok (some (m, raw)) ∧ Text.trim raw = text) ↔
      Assigns entry m text := by
  rcases equals_cases entry with h | ⟨before, behind, rfl, h⟩
  · refine iff_of_false ?_ (not_assigns_of_not_mem h)
    rintro ⟨raw, hraw, -⟩
    rw [readEntry_of_not_mem h] at hraw
    split at hraw <;> cases hraw
  · have htext : Text.trim (String.ofList (behind.rdropWhile isBlank))
        = String.ofList (trimChars behind) := by
      unfold Text.trim
      rw [String.toList_ofList]
      exact congrArg String.ofList Text.trimWhere_rdropWhile
    have hne (cs : List Char) : String.ofList cs ≠ "" ↔ cs ≠ [] := by simp
    rw [assigns_append_iff h, readEntry_append h]
    constructor
    · rintro ⟨raw, hraw, rfl⟩
      split at hraw
      next => cases hraw
      next hboth =>
        cases hraw
        rw [not_or] at hboth
        rw [htext, hne, hne]
        exact ⟨rfl, hboth.1, rfl, hboth.2⟩
    · rintro ⟨rfl, hm, rfl, ht⟩
      rw [hne] at hm ht
      rw [if_neg (not_or.mpr ⟨hm, ht⟩)]
      exact ⟨_, rfl, htext⟩

theorem readEntry_eq_error_iff :
    readEntry entry = .error f ↔ (¬ Blank entry ∧ ∀ m text, ¬ Assigns entry m text) ∧
      f = .moduleLevel (String.ofList (trimChars entry)) := by
  have hcases : (¬ Blank entry ∧ ∀ m text, ¬ Assigns entry m text) ↔
      ∃ f, readEntry entry = .error f := by
    simp only [← readEntry_eq_none_iff, ← exists_readEntry_iff]
    match readEntry entry with
    | .error f => simp
    | .ok none => simp
    | .ok (some (m, raw)) => simp
  have hfault : ∀ f, readEntry entry = .error f →
      f = .moduleLevel (String.ofList (trimChars entry)) := by
    intro f hf
    rcases equals_cases entry with h | ⟨before, behind, rfl, h⟩
    · rw [readEntry_of_not_mem h] at hf
      split at hf <;> cases hf
      rfl
    · rw [readEntry_append h] at hf
      split at hf <;> cases hf
      rfl
  rw [hcases]
  constructor
  · intro hf
    exact ⟨⟨f, hf⟩, hfault f hf⟩
  · rintro ⟨⟨g, hg⟩, rfl⟩
    rw [hg, hfault g hg]

/-! ## §3. The first pass. -/

/-- The last of these entries about a module reads as this text. -/
def Kept (es : List (List Char)) (m raw : String) : Prop :=
  ∃ entry, readEntry entry = .ok (some (m, raw)) ∧
    Stands (fun e => ∃ r, readEntry e = .ok (some (m, r))) es entry

theorem not_kept_nil : ¬ Kept [] m raw := by
  rintro ⟨entry, -, hstands⟩
  exact not_stands_nil hstands

/-- An entry about a module is kept, and what was kept of other modules stays. -/
theorem kept_append_singleton_iff :
    Kept (es ++ [entry]) m raw ↔
      readEntry entry = .ok (some (m, raw)) ∨
      (¬ ∃ r, readEntry entry = .ok (some (m, r))) ∧ Kept es m raw := by
  unfold Kept
  simp only [stands_append_singleton]
  constructor
  · rintro ⟨e, he, rfl | ⟨hother, hstands⟩⟩
    · exact .inl he
    · exact .inr ⟨hother, e, he, hstands⟩
  · rintro (he | ⟨hother, e, he, hstands⟩)
    · exact ⟨entry, he, .inl rfl⟩
    · exact ⟨e, he, .inr ⟨hother, hstands⟩⟩

/-- One more entry is read on top of those before it. -/
theorem readEntries_append_singleton (seen : Table String String) (es : List (List Char))
    (entry : List Char) :
    readEntries seen (es ++ [entry]) =
      readEntries seen es >>= fun table => (readEntry entry).map fun
        | none => table
        | some (m, raw) => table.put m raw := by
  induction es generalizing seen with
  | nil =>
      show readEntries seen [entry] = _
      unfold readEntries
      cases readEntry entry with
      | error f => rfl
      | ok o =>
          cases o with
          | none => rfl
          | some p => rfl
  | cons e es ih =>
      rw [List.cons_append, readEntries, readEntries]
      cases readEntry e with
      | error f => rfl
      | ok o =>
          cases o with
          | none => exact ih seen
          | some p => exact ih (seen.put p.1 p.2)

/-- The first pass ends well if every entry is read. -/
theorem exists_readEntries_iff :
    (∃ table, readEntries [] es = .ok table) ↔ ∀ e ∈ es, ∃ o, readEntry e = .ok o := by
  induction es using List.reverseRecOn with
  | nil => exact iff_of_true ⟨[], rfl⟩ nofun
  | append_singleton es e ih =>
      rw [readEntries_append_singleton, List.forall_mem_append, ← ih, List.forall_mem_singleton]
      simp only [Capability.bind_eq_ok, map_eq_ok_iff]
      constructor
      · rintro ⟨table, t, ht, o, ho, -⟩
        exact ⟨⟨t, ht⟩, o, ho⟩
      · rintro ⟨⟨t, ht⟩, o, ho⟩
        exact ⟨_, t, ht, o, ho, rfl⟩

theorem distinct_readEntries {table : Table String String} (h : readEntries [] es = .ok table) :
    table.Distinct := by
  induction es using List.reverseRecOn generalizing table with
  | nil =>
      cases h
      exact Table.distinct_nil
  | append_singleton es e ih =>
      rw [readEntries_append_singleton, Capability.bind_eq_ok] at h
      obtain ⟨t, ht, hmap⟩ := h
      obtain ⟨o, -, rfl⟩ := map_eq_ok_iff.mp hmap
      cases o with
      | none => exact ih ht
      | some p => exact (ih ht).put p.1 p.2

/-- The first pass keeps the last entry about each module. -/
theorem lookup_readEntries_iff {table : Table String String} (h : readEntries [] es = .ok table) :
    table.lookup m = some raw ↔ Kept es m raw := by
  induction es using List.reverseRecOn generalizing table with
  | nil =>
      cases h
      exact iff_of_false nofun not_kept_nil
  | append_singleton es e ih =>
      rw [readEntries_append_singleton, Capability.bind_eq_ok] at h
      obtain ⟨t, ht, hmap⟩ := h
      obtain ⟨o, ho, rfl⟩ := map_eq_ok_iff.mp hmap
      rw [kept_append_singleton_iff, ← ih ht, ho]
      cases o with
      | none => simp
      | some p =>
          obtain ⟨k, r⟩ := p
          show (t.put k r).lookup m = some raw ↔ _
          rw [Table.lookup_put]
          by_cases hm : m = k
          · subst hm
            simp [eq_comm]
          · simp [hm, Ne.symm hm]

/-- The first pass stops at the first entry that is refused. -/
theorem readEntries_eq_error_iff {seen : Table String String} :
    readEntries seen es = .error f ↔ ∃ before e after, es = before ++ e :: after ∧
      (∀ b ∈ before, ∃ o, readEntry b = .ok o) ∧ readEntry e = .error f := by
  induction es generalizing seen with
  | nil => simp [readEntries]
  | cons e es ih =>
      rw [exists_first_cons_iff, readEntries]
      cases readEntry e with
      | error g => simp
      | ok o =>
          cases o with
          | none => simp [ih]
          | some p => simp [ih]

/-! ## §4. The second pass. -/

section SetAll

variable {ε α : Type} {read : α → Except ε Level} {t t' : Thresholds} {table : Table String α}
  {e : ε}

/-- The second pass ends well if every value has a level. -/
theorem exists_setAll_iff :
    (∃ t', setAll read t table = .ok t') ↔ ∀ p ∈ table, ∃ l, read p.2 = .ok l := by
  induction table generalizing t with
  | nil => simp [setAll]
  | cons p table ih =>
      obtain ⟨module, value⟩ := p
      rw [List.forall_mem_cons, setAll]
      cases read value with
      | error e => simp
      | ok l => simp [ih]

theorem exists_mem_of_setAll_error (h : setAll read t table = .error e) :
    ∃ p ∈ table, read p.2 = .error e := by
  induction table generalizing t with
  | nil => cases h
  | cons p table ih =>
      obtain ⟨module, value⟩ := p
      rw [setAll] at h
      cases hread : read value with
      | error e' =>
          rw [hread] at h
          cases h
          exact ⟨_, List.mem_cons_self, hread⟩
      | ok l =>
          rw [hread] at h
          obtain ⟨q, hq, hread⟩ := ih h
          exact ⟨q, List.mem_cons_of_mem _ hq, hread⟩

/-- Setting thresholds changes nothing but thresholds, and writes none twice. -/
theorem frame_setAll (h : setAll read t table = .ok t') :
    t'.default = t.default ∧ t'.shown = t.shown ∧ (t.levels.Distinct → t'.levels.Distinct) := by
  induction table generalizing t with
  | nil =>
      cases h
      exact ⟨rfl, rfl, id⟩
  | cons p table ih =>
      obtain ⟨module, value⟩ := p
      rw [setAll] at h
      cases hread : read value with
      | error e => rw [hread] at h; cases h
      | ok l =>
          rw [hread] at h
          obtain ⟨hdefault, hshown, hdistinct⟩ := ih h
          exact ⟨hdefault, hshown, fun ht => hdistinct (ht.put module l)⟩

/-- The second pass gives every module the level of its value, and the others keep theirs. -/
theorem lookup_setAll_iff (hdistinct : table.Distinct) (h : setAll read t table = .ok t') :
    t'.levels.lookup m = some l ↔
      (∃ a, (m, a) ∈ table ∧ read a = .ok l) ∨
      m ∉ table.map Prod.fst ∧ t.levels.lookup m = some l := by
  induction table generalizing t with
  | nil =>
      cases h
      simp
  | cons p table ih =>
      obtain ⟨module, value⟩ := p
      obtain ⟨hnew, hrest⟩ := List.nodup_cons.mp hdistinct
      rw [setAll] at h
      cases hread : read value with
      | error e => rw [hread] at h; cases h
      | ok k =>
          rw [hread] at h
          have hput : (t.setLevel module k).levels.lookup m
              = if m = module then some k else t.levels.lookup m := Table.lookup_put ..
          rw [ih hrest h, hput]
          by_cases hm : m = module
          · -- No later value is about this module.
            subst hm
            have hnone : ∀ a, (m, a) ∉ table := fun a ha => hnew (List.mem_map.mpr ⟨_, ha, rfl⟩)
            have hnew : m ∉ table.map Prod.fst := hnew
            simp [hnone, hnew, hread]
          · simp [hm]

end SetAll

/-! ## §5. Both passes. -/

/-- The last entry about a module gives it the text of a level. -/
def LastEntry (spec m text : String) : Prop :=
  ∃ entry, Assigns entry m text ∧ Stands (fun e => ∃ t, Assigns e m t) (pieces spec) entry

/-- Every entry that is not blank has the form `module=LEVEL`. -/
def Shaped (spec : String) : Prop :=
  ∀ entry ∈ pieces spec, Blank entry ∨ ∃ m text, Assigns entry m text

/-- Every entry that is not blank has the form `module=LEVEL`, and its level has a name. -/
def WellFormed (spec : String) : Prop :=
  ∀ entry ∈ pieces spec, Blank entry ∨ ∃ m text, Assigns entry m text ∧ ∃ l, Level.Named text l

variable {spec : String} {t : Thresholds}

theorem Assigns.text_eq {m' text' : String} (h : Assigns entry m text)
    (h' : Assigns entry m' text') : text = text' := by
  obtain ⟨before, behind, rfl, hbefore, -, -, htext, -⟩ := h
  obtain ⟨-, -, htext', -⟩ := (assigns_append_iff hbefore).mp h'
  rw [htext, htext']

theorem exists_read_iff :
    (∃ o, readEntry entry = .ok o) ↔ Blank entry ∨ ∃ m text, Assigns entry m text := by
  simp only [← readEntry_eq_none_iff, ← exists_readEntry_iff]
  match readEntry entry with
  | .error f => simp
  | .ok none => simp
  | .ok (some (m, raw)) => simp

theorem concerns_iff : (∃ r, readEntry entry = .ok (some (m, r))) ↔ ∃ t, Assigns entry m t := by
  simp only [← exists_readEntry_iff]
  exact ⟨fun ⟨r, hr⟩ => ⟨_, r, hr, rfl⟩, fun ⟨_, r, hr, _⟩ => ⟨r, hr⟩⟩

theorem exists_kept_iff :
    (∃ raw, Kept (pieces spec) m raw ∧ Text.trim raw = text) ↔ LastEntry spec m text := by
  unfold Kept LastEntry
  have htold : ∀ entry, Assigns entry m text ↔
      ∃ raw, readEntry entry = .ok (some (m, raw)) ∧ Text.trim raw = text :=
    fun entry => exists_readEntry_iff.symm
  simp only [concerns_iff, htold]
  constructor
  · rintro ⟨raw, ⟨entry, hraw, hstands⟩, htext⟩
    exact ⟨entry, ⟨raw, hraw, htext⟩, hstands⟩
  · rintro ⟨entry, ⟨raw, hraw, htext⟩, hstands⟩
    exact ⟨raw, ⟨entry, hraw, hstands⟩, htext⟩

theorem exists_entries_iff : (∃ table, entries spec = .ok table) ↔ Shaped spec := by
  unfold Shaped
  simp only [← exists_read_iff]
  exact exists_readEntries_iff

theorem mem_entries_iff {table : Table String String} (h : entries spec = .ok table) :
    (m, raw) ∈ table ↔ Kept (pieces spec) m raw := by
  rw [← (distinct_readEntries h).lookup_eq_some_iff]
  exact lookup_readEntries_iff h

theorem exists_ofSpec_iff :
    (∃ t, ofSpec spec default = .ok t) ↔
      Shaped spec ∧ ∀ m text, LastEntry spec m text → ∃ l, Level.Named text l := by
  rw [← exists_entries_iff, ofSpec]
  cases hentries : entries spec with
  | error f => simp
  | ok table =>
      have hnamed : (∀ p ∈ table, ∃ l, Level.parse p.2 = .ok l) ↔
          ∀ m text, LastEntry spec m text → ∃ l, Level.Named text l := by
        simp only [← exists_kept_iff, Level.parse_eq_ok_iff]
        constructor
        · rintro h m text ⟨raw, hkept, rfl⟩
          exact h (m, raw) ((mem_entries_iff hentries).mpr hkept)
        · rintro h ⟨m, raw⟩ hmem
          exact h m _ ⟨raw, (mem_entries_iff hentries).mp hmem, rfl⟩
      rw [← hnamed]
      simp [exists_setAll_iff]

/-- What a specification comes to: the level of the last entry about each module, and nothing
else. -/
theorem lookup_ofSpec_iff (h : ofSpec spec default = .ok t) :
    t.levels.lookup m = some l ↔ ∃ text, LastEntry spec m text ∧ Level.Named text l := by
  rw [ofSpec] at h
  cases hentries : entries spec with
  | error f => rw [hentries] at h; cases h
  | ok table =>
      rw [hentries] at h
      rw [lookup_setAll_iff (distinct_readEntries hentries) h]
      simp only [mem_entries_iff hentries, Level.parse_eq_ok_iff, ← exists_kept_iff]
      have hplain : (plain default).levels.lookup m ≠ some l := nofun
      constructor
      · rintro (⟨raw, hkept, hnamed⟩ | ⟨-, hnone⟩)
        · exact ⟨_, ⟨raw, hkept, rfl⟩, hnamed⟩
        · exact absurd hnone hplain
      · rintro ⟨text, ⟨raw, hkept, rfl⟩, hnamed⟩
        exact .inl ⟨raw, hkept, hnamed⟩

theorem frame_ofSpec (h : ofSpec spec default = .ok t) :
    t.default = default ∧ t.shown = [] ∧ t.levels.Distinct := by
  rw [ofSpec] at h
  cases hentries : entries spec with
  | error f => rw [hentries] at h; cases h
  | ok table =>
      rw [hentries] at h
      obtain ⟨hdefault, hshown, hdistinct⟩ := frame_setAll h
      exact ⟨hdefault, hshown, hdistinct Table.distinct_nil⟩

/-- What is refused is the first entry without the form, or else the level of the last entry
about some module. -/
theorem ofSpec_eq_error (h : ofSpec spec default = .error f) :
    (∃ before entry after, pieces spec = before ++ entry :: after ∧
      (∀ b ∈ before, Blank b ∨ ∃ m text, Assigns b m text) ∧
      (¬ Blank entry ∧ ∀ m text, ¬ Assigns entry m text) ∧
      f = .moduleLevel (String.ofList (trimChars entry))) ∨
    Shaped spec ∧ ∃ m raw, LastEntry spec m (Text.trim raw) ∧
      (¬ ∃ l, Level.Named (Text.trim raw) l) ∧ f = .unknownLevel raw := by
  rw [ofSpec] at h
  cases hentries : entries spec with
  | error g =>
      rw [hentries] at h
      cases h
      obtain ⟨before, entry, after, hsplit, hbefore, hentry⟩ :=
        readEntries_eq_error_iff.mp hentries
      obtain ⟨hshape, hfault⟩ := readEntry_eq_error_iff.mp hentry
      exact .inl ⟨before, entry, after, hsplit, fun b hb => exists_read_iff.mp (hbefore b hb),
        hshape, hfault⟩
  | ok table =>
      rw [hentries] at h
      obtain ⟨⟨m, raw⟩, hmem, hparse⟩ := exists_mem_of_setAll_error h
      obtain ⟨hunnamed, hfault⟩ := Level.parse_eq_error_iff.mp hparse
      have hlast : LastEntry spec m (Text.trim raw) :=
        exists_kept_iff.mp ⟨raw, (mem_entries_iff hentries).mp hmem, rfl⟩
      exact .inr ⟨exists_entries_iff.mp ⟨table, hentries⟩, m, raw, hlast, hunnamed, hfault⟩

/-- A specification is well-formed if it is read, and the levels of the entries that others
replace have names as well. -/
theorem wellFormed_iff :
    WellFormed spec ↔ (∃ t, ofSpec spec default = .ok t) ∧
      ∀ entry since m text, Followed (pieces spec) entry since → Assigns entry m text →
        (∃ e ∈ since, ∃ t, Assigns e m t) → ∃ l, Level.Named text l := by
  rw [exists_ofSpec_iff]
  constructor
  · intro h
    have hnamed : ∀ entry ∈ pieces spec, ∀ m text, Assigns entry m text →
        ∃ l, Level.Named text l := by
      intro entry hentry m text hassigns
      rcases h entry hentry with hblank | ⟨m', text', hassigns', hnamed⟩
      · obtain ⟨before, behind, rfl, -⟩ := hassigns
        exact absurd hblank not_blank_of_equals
      · rwa [hassigns.text_eq hassigns']
    refine ⟨⟨fun entry hentry => ?_, ?_⟩, ?_⟩
    · exact (h entry hentry).imp_right fun ⟨m, text, hassigns, _⟩ => ⟨m, text, hassigns⟩
    · rintro m text ⟨entry, hassigns, hstands⟩
      exact hnamed entry hstands.mem m text hassigns
    · intro entry since m text hfollowed hassigns _
      exact hnamed entry hfollowed.mem m text hassigns
  · rintro ⟨⟨hshaped, hlast⟩, hreplaced⟩ entry hentry
    rcases hshaped entry hentry with hblank | ⟨m, text, hassigns⟩
    · exact .inl hblank
    · refine .inr ⟨m, text, hassigns, ?_⟩
      obtain ⟨before, since, hsplit⟩ := List.append_of_mem hentry
      -- An entry is the last about its module, or another one replaces it.
      by_cases hlater : ∃ e ∈ since, ∃ t, Assigns e m t
      · exact hreplaced entry since m text ⟨before, hsplit⟩ hassigns hlater
      · refine hlast m text ⟨entry, hassigns, since, ⟨before, hsplit⟩, fun e he hconcerns => ?_⟩
        exact hlater ⟨e, he, hconcerns⟩

/-! ## §6. The law. -/

/-- **WHAT IS READ OF A SPECIFICATION.**  A specification is read if and only if every entry
that is not blank has the form `module=LEVEL`, and the level of the last entry about each
module has a name; these are the well-formed ones, and those in which a level without a name
stands only in entries that a later one replaces.  What is read has the level of the last entry
about each module, each module once, and nothing else.  Otherwise the setting is at fault: by
the first entry without the form, or by the level of a last entry. -/
theorem specification_law (spec : String) (default : Level) :
    ((∃ t, ofSpec spec default = .ok t) ↔
      Shaped spec ∧ ∀ m text, LastEntry spec m text → ∃ l, Level.Named text l) ∧
    (WellFormed spec ↔ (∃ t, ofSpec spec default = .ok t) ∧
      ∀ entry since m text, Followed (pieces spec) entry since → Assigns entry m text →
        (∃ e ∈ since, ∃ t, Assigns e m t) → ∃ l, Level.Named text l) ∧
    (∀ t, ofSpec spec default = .ok t →
      (t.default = default ∧ t.shown = [] ∧ t.levels.Distinct) ∧
      ∀ m l, t.levels.lookup m = some l ↔ ∃ text, LastEntry spec m text ∧ Level.Named text l) ∧
    ∀ f, ofSpec spec default = .error f →
      (∃ before entry after, pieces spec = before ++ entry :: after ∧
        (∀ b ∈ before, Blank b ∨ ∃ m text, Assigns b m text) ∧
        (¬ Blank entry ∧ ∀ m text, ¬ Assigns entry m text) ∧
        f = .moduleLevel (String.ofList (trimChars entry))) ∨
      Shaped spec ∧ ∃ m raw, LastEntry spec m (Text.trim raw) ∧
        (¬ ∃ l, Level.Named (Text.trim raw) l) ∧ f = .unknownLevel raw := by
  refine ⟨exists_ofSpec_iff, wellFormed_iff, fun t ht => ?_, fun f hf => ofSpec_eq_error hf⟩
  exact ⟨frame_ofSpec ht, fun m l => lookup_ofSpec_iff ht⟩

/-- A level without a name stands in an entry that a later one replaces. -/
def replacing : String := "a=LOUD, a = info ,"

/-- What is read of it. -/
def replaced : Thresholds := { default := .error, levels := [("a", .info)], shown := [] }

theorem assigns_last : Assigns " a = info ".toList "a" "info" :=
  ⟨" a ".toList, " info ".toList, rfl, by decide, by decide, by decide, by decide, by decide⟩

/-- The last entry decides, and the refusal of a level without a name in its place. -/
theorem info_of_last_entry :
    ofSpec replacing .error = .ok replaced ∧ replaced.levels.lookup "a" = some .info ∧
    ofSpec "a=info,a=LOUD" .error = .error (.unknownLevel "LOUD") ∧
    (Shaped "a=info,a=LOUD" ∧ ¬ ∃ l, Level.Named "LOUD" l) := by
  have hread : ofSpec replacing .error = .ok replaced := by rfl
  have hrefused : ofSpec "a=info,a=LOUD" .error = .error (.unknownLevel "LOUD") := by rfl
  obtain ⟨-, -, htable, -⟩ := specification_law replacing .error
  obtain ⟨-, -, -, hfault⟩ := specification_law "a=info,a=LOUD" .error
  have hlast : LastEntry replacing "a" "info" := by
    refine ⟨_, assigns_last, [[]], ⟨["a=LOUD".toList], rfl⟩, ?_⟩
    rintro e he ⟨t, ht⟩
    rw [List.mem_singleton.mp he] at ht
    exact not_assigns_of_not_mem List.not_mem_nil ht
  have hinfo : Level.Named "info" .info := ⟨20, by decide, rfl⟩
  refine ⟨hread, ((htable _ hread).2 _ _).mpr ⟨"info", hlast, hinfo⟩, hrefused, ?_⟩
  rcases hfault _ hrefused with ⟨_, _, _, _, _, _, hform⟩ | ⟨hshaped, m, raw, -, hunnamed, heq⟩
  · cases hform
  · cases heq
    exact ⟨hshaped, hunnamed⟩

/-- A specification that is not well-formed is read: the level of its first entry has no name,
but the second replaces it. -/
theorem replaced_level_unread :
    (∃ t, ofSpec "a=LOUD,a=INFO" .info = .ok t ∧ t.levels = [("a", .info)]) ∧
    ¬ WellFormed "a=LOUD,a=INFO" := by
  refine ⟨⟨_, rfl, rfl⟩, fun h => ?_⟩
  have hpiece : "a=LOUD".toList ∈ pieces "a=LOUD,a=INFO" := by decide
  have hassigns : Assigns "a=LOUD".toList "a" "LOUD" :=
    ⟨['a'], "LOUD".toList, rfl, by decide, by decide, by decide, by decide, by decide⟩
  rcases h _ hpiece with hblank | ⟨m, text, hassigns', l, hnamed⟩
  · exact absurd (hblank '=' (by decide)) (by decide)
  · have htrim : Text.trim "LOUD" = "LOUD" := by decide
    have hnone : Level.ofName? "LOUD" = none := by rfl
    rw [← hassigns.text_eq hassigns', ← htrim, ← Level.ofName?_eq_some_iff, hnone] at hnamed
    cases hnamed

end Thresholds

end Mandate.Log
