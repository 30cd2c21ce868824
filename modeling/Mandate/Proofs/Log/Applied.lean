/-
  Mandate.Proofs.Log.Applied
  ────────────────────────────────
  **A TABLE OF THRESHOLDS AND THE LOGGERS IT IS APPLIED TO.**

  A table looks for the nearest ancestor with an entry, whatever its level, and falls back to
  its default.  Loggers look for the nearest ancestor with a level other than zero, and fall
  back to the root, which has a name of its own.  Once a table is applied, the two ways lead
  to the same level, but for an entry of level zero, and for one under the name of the root
  that changes what all others fall back to.

      Dotted   — a name of components none of which is empty
      HeldBack — a name at or below a library that is held back
      Agrees   — for a name, loggers and table have the same threshold, and let the same
                 records pass

  Main results:
    * `cons_ancestors_eq`     — the ancestors of a dotted name are those of its lineage;
    * `lookup_loggers`        — the loggers of a setup have the levels of its table;
    * `effective_of_found`    — so the nearest entry decides unless its level is zero;
    * `effective_of_no_entry` — and without one the root does;
    * `agrees_iff`            — so where they agree is known for every name;
    * `applied_law`           — where loggers and table agree.
-/
import Mandate.Log.Setup
import Mandate.Proofs.Log.Ancestry
import Mandate.Proofs.Log.Specification

namespace Mandate.Log

/-! ## §1. Dotted names. -/

/-- `Dotted`, by the characters of the name. -/
def DottedChars (cs : List Char) : Prop := ∀ part ∈ Text.splitOn '.' cs, part ≠ []

/-- The components of a name between its dots are not empty. -/
def Dotted (name : String) : Prop := DottedChars name.toList

instance (name : String) : Decidable (Dotted name) :=
  inferInstanceAs (Decidable (∀ part ∈ _, part ≠ []))

section Chars

variable {cs ds front last : List Char}

theorem DottedChars.ne_nil (h : DottedChars cs) : cs ≠ [] := by
  rintro rfl
  exact h [] List.mem_cons_self rfl

theorem dottedChars_append_iff :
    DottedChars (front ++ '.' :: last) ↔ DottedChars front ∧ DottedChars last := by
  unfold DottedChars
  rw [Text.splitOn_append, List.forall_mem_append]

/-- Without its last character, a dotted name has the same parent. -/
theorem DottedChars.parentName_dropLast (h : DottedChars cs) :
    parentName cs.dropLast = parentName cs := by
  by_cases hdot : '.' ∈ cs
  · obtain ⟨front, last, rfl, hlast⟩ := exists_last_dot hdot
    have hne : last ≠ [] := (dottedChars_append_iff.mp h).2.ne_nil
    have hcut : (front ++ '.' :: last).dropLast = front ++ '.' :: last.dropLast := by
      rw [List.dropLast_append_of_ne_nil (List.cons_ne_nil _ _), List.dropLast_cons_of_ne_nil hne]
    have hlast' : '.' ∉ last.dropLast := fun hmem => hlast ((List.dropLast_sublist _).mem hmem)
    rw [hcut, parentName_of_last hlast', parentName_of_last hlast]
  · have hdot' : '.' ∉ cs.dropLast := fun hmem => hdot ((List.dropLast_sublist _).mem hmem)
    rw [parentName_of_plain hdot', parentName_of_plain hdot]

theorem DottedChars.parentName (h : DottedChars cs) (hne : parentName cs ≠ []) :
    DottedChars (parentName cs) := by
  by_cases hdot : '.' ∈ cs
  · obtain ⟨front, last, rfl, hlast⟩ := exists_last_dot hdot
    rw [parentName_of_last hlast]
    exact (dottedChars_append_iff.mp h).1
  · exact absurd (parentName_of_plain hdot) hne

/-- The names above a logger depend on its parent alone. -/
theorem ancestorsChars_eq (cs : List Char) :
    ancestorsChars cs = if parentName cs = [] then []
      else parentName cs :: ancestorsChars (parentName cs).dropLast := by
  have hnil : parentName [] = [] := rfl
  rw [ancestorsChars]
  by_cases hcs : cs = []
  · rw [dif_pos hcs, hcs, if_pos hnil]
  · rw [dif_neg hcs]
    simp only [List.isEmpty_iff]

theorem ancestorsChars_congr (h : parentName cs = parentName ds) :
    ancestorsChars cs = ancestorsChars ds := by
  rw [ancestorsChars_eq cs, ancestorsChars_eq ds, h]

/-- The names above a dotted logger are those that come up for its parent. -/
theorem DottedChars.ancestorsChars_eq_lineageChars (h : DottedChars cs) :
    ancestorsChars cs = lineageChars (Log.parentName cs) := by
  induction hn : cs.length using Nat.strongRecOn generalizing cs with
  | ind n ih =>
      have hlt := parentName_length_lt h.ne_nil
      rw [ancestorsChars_eq, lineageChars]
      by_cases hparent : Log.parentName cs = []
      · rw [if_pos hparent, dif_pos hparent]
      · have hdotted := h.parentName hparent
        rw [if_neg hparent, dif_neg hparent, ancestorsChars_congr hdotted.parentName_dropLast,
          ih _ (hn ▸ hlt) hdotted rfl]

end Chars

section Names

variable {name p q : String}

/-- A dotted name and the names above it are its lineage. -/
theorem cons_ancestors_eq (h : Dotted name) : name :: ancestors name = lineage name := by
  have hlineage : lineageChars name.toList = name.toList :: ancestorsChars name.toList := by
    rw [h.ancestorsChars_eq_lineageChars, lineageChars, dif_neg h.ne_nil]
  unfold ancestors lineage
  rw [hlineage, List.map_cons, String.ofList_toList]

theorem Above.trans (hp : Above p q) (hq : Above q name) : Above p name := by
  obtain ⟨hne, rfl | ⟨rest, rfl⟩⟩ := hp
  · exact hq
  · obtain ⟨-, rfl | ⟨more, rfl⟩⟩ := hq
    · exact ⟨hne, .inr ⟨rest, rfl⟩⟩
    · exact ⟨hne, .inr ⟨rest ++ "." ++ more, by simp [String.append_assoc]⟩⟩

theorem Dotted.of_above (h : Dotted name) (hp : Above p name) : Dotted p := by
  obtain ⟨-, heq | ⟨rest, heq⟩⟩ := aboveChars_toList_iff.mpr hp
  · rwa [String.toList_inj.mp heq] at h
  · unfold Dotted at h
    rw [heq] at h
    exact (dottedChars_append_iff.mp h).1

/-- A name is that of a library that is held back, or below it. -/
def HeldBack (name : String) : Prop := ∃ e ∈ Setup.heldBack, Above e.1 name

instance (name : String) : Decidable (HeldBack name) :=
  inferInstanceAs (Decidable (∃ e ∈ _, _))

end Names

/-! ## §2. Loggers that a table is applied to. -/

namespace Loggers

variable {l : Loggers} {levels : Table String Level} {name k : String} {v : Level}

theorem lookup_setLevel :
    (l.setLevel k v).own.lookup name
      = if name = k ∧ isRootName k = false then some v else l.own.lookup name := by
  unfold setLevel
  cases hk : isRootName k with
  | true => simp
  | false =>
      show (l.own.put k v).lookup name = _
      rw [Table.lookup_put]
      simp

/-- A logger other than the root has the level of the table, if it has one there. -/
theorem lookup_applyAll (h : levels.Distinct) :
    (l.applyAll levels).own.lookup name
      = if isRootName name then l.own.lookup name
        else (levels.lookup name).or (l.own.lookup name) := by
  induction levels generalizing l with
  | nil => simp [applyAll]
  | cons e levels ih =>
      obtain ⟨k, v⟩ := e
      obtain ⟨hk, hrest⟩ := List.nodup_cons.mp h
      show ((l.setLevel k v).applyAll levels).own.lookup name = _
      rw [ih hrest, lookup_setLevel, Table.lookup_entry]
      by_cases hname : name = k
      · -- No later entry is about this logger.
        subst hname
        have hnone : levels.lookup name = none :=
          Table.lookup_eq_none_of_not_has (Table.has_eq_false_iff.mpr hk)
        cases hroot : isRootName name <;> simp [hnone]
      · simp [hname]

/-- The root has the level of the table under its name, if there is one. -/
theorem root_applyAll (h : levels.Distinct) (hempty : levels.lookup "" = none) :
    (l.applyAll levels).root = (levels.lookup "root").getD l.root := by
  induction levels generalizing l with
  | nil => rfl
  | cons e levels ih =>
      obtain ⟨k, v⟩ := e
      obtain ⟨hk, hrest⟩ := List.nodup_cons.mp h
      have hne : ¬ "" = k := by
        rintro rfl
        rw [Table.lookup_entry, if_pos rfl] at hempty
        cases hempty
      rw [Table.lookup_entry, if_neg hne] at hempty
      show ((l.setLevel k v).applyAll levels).root = _
      rw [ih hrest hempty, Table.lookup_entry]
      unfold setLevel
      by_cases hroot : "root" = k
      · subst hroot
        have hnone : levels.lookup "root" = none :=
          Table.lookup_eq_none_of_not_has (Table.has_eq_false_iff.mpr hk)
        rw [hnone, if_pos rfl]
        rfl
      · have hname : isRootName k = false := by
          simp [isRootName, Ne.symm hne, Ne.symm hroot]
        rw [hname, if_neg hroot]
        rfl

theorem proper?_eq_some (h : v.value ≠ 0) : proper? v = some v := if_neg h

end Loggers

/-! ## §3. The loggers of a setup. -/

namespace Setup

variable {setup : Setup} {name p : String} {l : Level}

/-- A table whose entries the loggers of a setup can take: no name twice, and none empty. -/
structure Applicable (t : Thresholds) : Prop where
  distinct : t.levels.Distinct
  named : t.levels.lookup "" = none

theorem ne_of_not_heldBack (h : ¬ HeldBack p) (hp : p ≠ "") : heldBack.lookup p = none := by
  have hne : ∀ e ∈ heldBack, p ≠ e.1 := by
    rintro e he rfl
    exact h ⟨e, he, hp, .inl rfl⟩
  refine Table.lookup_eq_none_of_not_has (Table.has_eq_false_iff.mpr ?_)
  rintro hmem
  obtain ⟨e, he, heq⟩ := List.mem_map.mp hmem
  exact hne e he heq.symm

/-- Away from the libraries that are held back, loggers have the levels of the table. -/
theorem lookup_loggers (ht : Applicable setup.table) (h : ¬ HeldBack p) (hp : p ≠ "") :
    setup.loggers.own.lookup p
      = if p = "root" then none else setup.table.levels.lookup p := by
  have hheld : Table.Distinct heldBack := by decide
  unfold loggers
  rw [Loggers.lookup_applyAll hheld, Loggers.lookup_applyAll ht.distinct,
    ne_of_not_heldBack h hp]
  by_cases hroot : p = "root"
  · subst hroot
    rfl
  · have hname : Loggers.isRootName p = false := by simp [Loggers.isRootName, hp, hroot]
    simp [hname, hroot]

/-- The root has the level of the table under its name, or the level of the setup. -/
theorem root_loggers (ht : Applicable setup.table) :
    setup.loggers.root = (setup.table.levels.lookup "root").getD setup.root := by
  have hheld : Table.Distinct heldBack := by decide
  unfold loggers
  rw [Loggers.root_applyAll hheld rfl, Loggers.root_applyAll ht.distinct ht.named]
  rfl

/-- The first entry of a table along some names. -/
def nearest? (t : Thresholds) (names : List String) : Option Level :=
  names.findSome? fun n => t.levels.lookup n

/-- The first level other than zero along some names, or that of the root. -/
def search (setup : Setup) (names : List String) : Level :=
  (names.findSome? fun n => (setup.loggers.own.lookup n).bind Loggers.proper?).getD
    setup.loggers.root

theorem parentName_root : parentName "root".toList = [] := parentName_of_plain (by decide)

theorem lineage_root : lineage "root" = ["root"] := by
  unfold lineage
  rw [lineageChars, dif_neg (by decide), parentName_root, lineageChars, dif_pos rfl]
  rfl

/-- The level of a logger is found along its lineage. -/
theorem effective_eq_search (ht : Applicable setup.table) (hname : Dotted name)
    (hout : ¬ HeldBack name) : setup.loggers.effective name = setup.search (lineage name) := by
  have hne : name ≠ "" := by
    rintro rfl
    exact hname.ne_nil rfl
  by_cases hroot : name = "root"
  · subst hroot
    have hown := lookup_loggers ht hout hne
    rw [if_pos rfl] at hown
    rw [lineage_root, search, List.findSome?_cons, hown]
    rfl
  · have hisRoot : Loggers.isRootName name = false := by simp [Loggers.isRootName, hne, hroot]
    rw [Loggers.effective, hisRoot, cons_ancestors_eq hname]
    rfl

/-- Along a lineage, loggers come upon the entry that the table comes upon, unless its level
is zero; where the table finds nothing, they are left with the root. -/
theorem search_lineage (ht : Applicable setup.table) (cs : List Char)
    (hout : ∀ p ∈ lineageChars cs, ¬ HeldBack (String.ofList p)) :
    (∀ l, nearest? setup.table ((lineageChars cs).map String.ofList) = some l → l.value ≠ 0 →
      setup.search ((lineageChars cs).map String.ofList) = l) ∧
    (nearest? setup.table ((lineageChars cs).map String.ofList) = none →
      setup.search ((lineageChars cs).map String.ofList) = setup.loggers.root) := by
  fun_induction lineageChars cs with
  | case1 => exact ⟨fun _ hl => (by cases hl), fun _ => rfl⟩
  | case2 cs hcs ih =>
      obtain ⟨hhead, hrest⟩ := List.forall_mem_cons.mp hout
      have hne : String.ofList cs ≠ "" := by simpa using hcs
      have hown := lookup_loggers ht hhead hne
      unfold nearest? search at ih ⊢
      rw [List.map_cons, List.findSome?_cons, List.findSome?_cons, hown]
      by_cases hroot : String.ofList cs = "root"
      · -- Nothing stands above this name, and the root has its entry.
        have hparent : lineageChars (parentName cs) = [] := by
          have hcs : cs = "root".toList := by rw [← hroot, String.toList_ofList]
          rw [hcs, parentName_root, lineageChars, dif_pos rfl]
        rw [if_pos hroot, hparent, root_loggers ht, hroot]
        cases setup.table.levels.lookup "root" with
        | none => exact ⟨fun _ hl => (by cases hl), fun _ => rfl⟩
        | some k =>
            refine ⟨fun l hl _ => ?_, fun hl => by cases hl⟩
            cases hl
            rfl
      · rw [if_neg hroot]
        cases setup.table.levels.lookup (String.ofList cs) with
        | none => exact ih hrest
        | some k =>
            refine ⟨fun l hl hpos => ?_, fun hl => by cases hl⟩
            cases hl
            rw [Option.bind_some, Loggers.proper?_eq_some hpos]
            rfl

theorem not_heldBack_of_mem (hout : ¬ HeldBack name) :
    ∀ p ∈ lineageChars name.toList, ¬ HeldBack (String.ofList p) := by
  rintro p hp ⟨e, he, habove⟩
  have hname : Above (String.ofList p) name := by
    rw [← aboveChars_toList_iff, String.toList_ofList]
    exact (mem_lineageChars_iff p _).mp hp
  exact hout ⟨e, he, habove.trans hname⟩

/-- The nearest entry decides unless its level is zero. -/
theorem effective_of_found (ht : Applicable setup.table) (hname : Dotted name)
    (hout : ¬ HeldBack name)
    (hfound : nearest? setup.table (lineage name) = some l) (hl : l.value ≠ 0) :
    setup.loggers.effective name = l := by
  rw [effective_eq_search ht hname hout]
  exact (search_lineage ht _ (not_heldBack_of_mem hout)).1 l hfound hl

/-- Without an entry the root decides. -/
theorem effective_of_no_entry (ht : Applicable setup.table) (hname : Dotted name)
    (hout : ¬ HeldBack name)
    (hnone : nearest? setup.table (lineage name) = none) :
    setup.loggers.effective name = setup.loggers.root := by
  rw [effective_eq_search ht hname hout]
  exact (search_lineage ht _ (not_heldBack_of_mem hout)).2 hnone

/-! ## §4. Agreement. -/

/-- For a name, the loggers of a setup and its table have the same threshold, and let records
of the same levels pass. -/
def Agrees (setup : Setup) (name : String) : Prop :=
  (setup.loggers.effective name).value = (setup.table.level name).value ∧
  ∀ l, setup.loggers.isEnabled name l = setup.table.isEnabled name l

/-- The root has no entry of its own in a table, or one of the same level. -/
def KeepsRoot (t : Thresholds) (root : Level) : Prop :=
  ∀ l, t.levels.lookup "root" = some l → l.value = root.value

theorem level_eq_entry (t : Thresholds) (name : String) :
    t.level name = (nearest? t (lineage name)).getD t.default := rfl

theorem nearest?_ne_none_iff {t : Thresholds} :
    nearest? t (lineage name) ≠ none ↔ ∃ p, Above p name ∧ t.levels.lookup p ≠ none := by
  unfold nearest?
  rw [ne_eq, List.findSome?_eq_none_iff]
  simp only [mem_lineage_iff, not_forall, exists_prop]

/-- Loggers write no record of level zero, so thresholds have to be the same and above it. -/
theorem agrees_of_value_eq
    (heq : (setup.loggers.effective name).value = (setup.table.level name).value)
    (hpos : 0 < (setup.table.level name).value) : setup.Agrees name := by
  refine ⟨heq, fun l => ?_⟩
  unfold Loggers.isEnabled Thresholds.isEnabled
  rw [heq, Bool.eq_iff_iff, Bool.and_eq_true, decide_eq_true_eq, decide_eq_true_eq]
  omega

theorem level_ne_zero_of_agrees (h : setup.Agrees name) :
    (setup.table.level name).value ≠ 0 := by
  intro hzero
  have hrecord := h.2 (.number 0)
  unfold Loggers.isEnabled Thresholds.isEnabled at hrecord
  rw [hzero] at hrecord
  simp [Level.value] at hrecord

/-- Loggers and table agree where the table's threshold is not zero, and where some entry
decides or nothing is changed about the root. -/
theorem agrees_iff (ht : Applicable setup.table)
    (hlevels : ∀ p l, setup.table.levels.lookup p = some l → 0 ≤ l.value)
    (hdefault : setup.table.default = setup.root) (hroot : 0 < setup.root.value)
    (hname : Dotted name) (hout : ¬ HeldBack name) :
    setup.Agrees name ↔ (setup.table.level name).value ≠ 0 ∧
      (nearest? setup.table (lineage name) ≠ none ∨ KeepsRoot setup.table setup.root) := by
  have hrootLevel : setup.loggers.root.value = setup.root.value ↔
      KeepsRoot setup.table setup.root := by
    rw [root_loggers ht, KeepsRoot]
    cases setup.table.levels.lookup "root" <;> simp
  rw [level_eq_entry]
  cases hentry : nearest? setup.table (lineage name) with
  | none =>
      have heffective := effective_of_no_entry ht hname hout hentry
      have hlevel : setup.table.level name = setup.root := by
        rw [level_eq_entry, hentry, Option.getD_none, hdefault]
      rw [Option.getD_none, hdefault, ← hrootLevel]
      constructor
      · intro h
        refine ⟨Int.ne_of_gt hroot, .inr ?_⟩
        rw [← heffective, h.1, hlevel]
      · rintro ⟨-, hnone | hsame⟩
        · exact absurd rfl hnone
        · refine agrees_of_value_eq ?_ ?_
          · rw [heffective, hsame, hlevel]
          · rw [hlevel]
            exact hroot
  | some l =>
      have hlevel : setup.table.level name = l := by
        rw [level_eq_entry, hentry, Option.getD_some]
      rw [Option.getD_some]
      constructor
      · intro h
        exact ⟨hlevel ▸ level_ne_zero_of_agrees h, .inl nofun⟩
      · rintro ⟨hne, -⟩
        obtain ⟨p, -, hp⟩ := List.exists_of_findSome?_eq_some hentry
        have hnonneg := hlevels p l hp
        refine agrees_of_value_eq ?_ ?_
        · rw [effective_of_found ht hname hout hentry hne, hlevel]
        · rw [hlevel]
          omega

/-! ## §5. Tables of specifications. -/

theorem nonneg_of_named {text : String} (h : Level.Named text l) : 0 ≤ l.value := by
  have hnames : ∀ e ∈ Level.ofNames, 0 ≤ e.2 := by decide
  obtain ⟨n, hmem, rfl⟩ := h
  exact hnames _ hmem

variable {spec : String} {default : Level} {t : Thresholds}

theorem applicable_ofSpec (h : Thresholds.ofSpec spec default = .ok t) : Applicable t := by
  refine ⟨(Thresholds.frame_ofSpec h).2.2, ?_⟩
  cases hempty : t.levels.lookup "" with
  | none => rfl
  | some l =>
      obtain ⟨text, ⟨entry, hassigns, -⟩, -⟩ := (Thresholds.lookup_ofSpec_iff h).mp hempty
      obtain ⟨_, _, -, -, -, hne, -⟩ := hassigns
      exact absurd rfl hne

theorem nonneg_ofSpec (h : Thresholds.ofSpec spec default = .ok t) (p : String) (l : Level)
    (hp : t.levels.lookup p = some l) : 0 ≤ l.value := by
  obtain ⟨text, -, hnamed⟩ := (Thresholds.lookup_ofSpec_iff h).mp hp
  exact nonneg_of_named hnamed

/-- Some dotted name has nothing above it but itself, and is none of these. -/
theorem exists_fresh (names : List String) :
    ∃ name, Dotted name ∧ (∀ p, Above p name → p = name) ∧ name ∉ names := by
  obtain ⟨n, hn⟩ : ∃ n, ∀ k ∈ names, k.length ≤ n := by
    induction names with
    | nil => exact ⟨0, nofun⟩
    | cons k names ih =>
        obtain ⟨n, hn⟩ := ih
        refine ⟨max k.length n, List.forall_mem_cons.mpr ⟨le_max_left _ _, fun j hj => ?_⟩⟩
        exact (hn j hj).trans (le_max_right _ _)
  have hplain : '.' ∉ List.replicate (n + 1) 'a' := by simp
  have hchars : (String.ofList (List.replicate (n + 1) 'a')).toList
      = List.replicate (n + 1) 'a' := String.toList_ofList
  refine ⟨String.ofList (List.replicate (n + 1) 'a'), ?_, ?_, ?_⟩
  · unfold Dotted DottedChars
    rw [hchars, Text.splitOn_of_not_mem hplain]
    simp
  · rintro p hp
    obtain ⟨-, heq | ⟨rest, heq⟩⟩ := aboveChars_toList_iff.mpr hp
    · exact (String.toList_inj.mp heq).symm
    · rw [hchars] at heq
      exact absurd (by simp [heq]) hplain
  · intro hmem
    have hle := hn _ hmem
    rw [← String.length_toList, hchars, List.length_replicate] at hle
    omega

theorem level_of_entry {m : String} (hm : Dotted m) (h : t.levels.lookup m = some l) :
    t.level m = l := by
  rw [level_eq_entry, ← cons_ancestors_eq hm, nearest?, List.findSome?_cons, h]
  rfl

/-- If no entry is zero where records are not held back, no threshold there is. -/
theorem level_ne_zero_of_entries (hdefault : t.default.value ≠ 0)
    (hentries : ∀ m l, Dotted m → ¬ HeldBack m → t.levels.lookup m = some l → l.value ≠ 0)
    (hname : Dotted name) (hout : ¬ HeldBack name) : (t.level name).value ≠ 0 := by
  rw [level_eq_entry]
  cases hentry : nearest? t (lineage name) with
  | none => exact hdefault
  | some l =>
      obtain ⟨p, hp, hl⟩ := List.exists_of_findSome?_eq_some hentry
      have habove := mem_lineage_iff.mp hp
      have hpout : ¬ HeldBack p := fun ⟨e, he, h⟩ => hout ⟨e, he, h.trans habove⟩
      exact hentries p l (hname.of_above habove) hpout hl

/-- No table has entries for all names that are not held back. -/
theorem exists_without_entry (t : Thresholds) :
    ∃ name, Dotted name ∧ ¬ HeldBack name ∧ ¬ ∃ p, Above p name ∧ t.levels.lookup p ≠ none := by
  obtain ⟨name, hname, hself, hfresh⟩ := exists_fresh
    (t.levels.map Prod.fst ++ heldBack.map Prod.fst)
  rw [List.mem_append, not_or] at hfresh
  refine ⟨name, hname, ?_, ?_⟩
  · rintro ⟨e, he, habove⟩
    exact hfresh.2 (List.mem_map.mpr ⟨e, he, hself _ habove⟩)
  · rintro ⟨p, habove, hp⟩
    rw [hself p habove] at hp
    exact hp (Table.lookup_eq_none_of_not_has (Table.has_eq_false_iff.mpr hfresh.1))

/-- Logging is set up with the table of a specification that is read. -/
theorem exists_of_ofSpec {s : Settings} {r : Request} {root : Level} (terminal : Bool)
    (hroot : rootLevel s r.level = .ok root) (hgiven : r.table = none)
    (hspec : Thresholds.ofSpec s.moduleLevels root = .ok t) :
    ∃ setup, Setup.of s terminal r = .ok setup ∧ setup.root = root ∧ setup.table = t := by
  have htable : chooseTable s root none = .ok t := by
    rw [chooseTable, hspec]
    rfl
  unfold Setup.of
  rw [hroot, hgiven]
  show ∃ setup, (chooseTable s root none >>= _) = .ok setup ∧ _
  rw [htable]
  exact ⟨_, rfl, rfl, rfl⟩

/-- **WHERE LOGGERS AND THEIR TABLE AGREE.**  Whatever the root's level, at least one, and
whatever specification is read, logging is set up with its table, and then loggers and table
have the same threshold for a dotted name outside the libraries that are held back, and let
the same records pass, if and only if the table's threshold for it is not zero, and some entry
decides it or no entry gives the root another level.  So they agree on all of these names
exactly if none of them has an entry of level zero, and the root none of another level. -/
theorem applied_law {s : Settings} {r : Request} {root : Level} (terminal : Bool)
    (hroot : rootLevel s r.level = .ok root) (hpos : 1 ≤ root.value) (hgiven : r.table = none)
    (hspec : Thresholds.ofSpec s.moduleLevels root = .ok t) :
    ∃ setup, Setup.of s terminal r = .ok setup ∧ setup.root = root ∧ setup.table = t ∧
      (∀ name, Dotted name → ¬ HeldBack name →
        (setup.Agrees name ↔ (t.level name).value ≠ 0 ∧
          ((∃ p, Above p name ∧ t.levels.lookup p ≠ none) ∨ KeepsRoot t root))) ∧
      ((∀ name, Dotted name → ¬ HeldBack name → setup.Agrees name) ↔
        (∀ m l, Dotted m → ¬ HeldBack m → t.levels.lookup m = some l → l.value ≠ 0) ∧
          KeepsRoot t root) := by
  obtain ⟨setup, hsetup, rfl, rfl⟩ := exists_of_ofSpec terminal hroot hgiven hspec
  have hdefault := (Thresholds.frame_ofSpec hspec).1
  have hagrees : ∀ name, Dotted name → ¬ HeldBack name →
      (setup.Agrees name ↔ (setup.table.level name).value ≠ 0 ∧
        ((∃ p, Above p name ∧ setup.table.levels.lookup p ≠ none) ∨
          KeepsRoot setup.table setup.root)) := by
    intro name hname hout
    rw [← nearest?_ne_none_iff]
    exact agrees_iff (applicable_ofSpec hspec) (nonneg_ofSpec hspec) hdefault (by omega) hname hout
  refine ⟨setup, hsetup, rfl, rfl, hagrees, ?_⟩
  constructor
  · intro hall
    refine ⟨fun m l hm hout hl hzero => ?_, ?_⟩
    · -- The entry of a module is the nearest to the module itself.
      have hlevel := level_of_entry hm hl
      exact level_ne_zero_of_agrees (hall m hm hout) (hlevel ▸ hzero)
    · -- A name that no entry is about falls back to the root.
      obtain ⟨name, hname, hout, hnone⟩ := exists_without_entry setup.table
      exact ((hagrees name hname hout).mp (hall name hname hout)).2.resolve_left hnone
  · rintro ⟨hentries, hkeeps⟩ name hname hout
    have hpos : setup.table.default.value ≠ 0 := by
      rw [hdefault]
      omega
    exact (hagrees name hname hout).mpr
      ⟨level_ne_zero_of_entries hpos hentries hname hout, .inr hkeeps⟩

/-- Settings with thresholds by module. -/
def withModules (spec : String) : Settings := { Settings.default with moduleLevels := spec }

/-- A request for records from INFO on, as objects. -/
def fromInfo : Request :=
  { level := some (.int 20), json := some true, file := none, table := none }

/-- A table with an entry for a library, for a part of it, and for the root. -/
def layered : Thresholds :=
  { default := .info, levels := [("zcapld", .debug), ("zcapld.verifier", .error), ("root", .info)]
    shown := [] }

/-- Below the part its entry decides, and away from both the root does. -/
theorem layered_agrees :
    Thresholds.ofSpec "zcapld=DEBUG,zcapld.verifier=ERROR,root=INFO" .info = .ok layered ∧
    ∃ setup, Setup.of (withModules "zcapld=DEBUG,zcapld.verifier=ERROR,root=INFO") false fromInfo
        = .ok setup ∧
      setup.Agrees "zcapld.verifier.audit" ∧ setup.Agrees "other" := by
  have hspec : Thresholds.ofSpec "zcapld=DEBUG,zcapld.verifier=ERROR,root=INFO" .info
      = .ok layered := by rfl
  have hroot : rootLevel (withModules "zcapld=DEBUG,zcapld.verifier=ERROR,root=INFO") fromInfo.level
      = .ok .info := by rfl
  obtain ⟨setup, hsetup, -, -, -, hall⟩ := applied_law false hroot (by decide) rfl hspec
  have hagrees := hall.mpr ⟨fun m l _ _ hl => ?_, fun l hl => ?_⟩
  · exact ⟨hspec, setup, hsetup, hagrees _ (by decide) (by decide),
      hagrees _ (by decide) (by decide)⟩
  · have hlevels : ∀ e ∈ layered.levels, e.2.value ≠ 0 := by decide
    have hdistinct : layered.levels.Distinct := by decide
    exact hlevels _ (hdistinct.lookup_eq_some_iff.mp hl)
  · cases hl
    rfl

/-- The setup for records from INFO on with one entry in its table. -/
def withEntry (module : String) (level : Level) : Setup :=
  { root := .info, table := { default := .info, levels := [(module, level)], shown := [] }
    console := .json, file := none }

/-- An entry of level zero lets everything pass by the table, but the logger takes the level of
the root.  An entry under the name of the root changes what loggers without one take, but not
what the table says of them. -/
theorem silent_entries_part :
    (Setup.of (withModules "zcapld=NOTSET") false fromInfo = .ok (withEntry "zcapld" (.number 0)) ∧
      (withEntry "zcapld" (.number 0)).table.level "zcapld" = .number 0 ∧
      (withEntry "zcapld" (.number 0)).loggers.effective "zcapld" = .info ∧
      (withEntry "zcapld" (.number 0)).table.isEnabled "zcapld" .debug = true ∧
      (withEntry "zcapld" (.number 0)).loggers.isEnabled "zcapld" .debug = false) ∧
    Setup.of (withModules "root=DEBUG") false fromInfo = .ok (withEntry "root" .debug) ∧
      (withEntry "root" .debug).table.level "zcapld" = .info ∧
      (withEntry "root" .debug).loggers.effective "zcapld" = .debug := by
  refine ⟨⟨by rfl, ?_, ?_, ?_, ?_⟩, by rfl, ?_, ?_⟩ <;> decide +kernel

end Setup

end Mandate.Log
