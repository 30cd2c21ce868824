/-
  Mandate.Proofs.Log.Ancestry
  ────────────────────────────────
  **THE NEAREST ANCESTOR DECIDES.**

  A table of thresholds is asked for a module by going from the name to what stands in front
  of its last dot, and so on.  The names that come up on the way are those that the module
  goes on behind with a dot, whatever else is between the dots, and each is shorter than the
  one before it.

      Above      — a name is the module itself, or the module goes on behind it with a dot
      accepted   — the changes among the calls, that is the calls whose level is one
      LastSet    — the last level that was set for a name
      StillShown — the source was shown for a name and a level, and not hidden since

  Main results:
    * `mem_lineage_iff`       — the names that come up are those above the module;
    * `lookup_after_iff`      — a table holds the level that was set last;
    * `mem_shown_after_iff`   — and shows what was not hidden since it was shown;
    * `level_eq_iff`          — a threshold is that of the longest name above the module;
    * `apply_of_not_above`    — a call for another name changes nothing for the module;
    * `nearest_ancestor_law`  — so what a table says is told by the calls alone.
-/
import Mandate.Log.Thresholds
import Mandate.Proofs.History
import Mandate.Proofs.Success
import Mathlib.Data.List.TakeWhile

namespace Mandate.Log

open Json (Value)

/-! ## §1. Names above a module. -/

/-- A name stands at a module or above it. -/
def Above (p module : String) : Prop :=
  p ≠ "" ∧ (module = p ∨ ∃ rest, module = p ++ "." ++ rest)

/-- `Above`, by the characters of the names. -/
def AboveChars (p cs : List Char) : Prop :=
  p ≠ [] ∧ (cs = p ∨ ∃ rest, cs = p ++ '.' :: rest)

section Chars

variable {p cs front last : List Char}

theorem passes_reverse (h : '.' ∉ last) : ∀ c ∈ last.reverse, (c != '.') = true := by
  intro c hc
  rw [bne_iff_ne]
  intro heq
  exact h (heq ▸ List.mem_reverse.mp hc)

theorem parentName_of_last (h : '.' ∉ last) : parentName (front ++ '.' :: last) = front := by
  unfold parentName
  rw [List.reverse_append, List.reverse_cons, List.append_assoc,
    List.dropWhile_append_of_pos (passes_reverse h)]
  simp

theorem parentName_of_plain (h : '.' ∉ cs) : parentName cs = [] := by
  unfold parentName
  rw [List.dropWhile_eq_nil_iff.mpr (passes_reverse h)]
  rfl

/-- Of the dots in a name, one is the last. -/
theorem exists_last_dot (h : '.' ∈ cs) : ∃ front last, cs = front ++ '.' :: last ∧ '.' ∉ last := by
  induction cs with
  | nil => cases h
  | cons c cs ih =>
      by_cases hcs : '.' ∈ cs
      · obtain ⟨front, last, heq, hlast⟩ := ih hcs
        exact ⟨c :: front, last, by rw [heq]; rfl, hlast⟩
      · have hc : '.' = c := (List.mem_cons.mp h).resolve_right hcs
        exact ⟨[], cs, by rw [hc]; rfl, hcs⟩

/-- Of two cuts of a name at a dot, one at the last dot, the other is the same or comes in
front of it. -/
theorem front_of_last_dot {rest : List Char} (hlast : '.' ∉ last)
    (heq : front ++ '.' :: last = p ++ '.' :: rest) :
    front = p ∨ ∃ more, front = p ++ '.' :: more := by
  rcases List.append_eq_append_iff.mp heq with ⟨more, hmore, htail⟩ | ⟨more, hmore, htail⟩
  · cases more with
    | nil => exact .inl (by simpa using hmore.symm)
    | cons c more =>
        -- A dot further behind would be one in the last part.
        rw [List.cons_append] at htail
        obtain ⟨-, htail⟩ := List.cons.inj htail
        exact absurd (by simp [htail]) hlast
  · cases more with
    | nil => exact .inl (by simpa using hmore)
    | cons c more =>
        obtain ⟨rfl, -⟩ := List.cons.inj htail
        exact .inr ⟨more, hmore⟩

/-- What stands at a name or above it is the name, or stands at what is in front of its last
dot or above that. -/
theorem aboveChars_iff (hcs : cs ≠ []) :
    AboveChars p cs ↔ p = cs ∨ AboveChars p (parentName cs) := by
  by_cases hdot : '.' ∈ cs
  · obtain ⟨front, last, heq, hlast⟩ := exists_last_dot hdot
    subst heq
    rw [parentName_of_last hlast]
    constructor
    · rintro ⟨hp, heq | ⟨rest, heq⟩⟩
      · exact .inl heq.symm
      · exact .inr ⟨hp, front_of_last_dot hlast heq⟩
    · rintro (rfl | ⟨hp, rfl | ⟨rest, rfl⟩⟩)
      · exact ⟨hcs, .inl rfl⟩
      · exact ⟨hp, .inr ⟨last, rfl⟩⟩
      · exact ⟨hp, .inr ⟨rest ++ '.' :: last, by simp⟩⟩
  · rw [parentName_of_plain hdot]
    constructor
    · rintro ⟨-, heq | ⟨rest, rfl⟩⟩
      · exact .inl heq.symm
      · exact absurd (by simp) hdot
    · rintro (rfl | ⟨hp, heq | ⟨rest, heq⟩⟩)
      · exact ⟨hcs, .inl rfl⟩
      · exact absurd heq.symm hp
      · simp at heq

theorem mem_lineageChars_iff (p cs : List Char) : p ∈ lineageChars cs ↔ AboveChars p cs := by
  fun_induction lineageChars cs with
  | case1 =>
      refine iff_of_false List.not_mem_nil ?_
      rintro ⟨hp, heq | ⟨rest, heq⟩⟩
      · exact hp heq.symm
      · simp at heq
  | case2 cs hcs ih => rw [List.mem_cons, ih, aboveChars_iff hcs]

theorem length_le_of_mem_lineageChars (h : p ∈ lineageChars cs) : p.length ≤ cs.length := by
  obtain ⟨-, rfl | ⟨rest, rfl⟩⟩ := (mem_lineageChars_iff p cs).mp h
  · exact Nat.le_refl _
  · simp

/-- The names that come up get shorter and shorter. -/
theorem pairwise_lineageChars (cs : List Char) :
    (lineageChars cs).Pairwise fun p q => q.length < p.length := by
  fun_induction lineageChars cs with
  | case1 => exact .nil
  | case2 cs hcs ih =>
      refine .cons (fun q hq => ?_) ih
      have hle := length_le_of_mem_lineageChars hq
      have hlt := parentName_length_lt hcs
      omega

end Chars

section Names

variable {p q module : String}

theorem aboveChars_toList_iff : AboveChars p.toList module.toList ↔ Above p module := by
  have hne : p.toList ≠ [] ↔ p ≠ "" := by simp
  have hrest : (∃ rest, module.toList = p.toList ++ '.' :: rest) ↔
      ∃ rest, module = p ++ "." ++ rest := by
    constructor
    · rintro ⟨rest, heq⟩
      refine ⟨String.ofList rest, String.toList_inj.mp ?_⟩
      simp [heq]
    · rintro ⟨rest, heq⟩
      exact ⟨rest.toList, by simp [heq]⟩
  unfold AboveChars Above
  rw [hne, hrest, String.toList_inj]

instance : Decidable (Above p module) :=
  decidable_of_iff (p ≠ "" ∧ (module = p ∨ p.toList ++ ['.'] <+: module.toList)) <| by
    refine and_congr_right fun _ => or_congr_right ⟨?_, ?_⟩
    · rintro ⟨rest, heq⟩
      exact ⟨String.ofList rest, String.toList_inj.mp (by simp [← heq])⟩
    · rintro ⟨rest, heq⟩
      exact ⟨rest.toList, by simp [heq]⟩

/-- The names that come up for a module are those above it. -/
theorem mem_lineage_iff : p ∈ lineage module ↔ Above p module := by
  unfold lineage
  rw [← aboveChars_toList_iff, ← mem_lineageChars_iff, List.mem_map]
  constructor
  · rintro ⟨cs, hcs, rfl⟩
    rwa [String.toList_ofList]
  · intro hp
    exact ⟨p.toList, hp, String.ofList_toList⟩

theorem pairwise_lineage (module : String) :
    (lineage module).Pairwise fun p q => q.length < p.length := by
  unfold lineage
  rw [List.pairwise_map]
  refine (pairwise_lineageChars module.toList).imp ?_
  intro p q hlt
  simpa using hlt

/-- What is found first along names that get shorter and shorter is found at the longest of
those where anything is found. -/
theorem findSome?_longest_iff {α : Type} {names : List String} {f : String → Option α} {a : α}
    (hnames : names.Pairwise fun p q => q.length < p.length) :
    names.findSome? f = some a ↔
      ∃ p ∈ names, f p = some a ∧ ∀ q ∈ names, f q ≠ none → q.length ≤ p.length := by
  induction hnames with
  | nil => simp
  | @cons p names hp _ ih =>
      rw [List.findSome?_cons]
      cases hf : f p with
      | none => simp [hf, ih]
      | some b =>
          constructor
          · intro heq
            refine ⟨p, List.mem_cons_self, hf.trans heq, fun q hq _ => ?_⟩
            rcases List.mem_cons.mp hq with rfl | hq
            · exact Nat.le_refl _
            · exact Nat.le_of_lt (hp q hq)
          · rintro ⟨q, hq, hfq, hlong⟩
            -- A name further down is shorter than the first one, which has something too.
            rcases List.mem_cons.mp hq with rfl | hq
            · exact hf.symm.trans hfq
            · have hle := hlong p List.mem_cons_self (by simp [hf])
              have hlt := hp q hq
              omega

end Names

/-! ## §2. Changes of a table. -/

namespace Thresholds

/-- A change of a table. -/
inductive Change (α : Type) where
  | set (module : String) (level : α)
  /-- Show where events of the module and the level came from. -/
  | reveal (module : String) (level : α)
  /-- Show it no more. -/
  | conceal (module : String) (level : α)

namespace Change

/-- The module that is changed. -/
def module {α : Type} : Change α → String
  | .set m _ | .reveal m _ | .conceal m _ => m

/-- A change whose level is given by any value. -/
def read : Change Value → Except Failure (Change Level)
  | .set m v => (Level.read v).map (.set m)
  | .reveal m v => (Level.read v).map (.reveal m)
  | .conceal m v => (Level.read v).map (.conceal m)

/-- The table behind a change. -/
def apply (t : Thresholds) : Change Level → Thresholds
  | .set m l => t.setLevel m l
  | .reveal m l => t.showCaller m l
  | .conceal m l => t.hideCaller m l

/-- The threshold of the module is set. -/
@[simp] def Sets (p : String) : Change Level → Prop
  | .set m _ => m = p
  | _ => False

/-- The source is hidden for the module and a level of this number. -/
@[simp] def Hides (p : String) (n : Int) : Change Level → Prop
  | .conceal m l => m = p ∧ l.value = n
  | _ => False

theorem module_of_read {c : Change Value} {d : Change Level} (h : c.read = .ok d) :
    d.module = c.module := by
  cases c <;>
    (obtain ⟨l, -, rfl⟩ := map_eq_ok_iff.mp h
     rfl)

end Change

/-- The table behind a call.  One whose level is none is refused, and changes nothing. -/
def call (t : Thresholds) (c : Change Value) : Thresholds :=
  match c.read with
  | .ok d => d.apply t
  | .error _ => t

/-- The table behind a list of calls. -/
def after (default : Level) (calls : List (Change Value)) : Thresholds :=
  calls.foldl call (plain default)

/-- The changes among the calls. -/
def accepted (calls : List (Change Value)) : List (Change Level) :=
  calls.filterMap fun c => c.read.toOption

/-- Some level was set for a name. -/
def Configured (calls : List (Change Value)) (p : String) : Prop :=
  ∃ l, .set p l ∈ accepted calls

/-- The last level that was set for a name. -/
def LastSet (calls : List (Change Value)) (p : String) (l : Level) : Prop :=
  Stands (Change.Sets p) (accepted calls) (.set p l)

/-- The source was shown for a name and a level, and not hidden since. -/
def StillShown (calls : List (Change Value)) (p : String) (n : Int) : Prop :=
  ∃ l, l.value = n ∧ Stands (Change.Hides p n) (accepted calls) (.reveal p l)

variable {t : Thresholds} {default l : Level} {calls : List (Change Value)} {c : Change Value}
  {d : Change Level} {changes : List (Change Level)} {p q m : String} {n : Int}

theorem call_of_read (h : c.read = .ok d) (t : Thresholds) : t.call c = d.apply t := by
  unfold call
  rw [h]

theorem call_of_refused {e : Failure} (h : c.read = .error e) (t : Thresholds) : t.call c = t := by
  unfold call
  rw [h]

/-- The table behind a list of calls is that behind the changes among them. -/
theorem after_eq (default : Level) (calls : List (Change Value)) :
    after default calls = (accepted calls).foldl Change.apply (plain default) := by
  unfold after accepted
  rw [List.foldl_filterMap]
  congr 1
  funext t c
  unfold call
  cases c.read <;> rfl

theorem configured_iff : Configured calls p ↔ ∃ l, LastSet calls p l := by
  constructor
  · rintro ⟨l, hl⟩
    obtain ⟨d, hd, hstands⟩ := exists_stands (p := Change.Sets p) ⟨_, hl, rfl⟩
    cases d with
    | set m k =>
        cases hd
        exact ⟨k, hstands⟩
    | reveal m k => cases hd
    | conceal m k => cases hd
  · rintro ⟨l, hl⟩
    exact ⟨l, hl.mem⟩

/-! ## §3. What one change does. -/

theorem default_apply (t : Thresholds) (d : Change Level) : (d.apply t).default = t.default := by
  cases d with
  | set m l => rfl
  | conceal m l => rfl
  | reveal m l =>
      show (t.showCaller m l).default = t.default
      unfold showCaller
      split <;> rfl

/-- Behind a change the level that it sets is the one to be found, and any other is where it
was. -/
theorem lookup_apply_iff :
    (d.apply t).levels.lookup p = some l ↔
      d = .set p l ∨ ¬ d.Sets p ∧ t.levels.lookup p = some l := by
  cases d with
  | set m k =>
      show (t.levels.put m k).lookup p = some l ↔ _
      rw [Table.lookup_put]
      by_cases hm : p = m
      · simp [hm]
      · simp [hm, Ne.symm hm]
  | conceal m k => simp [Change.apply, hideCaller]
  | reveal m k =>
      have hlevels : (t.showCaller m k).levels = t.levels := by
        unfold showCaller
        split <;> rfl
      simp [Change.apply, hlevels]

/-- Behind a change the source is shown for what it shows, and for what was shown unless the
change hides it. -/
theorem mem_shown_apply_iff :
    (p, n) ∈ (d.apply t).shown ↔
      (∃ l, d = .reveal p l ∧ l.value = n) ∨ ¬ d.Hides p n ∧ (p, n) ∈ t.shown := by
  cases d with
  | set m k => simp [Change.apply, setLevel]
  | conceal m k =>
      have hne : ((p, n) != (m, k.value)) = true ↔ ¬ (m = p ∧ k.value = n) := by
        rw [bne_iff_ne, ne_eq, Prod.mk.injEq, eq_comm (a := p), eq_comm (a := n)]
      show (p, n) ∈ t.shown.filter (· != (m, k.value)) ↔ _
      rw [List.mem_filter, hne]
      simp [and_comm]
  | reveal m k =>
      have hreveal : (∃ l, Change.reveal m k = .reveal p l ∧ l.value = n) ↔
          (p, n) = (m, k.value) := by
        rw [Prod.mk.injEq, eq_comm (a := p), eq_comm (a := n)]
        simp [and_assoc]
      show (p, n) ∈ (t.showCaller m k).shown ↔ _
      rw [hreveal]
      unfold showCaller
      split
      next hshown =>
        -- What is shown already is shown no second time.
        have hmem : (m, k.value) ∈ t.shown := List.contains_iff_mem.mp hshown
        simp only [Change.Hides, not_false_iff, true_and, iff_or_self]
        rintro heq
        rwa [heq]
      next => simp [or_comm]

/-! ## §4. What is asked of a table. -/

/-- The threshold of a module is that of the longest name above it that has one, and the
default if none has. -/
theorem level_eq_iff :
    t.level m = l ↔
      (∃ p, Above p m ∧ t.levels.lookup p = some l ∧
        ∀ q, Above q m → t.levels.lookup q ≠ none → q.length ≤ p.length) ∨
      l = t.default ∧ ∀ p, Above p m → t.levels.lookup p = none := by
  have hfound : ∀ k, ((lineage m).findSome? fun p => t.levels.lookup p) = some k ↔
      ∃ p, Above p m ∧ t.levels.lookup p = some k ∧
        ∀ q, Above q m → t.levels.lookup q ≠ none → q.length ≤ p.length := by
    intro k
    simp only [findSome?_longest_iff (pairwise_lineage m), mem_lineage_iff]
  have hnone : ((lineage m).findSome? fun p => t.levels.lookup p) = none ↔
      ∀ p, Above p m → t.levels.lookup p = none := by
    simp only [List.findSome?_eq_none_iff, mem_lineage_iff]
  unfold level
  rw [← hfound, ← hnone]
  cases ((lineage m).findSome? fun p => t.levels.lookup p) with
  | none => simp [eq_comm]
  | some k => simp

/-- The source is shown for a module if it is for some name above it. -/
theorem showsCaller_iff :
    t.showsCaller m l = true ↔ ∃ p, Above p m ∧ (p, l.value) ∈ t.shown := by
  unfold showsCaller
  simp only [List.any_eq_true, List.contains_iff_mem, mem_lineage_iff]

/-- A change for a name that is not above a module changes nothing for the module. -/
theorem apply_of_not_above (h : ¬ Above d.module m) :
    (d.apply t).level m = t.level m ∧ ∀ l, (d.apply t).showsCaller m l = t.showsCaller m l := by
  have hlookup : ∀ p, Above p m → (d.apply t).levels.lookup p = t.levels.lookup p := by
    intro p hp
    have hset : ¬ d.Sets p := by
      intro hsets
      cases d with
      | set m' k => exact h (hsets ▸ hp)
      | reveal m' k => exact hsets
      | conceal m' k => exact hsets
    refine Option.ext fun l => ?_
    rw [lookup_apply_iff, and_iff_right hset, or_iff_right]
    rintro rfl
    exact hset rfl
  have hshown : ∀ p n, Above p m → ((p, n) ∈ (d.apply t).shown ↔ (p, n) ∈ t.shown) := by
    intro p n hp
    have hhide : ¬ d.Hides p n := by
      intro hhides
      cases d with
      | set m' k => exact hhides
      | reveal m' k => exact hhides
      | conceal m' k => exact h (hhides.1 ▸ hp)
    rw [mem_shown_apply_iff, and_iff_right hhide, or_iff_right]
    rintro ⟨l, rfl, -⟩
    exact h hp
  constructor
  · rw [level_eq_iff, default_apply]
    rcases level_eq_iff.mp (rfl : t.level m = _) with ⟨p, hp, hfound, hlong⟩ | ⟨heq, hnone⟩
    · refine .inl ⟨p, hp, (hlookup p hp).trans hfound, fun q hq hne => hlong q hq ?_⟩
      rwa [← hlookup q hq]
    · exact .inr ⟨heq, fun p hp => (hlookup p hp).trans (hnone p hp)⟩
  · intro l
    rw [Bool.eq_iff_iff, showsCaller_iff, showsCaller_iff]
    exact exists_congr fun p => and_congr_right (hshown p l.value)

/-! ## §5. What the calls say. -/

/-- A table holds the level that was set last. -/
theorem lookup_after_iff : (after default calls).levels.lookup p = some l ↔ LastSet calls p l := by
  unfold LastSet
  rw [after_eq]
  induction accepted calls using List.reverseRecOn with
  | nil => exact iff_of_false nofun not_stands_nil
  | append_singleton changes d ih =>
      rw [List.foldl_append, List.foldl_cons, List.foldl_nil, lookup_apply_iff, ih,
        stands_append_singleton, eq_comm]

/-- A table shows what was not hidden since it was shown. -/
theorem mem_shown_after_iff : (p, n) ∈ (after default calls).shown ↔ StillShown calls p n := by
  unfold StillShown
  rw [after_eq]
  induction accepted calls using List.reverseRecOn with
  | nil => exact iff_of_false nofun fun ⟨_, _, h⟩ => not_stands_nil h
  | append_singleton changes d ih =>
      rw [List.foldl_append, List.foldl_cons, List.foldl_nil, mem_shown_apply_iff, ih]
      simp only [stands_append_singleton, and_or_left, exists_or]
      refine or_congr (exists_congr fun l => ?_) ?_
      · rw [and_comm, eq_comm (a := d)]
      · rw [← exists_and_left]
        exact exists_congr fun l => and_left_comm

theorem default_after (default : Level) (calls : List (Change Value)) :
    (after default calls).default = default := by
  rw [after_eq]
  induction accepted calls using List.reverseRecOn with
  | nil => rfl
  | append_singleton changes d ih =>
      rw [List.foldl_append, List.foldl_cons, List.foldl_nil, default_apply, ih]

/-- **THE NEAREST ANCESTOR DECIDES.**  Behind any calls, the threshold of a module is the
level that was last set for the longest name above it that has been configured, and the
default if there is none.  The source is shown for it exactly if it still is for some name
above it.  And one more call for a name that is not above the module changes neither. -/
theorem nearest_ancestor_law (default : Level) (calls : List (Change Value)) (m : String) :
    (∀ l, (after default calls).level m = l ↔
      (∃ p, Above p m ∧ LastSet calls p l ∧
        ∀ q, Above q m → Configured calls q → q.length ≤ p.length) ∨
      l = default ∧ ∀ p, Above p m → ¬ Configured calls p) ∧
    (∀ l, (after default calls).showsCaller m l = true ↔
      ∃ p, Above p m ∧ StillShown calls p l.value) ∧
    ∀ c, ¬ Above c.module m →
      (after default (calls ++ [c])).level m = (after default calls).level m ∧
      ∀ l, (after default (calls ++ [c])).showsCaller m l
        = (after default calls).showsCaller m l := by
  have hfound : ∀ p, (after default calls).levels.lookup p ≠ none ↔ Configured calls p := by
    intro p
    rw [Option.ne_none_iff_exists', configured_iff]
    exact exists_congr fun l => lookup_after_iff
  have hnone : ∀ p, (after default calls).levels.lookup p = none ↔ ¬ Configured calls p := by
    intro p
    rw [← hfound, not_not]
  refine ⟨fun l => ?_, fun l => ?_, fun c hc => ?_⟩
  · simp only [level_eq_iff, lookup_after_iff, hfound, hnone, default_after]
  · simp only [showsCaller_iff, mem_shown_after_iff]
  · have hlast : after default (calls ++ [c]) = (after default calls).call c := by
      unfold after
      rw [List.foldl_append]
      rfl
    rw [hlast]
    cases hread : c.read with
    | error e =>
        rw [call_of_refused hread]
        exact ⟨rfl, fun _ => rfl⟩
    | ok d =>
        rw [call_of_read hread]
        refine apply_of_not_above ?_
        rwa [Change.module_of_read hread]

/-- Calls for a name, for one below it, and for one that goes on with a letter, with a call
in between whose level is none. -/
def nestedCalls : List (Change Value) :=
  [.set "a" (.int 10), .reveal "a" (.bool true), .set "a.b" (.text " Error "),
   .set "a.b" (.text "loud"), .set "ab" (.int 50)]

theorem accepted_nestedCalls :
    accepted nestedCalls = [.set "a" .debug, .reveal "a" (.flag true), .set "a.b" .error,
      .set "ab" .critical] := by
  rfl

/-- Two dots in a row are no hindrance, the refused call does not count, and neither does one
more call for the name that goes on with a letter. -/
theorem error_below_two_dots :
    (after .info nestedCalls).level "a.b..c" = .error ∧
    (after .info nestedCalls).showsCaller "a.b..c" (.number 1) = true ∧
    ¬ Above "ab" "a.b..c" ∧
    (after .info (nestedCalls ++ [.set "ab" (.int 0)])).level "a.b..c" = .error := by
  obtain ⟨hlevel, hshown, hother⟩ := nearest_ancestor_law .info nestedCalls "a.b..c"
  have herror : (after .info nestedCalls).level "a.b..c" = .error := by
    refine (hlevel _).mpr (.inl ⟨"a.b", by decide, ?_, ?_⟩)
    · unfold LastSet
      rw [accepted_nestedCalls]
      exact ⟨[.set "ab" .critical], ⟨[.set "a" .debug, .reveal "a" (.flag true)], rfl⟩, by simp⟩
    · rintro q - ⟨l, hl⟩
      rw [accepted_nestedCalls] at hl
      have hq : q = "a" ∨ q = "a.b" ∨ q = "ab" := by
        simp only [List.mem_cons, Change.set.injEq, List.not_mem_nil, reduceCtorEq] at hl
        tauto
      rcases hq with rfl | rfl | rfl <;> decide
  have hab : ¬ Above "ab" "a.b..c" := by decide
  refine ⟨herror, (hshown _).mpr ⟨"a", by decide, .flag true, rfl, ?_⟩, hab, ?_⟩
  · rw [accepted_nestedCalls]
    exact ⟨[.set "a.b" .error, .set "ab" .critical], ⟨[.set "a" .debug], rfl⟩, by simp⟩
  · exact (hother (.set "ab" (.int 0)) hab).1.trans herror

end Thresholds

end Mandate.Log
