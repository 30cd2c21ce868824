/-
  Mandate.Proofs.Cache.Recency
  ────────────────────────────────
  **THE ORDER OF USE.**

  The entries of a cache stand in the order of their last touch: each key was
  touched behind the last touch of every key in front of it.  So an entry that is
  evicted has as many other keys touched behind it as there is room for, and as
  long as nothing is lost, these are exactly the entries behind it.

      touchedSince k h  — the other keys that were touched behind the last touch
                          of k

  Main results:
    * `ordered_after`     — the entries stand in the order of their last touch;
    * `crowdedOut_after`  — a put that stands has its entry, or was crowded out;
    * `closed_after`      — without losses, whatever was touched behind an entry has
                            an entry itself;
    * `lru_law`           — what a look-up finds, said of the history alone.
-/
import Mandate.Proofs.Cache.Run
import Mathlib.Data.Finset.Card
import Mathlib.Data.List.TakeWhile

namespace Mandate.Cache

variable {κ ν τ : Type}

/-- With room for one at least, what is put stays, whatever is evicted. -/
theorem exists_kept {m : Nat} {others front es : List (Entry κ ν τ)} {new : Entry κ ν τ}
    (hm : 1 ≤ m) (hsplit : others ++ [new] = front ++ es) (hfull : front ≠ [] → es.length = m) :
    ∃ back, others = front ++ back ∧ es = back ++ [new] := by
  rcases es.eq_nil_or_concat with rfl | ⟨back, last, rfl⟩
  · rw [List.append_nil] at hsplit
    have hfront : front ≠ [] := by
      rw [← hsplit]
      simp
    have hzero := hfull hfront
    rw [List.length_nil] at hzero
    omega
  · rw [List.concat_eq_append, ← List.append_assoc] at hsplit
    obtain ⟨hothers, hlast⟩ := List.append_inj' hsplit rfl
    cases hlast
    exact ⟨back, hothers, List.concat_eq_append⟩

variable [DecidableEq κ]

/-! ## §1. Touched since. -/

/-- The keys that were touched, in their order. -/
def touched (h : List (Event κ ν τ)) : List κ := h.filterMap Event.touched?

/-- The keys other than this one that have been touched since its last touch. -/
def touchedSince (k : κ) (h : List (Event κ ν τ)) : Finset κ :=
  ((touched h).reverse.takeWhile fun key => key ≠ k).toFinset

section TouchedSince

variable {h : List (Event κ ν τ)} {x : Event κ ν τ} {k key : κ}

theorem touchedSince_of_untouched (hx : x.touched? = none) :
    touchedSince k (h ++ [x]) = touchedSince k h := by
  simp [touchedSince, touched, hx]

theorem touchedSince_of_self (hx : x.touched? = some k) : touchedSince k (h ++ [x]) = ∅ := by
  simp [touchedSince, touched, hx]

theorem touchedSince_of_other (hx : x.touched? = some key) (hne : key ≠ k) :
    touchedSince k (h ++ [x]) = insert key (touchedSince k h) := by
  simp [touchedSince, touched, hx, hne]

theorem not_mem_touchedSince (k : κ) (h : List (Event κ ν τ)) : k ∉ touchedSince k h := by
  intro hk
  have hne := List.mem_takeWhile_imp (List.mem_toFinset.mp hk)
  simp at hne

/-- Of two keys, only one was touched behind the last touch of the other. -/
theorem touchedSince_asymm {a b : κ} (hab : a ∈ touchedSince b h) : b ∉ touchedSince a h := by
  induction h using List.reverseRecOn with
  | nil => simp [touchedSince, touched] at hab
  | append_singleton h x ih =>
      cases hx : x.touched? with
      | none =>
          rw [touchedSince_of_untouched hx] at hab ⊢
          exact ih hab
      | some key =>
          by_cases hb : key = b
          · rw [hb] at hx
            rw [touchedSince_of_self hx] at hab
            exact absurd hab (Finset.notMem_empty a)
          · by_cases ha : key = a
            · rw [ha] at hx
              rw [touchedSince_of_self hx]
              exact Finset.notMem_empty b
            · rw [touchedSince_of_other hx hb, Finset.mem_insert] at hab
              rw [touchedSince_of_other hx ha, Finset.mem_insert, not_or]
              exact ⟨Ne.symm hb, ih (hab.resolve_left (Ne.symm ha))⟩

/-- A touch of another key takes nothing away. -/
theorem subset_touchedSince (hx : x.touched? ≠ some k) :
    touchedSince k h ⊆ touchedSince k (h ++ [x]) := by
  cases hkey : x.touched? with
  | none => rw [touchedSince_of_untouched hkey]
  | some key =>
      have hne : key ≠ k := by
        rintro rfl
        exact hx hkey
      rw [touchedSince_of_other hkey hne]
      exact Finset.subset_insert key _

end TouchedSince

/-! ## §2. The order of the entries. -/

/-- Each entry was touched behind the last touch of every entry in front of it. -/
def Ordered (h : List (Event κ ν τ)) (es : List (Entry κ ν τ)) : Prop :=
  es.Pairwise fun a b => b.key ∈ touchedSince a.key h

section Ordered

variable {h : List (Event κ ν τ)} {x : Event κ ν τ} {c : Cache κ ν τ}
  {es front back : List (Entry κ ν τ)} {e e' : Entry κ ν τ}

theorem Ordered.sublist (ho : Ordered h es) {some : List (Entry κ ν τ)}
    (hs : some.Sublist es) : Ordered h some :=
  List.Pairwise.sublist hs ho

theorem Ordered.others (ho : Ordered h c.entries) (k : κ) : Ordered h (c.others k) :=
  ho.sublist List.filter_sublist

/-- A use that touches no key leaves the order. -/
theorem Ordered.untouched (ho : Ordered h es) (hx : x.touched? = none) :
    Ordered (h ++ [x]) es := by
  refine ho.imp ?_
  intro a b hab
  rwa [touchedSince_of_untouched hx]

/-- What is touched goes to the end. -/
theorem Ordered.touch (ho : Ordered h es) (hx : x.touched? = some e.key)
    (hother : ∀ a ∈ es, a.key ≠ e.key) : Ordered (h ++ [x]) (es ++ [e]) := by
  refine List.pairwise_append.mpr ⟨?_, List.pairwise_singleton _ _, ?_⟩
  · refine List.Pairwise.imp_of_mem ?_ ho
    intro a b ha _ hab
    rw [touchedSince_of_other hx (hother a ha).symm]
    exact Finset.mem_insert_of_mem hab
  · intro a ha b hb
    rw [List.mem_singleton.mp hb, touchedSince_of_other hx (hother a ha).symm]
    exact Finset.mem_insert_self _ _

theorem Ordered.nodup (ho : Ordered h es) : (es.map (·.key)).Nodup := by
  refine List.pairwise_map.mpr (ho.imp ?_)
  intro a b hab heq
  rw [← heq] at hab
  exact not_mem_touchedSince _ _ hab

/-- Whatever stands behind an entry has been touched since. -/
theorem Ordered.mem_of_behind (ho : Ordered h (front ++ back)) (he : e ∈ front)
    (he' : e' ∈ back) : e'.key ∈ touchedSince e.key h :=
  (List.pairwise_append.mp ho).2.2 e he e' he'

/-- So there are as many touched keys as entries behind. -/
theorem Ordered.length_le_card (ho : Ordered h (front ++ back)) (he : e ∈ front) :
    back.length ≤ (touchedSince e.key h).card := by
  have hnodup : (back.map (·.key)).Nodup := (ho.sublist (List.sublist_append_right _ _)).nodup
  have hsubset : (back.map (·.key)).toFinset ⊆ touchedSince e.key h := by
    intro k hk
    obtain ⟨e', he', rfl⟩ := List.mem_map.mp (List.mem_toFinset.mp hk)
    exact ho.mem_of_behind he he'
  calc back.length = (back.map (·.key)).toFinset.card := by
        rw [List.toFinset_card_of_nodup hnodup, List.length_map]
    _ ≤ (touchedSince e.key h).card := Finset.card_le_card hsubset

end Ordered

theorem others_ne (c : Cache κ ν τ) (k : κ) : ∀ a ∈ c.others k, a.key ≠ k :=
  fun _ ha => (mem_others.mp ha).2

/-- Whatever was touched since the last touch of an entry has an entry itself. -/
def Closed (h : List (Event κ ν τ)) (es : List (Entry κ ν τ)) : Prop :=
  ∀ e ∈ es, ∀ k ∈ touchedSince e.key h, ∃ e' ∈ es, e'.key = k

/-- Where the entries are closed, what was touched since the last touch of an entry
are other entries. -/
theorem Closed.card_lt {h : List (Event κ ν τ)} {es : List (Entry κ ν τ)} {e : Entry κ ν τ}
    (hcl : Closed h es) (he : e ∈ es) :
    (touchedSince e.key h).card < es.length := by
  have hsubset : touchedSince e.key h ⊆ (es.map (·.key)).toFinset.erase e.key := by
    intro k hk
    obtain ⟨e', he', rfl⟩ := hcl e he k hk
    refine Finset.mem_erase.mpr ⟨?_, List.mem_toFinset.mpr (List.mem_map_of_mem he')⟩
    intro heq
    rw [heq] at hk
    exact not_mem_touchedSince _ _ hk
  have hmem : e.key ∈ (es.map (·.key)).toFinset :=
    List.mem_toFinset.mpr (List.mem_map_of_mem he)
  calc (touchedSince e.key h).card ≤ ((es.map (·.key)).toFinset.erase e.key).card :=
        Finset.card_le_card hsubset
    _ < (es.map (·.key)).toFinset.card := Finset.card_erase_lt_of_mem hmem
    _ ≤ (es.map (·.key)).length := List.toFinset_card_le _
    _ = es.length := List.length_map _

section Changes

variable [Sub τ] [LE τ] [DecidableLE τ] {h : List (Event κ ν τ)} {x : Event κ ν τ} {c : Cache κ ν τ}
  {es : List (Entry κ ν τ)}

theorem Ordered.of_change (ho : Ordered h c.entries) (hchange : c.Change x es) :
    Ordered (h ++ [x]) es := by
  cases hchange with
  | stored k v now front es hsplit _ _ =>
      have hall : Ordered (h ++ [.stored k v now]) (c.others k ++ [⟨k, v, now⟩]) :=
        (ho.others k).touch rfl (others_ne c k)
      rw [hsplit] at hall
      exact hall.sublist (List.sublist_append_right _ _)
  | hit e now hmem _ => exact (ho.others e.key).touch rfl (others_ne c e.key)
  | expired e now _ _ => exact (ho.others e.key).untouched rfl
  | absent k now _ => exact ho.untouched rfl
  | invalidated k => exact (ho.others k).untouched rfl
  | cleared => exact List.Pairwise.nil

/-- **THE ORDER OF USE.** -/
theorem ordered_after (hc : c.entries = []) (us : List (Use κ ν τ)) :
    Ordered (c.history us) (c.after us).entries := by
  induction us using List.reverseRecOn with
  | nil =>
      show Ordered [] c.entries
      rw [hc]
      exact List.Pairwise.nil
  | append_singleton us u ih =>
      rw [history_append_singleton, after_append_singleton]
      exact ih.of_change (change_apply _ u)

/-- A cache takes one entry at a time, and evicts what is too much at once. -/
theorem length_le_of_change (hb : c.entries.length ≤ c.capacity) (hchange : c.Change x es) :
    es.length ≤ c.capacity := by
  have hothers : ∀ k, (c.others k).length ≤ c.entries.length := fun _ => List.length_filter_le _ _
  cases hchange with
  | stored k v now front es _ hbounded _ => exact hbounded
  | hit e now hmem _ =>
      have hlt : (c.others e.key).length < c.entries.length :=
        List.length_filter_lt_length_iff_exists.mpr ⟨e, hmem, by simp⟩
      rw [List.length_append, List.length_singleton]
      omega
  | expired e now _ _ => exact (hothers e.key).trans hb
  | absent k now _ => exact hb
  | invalidated k => exact (hothers k).trans hb
  | cleared => exact Nat.zero_le _

theorem length_after_le (hc : c.entries = []) (us : List (Use κ ν τ)) :
    (c.after us).entries.length ≤ c.capacity := by
  induction us using List.reverseRecOn with
  | nil =>
      show c.entries.length ≤ c.capacity
      rw [hc]
      exact Nat.zero_le _
  | append_singleton us u ih =>
      have hstep := length_le_of_change (by rwa [capacity_after]) (change_apply (c.after us) u)
      rwa [capacity_after, ← after_append_singleton] at hstep

/-! ## §3. What is crowded out. -/

/-- A put that stands has its entry, unless as many other keys as there is room for
have been touched since the last touch of its key. -/
def CrowdedOut (m : Nat) (h : List (Event κ ν τ)) (es : List (Entry κ ν τ)) : Prop :=
  ∀ k v t, Stands (Event.Overrides k) h (.stored k v t) →
    (∃ e ∈ es, e.key = k) ∨ m ≤ (touchedSince k h).card

theorem CrowdedOut.of_change (hcr : CrowdedOut c.capacity h c.entries)
    (ho : Ordered h c.entries) (hm : 1 ≤ c.capacity) (hchange : c.Change x es) :
    CrowdedOut c.capacity (h ++ [x]) es := by
  intro j v t hstands
  -- Where a put of the key stood before, its entry or the crowd is still there.
  have hold : Stands (Event.Overrides j) h (.stored j v t) → x.touched? ≠ some j →
      (∀ e ∈ c.entries, e.key = j → ∃ e ∈ es, e.key = j) →
      (∃ e ∈ es, e.key = j) ∨ c.capacity ≤ (touchedSince j (h ++ [x])).card := by
    intro hbefore hx hkept
    rcases hcr j v t hbefore with ⟨e, he, hkey⟩ | hcard
    · exact .inl (hkept e he hkey)
    · exact .inr (hcard.trans (Finset.card_le_card (subset_touchedSince hx)))
  have hothers : ∀ {k}, j ≠ k → ∀ e ∈ c.entries, e.key = j → e ∈ c.others k := by
    intro k hjk e he hkey
    exact mem_others.mpr ⟨he, by rwa [hkey]⟩
  rcases stands_append_singleton.mp hstands with heq | ⟨hover, hbefore⟩
  · subst heq
    cases hchange with
    | stored _ _ _ front es hsplit _ hfull =>
        obtain ⟨back, -, rfl⟩ := exists_kept hm hsplit hfull
        exact .inl ⟨⟨j, v, t⟩, by simp, rfl⟩
  · cases hchange with
    | stored k w now front es hsplit _ hfull =>
        have hjk : j ≠ k := by
          rintro rfl
          exact hover (.inl rfl)
        have hx : (.stored k w now : Event κ ν τ).touched? ≠ some j := by
          simpa [Event.touched?] using hjk.symm
        by_cases hentry : ∃ e ∈ es, e.key = j
        · exact .inl hentry
        · rcases hcr j v t hbefore with ⟨e, he, hkey⟩ | hcard
          · -- The entry was there and has gone, so it stood in front of those that
            -- are left, and these are as many as there is room for.
            have hall : Ordered (h ++ [.stored k w now]) (c.others k ++ [⟨k, w, now⟩]) :=
              (ho.others k).touch rfl (others_ne c k)
            have he' : e ∈ c.others k ++ [⟨k, w, now⟩] :=
              List.mem_append_left _ (hothers hjk e he hkey)
            rw [hsplit] at hall he'
            have hfront : e ∈ front :=
              (List.mem_append.mp he').resolve_right fun hback => hentry ⟨e, hback, hkey⟩
            have hcard := hall.length_le_card hfront
            rw [hkey, hfull (List.ne_nil_of_mem hfront)] at hcard
            exact .inr hcard
          · exact .inr (hcard.trans (Finset.card_le_card (subset_touchedSince hx)))
    | hit e now hmem _ =>
        by_cases hj : e.key = j
        · exact .inl ⟨e, by simp, hj⟩
        · refine hold hbefore (by simpa [Event.touched?] using hj) fun a ha hkey => ?_
          exact ⟨a, List.mem_append_left _ (hothers (Ne.symm hj) a ha hkey), hkey⟩
    | expired e now _ _ =>
        have hj : j ≠ e.key := by
          rintro rfl
          exact hover (.inr rfl)
        exact hold hbefore nofun fun a ha hkey => ⟨a, hothers hj a ha hkey, hkey⟩
    | absent k now _ => exact hold hbefore nofun fun a ha hkey => ⟨a, ha, hkey⟩
    | invalidated k =>
        have hj : j ≠ k := by
          rintro rfl
          exact hover (.inr rfl)
        exact hold hbefore nofun fun a ha hkey => ⟨a, hothers hj a ha hkey, hkey⟩
    | cleared => exact absurd (.inr trivial) hover

/-- **WHO HAS TO GO.**  Behind every run, a put that stands has its entry, or it was
crowded out. -/
theorem crowdedOut_after (hc : c.entries = []) (hm : 1 ≤ c.capacity)
    (us : List (Use κ ν τ)) :
    CrowdedOut c.capacity (c.history us) (c.after us).entries := by
  induction us using List.reverseRecOn with
  | nil => exact fun k v t hs => absurd hs not_stands_nil
  | append_singleton us u ih =>
      have hstep := CrowdedOut.of_change (by rw [capacity_after]; exact ih)
        (ordered_after hc us) (by rwa [capacity_after]) (change_apply (c.after us) u)
      rw [history_append_singleton, after_append_singleton]
      rwa [capacity_after] at hstep

/-! ## §4. Runs without losses. -/

theorem Closed.of_change (hcl : Closed h c.entries) (ho : Ordered h c.entries)
    (hm : 1 ≤ c.capacity) (hchange : c.Change x es) (hx : ∀ k, ¬ x.Drops k) :
    Closed (h ++ [x]) es := by
  cases hchange with
  | stored k v now front es hsplit _ hfull =>
      obtain ⟨back, hothers, rfl⟩ := exists_kept hm hsplit hfull
      intro e he j hj
      by_cases hk : e.key = k
      · rw [touchedSince_of_self (by simp [Event.touched?, hk])] at hj
        exact absurd hj (Finset.notMem_empty j)
      · have hback : e ∈ back := by
          refine (List.mem_append.mp he).resolve_right fun hnew => hk ?_
          rw [List.mem_singleton.mp hnew]
        have hmem : e ∈ c.others k := by
          rw [hothers]
          exact List.mem_append_right _ hback
        by_cases hjk : j = k
        · exact ⟨⟨k, v, now⟩, by simp, hjk.symm⟩
        · have hold := hj
          rw [touchedSince_of_other (by simp [Event.touched?]) (Ne.symm hk)] at hold
          obtain ⟨e', hmem', rfl⟩ := hcl e (mem_others.mp hmem).1 j
            ((Finset.mem_insert.mp hold).resolve_left hjk)
          have hkept : e' ∈ front ++ back := by
            rw [← hothers]
            exact mem_others.mpr ⟨hmem', hjk⟩
          rcases List.mem_append.mp hkept with hfront | hkept
          · -- An evicted entry stood in front of this one, so it cannot have been
            -- touched behind it.
            have hall : Ordered (h ++ [.stored k v now]) (c.others k ++ [⟨k, v, now⟩]) :=
              (ho.others k).touch rfl (others_ne c k)
            have hmoved := hall.sublist (List.sublist_append_left _ _)
            rw [hothers] at hmoved
            exact absurd hj (touchedSince_asymm (hmoved.mem_of_behind hfront hback))
          · exact ⟨e', List.mem_append_left _ hkept, rfl⟩
  | hit entry now hmem _ =>
      intro e he j hj
      by_cases hk : e.key = entry.key
      · rw [touchedSince_of_self (by simp [Event.touched?, hk])] at hj
        exact absurd hj (Finset.notMem_empty j)
      · rw [touchedSince_of_other (by simp [Event.touched?]) (Ne.symm hk)] at hj
        by_cases hjk : j = entry.key
        · exact ⟨entry, by simp, hjk.symm⟩
        · have hback : e ∈ c.others entry.key :=
            (List.mem_append.mp he).resolve_right fun hnew => hk (by
              rw [List.mem_singleton.mp hnew])
          obtain ⟨e', hmem', rfl⟩ := hcl e (mem_others.mp hback).1 j
            ((Finset.mem_insert.mp hj).resolve_left hjk)
          exact ⟨e', List.mem_append_left _ (mem_others.mpr ⟨hmem', hjk⟩), rfl⟩
  | expired e now _ _ => exact absurd rfl (hx e.key)
  | absent k now _ =>
      intro e he j hj
      rw [touchedSince_of_untouched rfl] at hj
      exact hcl e he j hj
  | invalidated k => exact absurd rfl (hx k)
  | cleared => exact nofun

/-- Without losses, the entries are closed under what was touched since. -/
theorem closed_after (hc : c.entries = []) (hm : 1 ≤ c.capacity) (us : List (Use κ ν τ))
    (hkeep : ∀ x ∈ c.history us, ∀ k, ¬ x.Drops k) :
    Closed (c.history us) (c.after us).entries := by
  induction us using List.reverseRecOn with
  | nil =>
      show Closed [] c.entries
      rw [hc]
      exact nofun
  | append_singleton us u ih =>
      rw [history_append_singleton] at hkeep ⊢
      rw [after_append_singleton]
      exact (ih fun x hx => hkeep x (List.mem_append_left _ hx)).of_change (ordered_after hc us)
        (by rwa [capacity_after]) (change_apply _ u)
        (hkeep _ (List.mem_append_right _ (List.mem_singleton_self _)))

end Changes

/-! ## §5. What a look-up finds. -/

section Lookup

variable [Sub τ] [LinearOrder τ] {c : Cache κ ν τ} {m : Nat} {ttl : Option τ}

/-- A look-up that hits finds a put that stands, and of less than the lifetime. -/
theorem stands_of_hit (hc : empty? (m : Int) ttl = some c) (us : List (Use κ ν τ)) {now : τ}
    {k : κ} {v : ν} (hget : ((c.after us).get now k).1 = some v) :
    ∃ t, Stands (Event.Overrides k) (c.history us) (.stored k v t) ∧
      ∀ life, ttl = some life → now - t < life := by
  obtain ⟨-, -, hlife, hempty⟩ := empty?_eq_some hc
  obtain ⟨e, hmem, rfl, rfl, hlive⟩ := exists_entry_of_hit hget
  rw [expired_eq_false_iff, lifetime_after, hlife] at hlive
  exact ⟨e.storedAt, remembers_after hempty us e hmem, hlive⟩

/-- A look-up that misses finds a key that was never put, or whose last put was
discarded, had reached the lifetime, or was crowded out. -/
theorem miss_cases (hc : empty? (m : Int) ttl = some c) (us : List (Use κ ν τ)) {now : τ}
    {k : κ} (hget : ((c.after us).get now k).1 = none) :
    (∀ x ∈ c.history us, ¬ x.Stores k) ∨
      ∃ v t since, Followed (c.history us) (.stored k v t) since ∧
        (∀ x ∈ since, ¬ x.Stores k) ∧
        ((∃ x ∈ since, x.Discards k) ∨
          (∃ now' life, .expired k now' ∈ since ++ [(c.after us).event (.get now k)] ∧
            ttl = some life ∧ life ≤ now' - t) ∨
          m ≤ (touchedSince k (c.history us)).card) := by
  obtain ⟨hm, hcap, hlife, hempty⟩ := empty?_eq_some hc
  by_cases hput : ∃ x ∈ c.history us, x.Stores k
  · obtain ⟨x, hx, since, hf, hlast⟩ := exists_stands hput
    obtain ⟨v, t, rfl⟩ := Event.exists_eq_stored hx
    refine .inr ⟨v, t, since, hf, hlast, ?_⟩
    -- The run that ends with this very look-up says what any expiry had reached.
    have hend : Followed (c.history (us ++ [.get now k])) (.stored k v t)
        (since ++ [(c.after us).event (.get now k)]) := by
      rw [history_append_singleton]
      exact followed_append_singleton.mpr (.inr ⟨since, rfl, hf⟩)
    have hmiss := get_eq_none_iff.mp hget
    have hlast' : ∀ x ∈ since ++ [(c.after us).event (.get now k)], ¬ x.Stores k := by
      intro x hx
      rcases List.mem_append.mp hx with hx | hx
      · exact hlast x hx
      · rw [List.mem_singleton.mp hx]
        rcases hmiss with hmiss | hmiss <;> simp [hmiss]
    have haged : ∀ now', .expired k now' ∈ since ++ [(c.after us).event (.get now k)] →
        ∃ life, ttl = some life ∧ life ≤ now' - t := by
      intro now' hmem
      rw [← hlife]
      exact aged_after hempty (us ++ [.get now k]) k v t _ now' hend hlast' hmem
    by_cases hdrop : ∃ x ∈ since, x.Drops k
    · obtain ⟨x, hx, hdrops⟩ := hdrop
      rcases Event.drops_iff.mp hdrops with hdiscards | ⟨now', rfl⟩
      · exact .inl ⟨x, hx, hdiscards⟩
      · obtain ⟨life, hl, hle⟩ := haged now' (List.mem_append_left _ hx)
        exact .inr (.inl ⟨now', life, List.mem_append_left _ hx, hl, hle⟩)
    · have hstands : Stands (Event.Overrides k) (c.history us) (.stored k v t) :=
        ⟨since, hf, fun x hx hover => hover.elim (hlast x hx) fun hd => hdrop ⟨x, hx, hd⟩⟩
      have hcrowded := crowdedOut_after hempty (by omega) us k v t hstands
      rw [hcap] at hcrowded
      rcases hcrowded with ⟨e, he, hkey⟩ | hcard
      · -- The entry is there, so this look-up found it too old.
        rcases hmiss with habsent | hexpired
        · exact absurd hkey (key_ne_of_absent habsent e he)
        · have hmem : (.expired k now : Event κ ν τ) ∈
              since ++ [(c.after us).event (.get now k)] := by
            simp [hexpired]
          obtain ⟨life, hl, hle⟩ := haged now hmem
          exact .inr (.inl ⟨now, life, hmem, hl, hle⟩)
      · exact .inr (.inr hcard)
  · exact .inl fun x hx hs => hput ⟨x, hx, hs⟩

/-- Without losses, exactly the keys are found that were put and that no more other
keys were touched since than there is room for besides. -/
theorem hit_iff_of_no_loss (hc : empty? (m : Int) ttl = some c) (us : List (Use κ ν τ)) {now : τ}
    {k : κ} (hkeep : ∀ x ∈ c.history (us ++ [.get now k]), ∀ j, ¬ x.Drops j) :
    (∃ v, ((c.after us).get now k).1 = some v) ↔
      (∃ x ∈ c.history us, x.Stores k) ∧ (touchedSince k (c.history us)).card < m := by
  obtain ⟨hm, hcap, -, hempty⟩ := empty?_eq_some hc
  rw [history_append_singleton] at hkeep
  have hkeep' : ∀ x ∈ c.history us, ∀ j, ¬ x.Drops j :=
    fun x hx => hkeep x (List.mem_append_left _ hx)
  constructor
  · rintro ⟨v, hget⟩
    obtain ⟨t, hstands, -⟩ := stands_of_hit hc us hget
    refine ⟨⟨_, hstands.mem, rfl⟩, ?_⟩
    obtain ⟨e, hmem, rfl, -, -⟩ := exists_entry_of_hit hget
    have hlt := (closed_after hempty (by omega) us hkeep').card_lt hmem
    have hle := length_after_le hempty us
    omega
  · rintro ⟨hput, hcard⟩
    cases hget : ((c.after us).get now k).1 with
    | some v => exact ⟨v, rfl⟩
    | none =>
        rcases miss_cases hc us hget with hnever | ⟨v, t, since, hf, -, hlost⟩
        · obtain ⟨x, hx, hstores⟩ := hput
          exact absurd hstores (hnever x hx)
        · have hsince : ∀ x ∈ since, x ∈ c.history us := by
            obtain ⟨before, heq⟩ := hf
            intro x hx
            rw [heq]
            simp [hx]
          rcases hlost with ⟨x, hx, hdiscards⟩ | ⟨now', life, hexpired, -, -⟩ | hcrowd
          · exact absurd (Event.drops_iff.mpr (.inl hdiscards)) (hkeep' x (hsince x hx) k)
          · have hmem : (.expired k now' : Event κ ν τ) ∈
                c.history us ++ [(c.after us).event (.get now k)] := by
              rcases List.mem_append.mp hexpired with hin | hin
              · exact List.mem_append_left _ (hsince _ hin)
              · exact List.mem_append_right _ hin
            exact absurd rfl (hkeep _ hmem k)
          · omega

/-- **WHAT A LOOK-UP FINDS.**  A cache can be made with room for any `m` entries, one at
least.  Behind every run of it:  a look-up that hits finds the value of the last put
under its key, which nothing has discarded since and which is of less than the
lifetime;  one that misses finds a key that was never put, or whose last put was
discarded since, or had reached the lifetime at some look-up since, this one or an
earlier one, or since whose last touch `m` other keys have been touched;  and as long as
nothing is discarded and nothing expires, those keys are found that were put and since
whose last touch fewer than `m` others have been touched. -/
theorem lru_law (hm : 1 ≤ m) (ttl : Option τ) :
    ∃ c : Cache κ ν τ, empty? (m : Int) ttl = some c ∧
      ∀ (us : List (Use κ ν τ)) (now : τ) (k : κ),
        (∀ v, ((c.after us).get now k).1 = some v →
          ∃ t, Stands (Event.Overrides k) (c.history us) (.stored k v t) ∧
            ∀ life, ttl = some life → now - t < life) ∧
        (((c.after us).get now k).1 = none →
          (∀ x ∈ c.history us, ¬ x.Stores k) ∨
          ∃ v t since, Followed (c.history us) (.stored k v t) since ∧
            (∀ x ∈ since, ¬ x.Stores k) ∧
            ((∃ x ∈ since, x.Discards k) ∨
              (∃ now' life, .expired k now' ∈ since ++ [(c.after us).event (.get now k)] ∧
                ttl = some life ∧ life ≤ now' - t) ∨
              m ≤ (touchedSince k (c.history us)).card)) ∧
        ((∀ x ∈ c.history (us ++ [.get now k]), ∀ j, ¬ x.Drops j) →
          ((∃ v, ((c.after us).get now k).1 = some v) ↔
            (∃ x ∈ c.history us, x.Stores k) ∧ (touchedSince k (c.history us)).card < m)) := by
  obtain ⟨c, hc⟩ := exists_empty? (κ := κ) (ν := ν) hm ttl
  refine ⟨c, hc, fun us now k => ⟨fun v hget => ?_, fun hget => ?_, fun hkeep => ?_⟩⟩
  · exact stands_of_hit hc us hget
  · exact miss_cases hc us hget
  · exact hit_iff_of_no_loss hc us hkeep

end Lookup

/-- A fresh cache with room for two entries, which live for ten units of time. -/
def roomForTwo : Cache String Nat Int :=
  { capacity := 2, lifetime := some 10, entries := [], hits := 0, misses := 0, evictions := 0 }

/-- Three keys are put, and the first is looked up before the third comes. -/
def threeKeys : List (Use String Nat Int) :=
  [.put 0 "first" 1, .put 1 "second" 2, .get 2 "first", .put 3 "third" 3]

/-- The third key takes the place of the second, which is the one not looked up. -/
theorem second_of_three_goes :
    1 ≤ 2 ∧ empty? (2 : Nat) (some 10) = some roomForTwo ∧
    (∃ v, ((roomForTwo.after threeKeys).get 4 "first").1 = some v) ∧
    ¬ ∃ v, ((roomForTwo.after threeKeys).get 4 "second").1 = some v := by
  have hm : 1 ≤ 2 := by decide
  obtain ⟨c, hc, hlaw⟩ := lru_law (κ := String) (ν := Nat) hm (some (10 : Int))
  obtain rfl : roomForTwo = c := Option.some.inj hc
  have hfirst : ∀ x ∈ roomForTwo.history (threeKeys ++ [.get 4 "first"]), ∀ j, ¬ x.Drops j := by
    rw [show roomForTwo.history (threeKeys ++ [.get 4 "first"]) =
      [.stored "first" 1 0, .stored "second" 2 1, .hit "first" 1 2, .stored "third" 3 3,
        .hit "first" 1 4] from rfl]
    simp
  have hsecond : ∀ x ∈ roomForTwo.history (threeKeys ++ [.get 4 "second"]),
      ∀ j, ¬ x.Drops j := by
    rw [show roomForTwo.history (threeKeys ++ [.get 4 "second"]) =
      [.stored "first" 1 0, .stored "second" 2 1, .hit "first" 1 2, .stored "third" 3 3,
        .absent "second" 4] from rfl]
    simp
  refine ⟨hm, hc, ?_, fun hhit => ?_⟩
  · refine ((hlaw threeKeys 4 "first").2.2 hfirst).mpr ⟨?_, by decide⟩
    exact ⟨.stored "first" 1 0, List.mem_cons_self, rfl⟩
  · have hfew := (((hlaw threeKeys 4 "second").2.2 hsecond).mp hhit).2
    exact absurd hfew (by decide)

end Mandate.Cache
