/-
  Mandate.Proofs.Cache.Ledger
  ────────────────────────────────
  **THE BOOKS OF A CACHE.**

  An entry comes into a cache with a put of a key that has none, and it is there until
  it goes one of four ways:  it is evicted for want of room, its key is told to go, it is
  found too old, or all entries are cleared.  A put of a key that has an entry already
  takes the place of the old one, and neither comes nor goes.

      inserts    — a put of a key without an entry
      withdraws  — a key that has an entry is told to go
      lapses     — a look-up finds an entry too old
      clears     — the entries that are there when all have to go

  Each of them is counted in the cache that the use meets (`tally`).  Evictions, hits and
  misses are counted by the cache itself.

  Main results:
    * `put_cases`      — a put evicts one entry if it inserts into a full cache, and
                         otherwise none;
    * `balance_apply`  — what one use does to both sides of the books;
    * `balance_after`  — whatever has come in is there, or has gone one of the four ways;
    * `books_law`      — distinct keys, a bounded size, and books that balance.
-/
import Mandate.Proofs.Cache.Recency

namespace Mandate.Cache

variable {κ ν τ : Type} [DecidableEq κ]

/-! ## §1. Entries and their number. -/

section Entries

variable {c : Cache κ ν τ} {k : κ}

theorem contains_eq_true_iff : c.contains k = true ↔ k ∈ c.entries.map (·.key) := by
  simp [contains, find?]

theorem others_of_not_contains (h : c.contains k = false) : c.others k = c.entries := by
  rw [others, List.filter_eq_self]
  intro e he
  have hne : e.key ≠ k := by
    intro hkey
    have hmem : c.contains k = true :=
      contains_eq_true_iff.mpr (List.mem_map.mpr ⟨e, he, hkey⟩)
    rw [h] at hmem
    cases hmem
  simpa using hne

/-- The last entry is found, if no other one has its key. -/
theorem find?_of_last {front : List (Entry κ ν τ)} {e : Entry κ ν τ}
    (hentries : c.entries = front ++ [e]) (hother : ∀ a ∈ front, a.key ≠ e.key) :
    c.find? e.key = some e := by
  have hnone : front.find? (·.key == e.key) = none := by
    rw [List.find?_eq_none]
    intro a ha
    simpa using hother a ha
  rw [find?, hentries, List.find?_append, hnone]
  simp

/-- Where keys are distinct, one entry at most goes with a key. -/
theorem length_others (hkeys : (c.entries.map (·.key)).Nodup) (k : κ) :
    (c.others k).length + (if c.contains k then 1 else 0) = c.size := by
  have hown : (c.entries.filter (·.key == k)).length = if c.contains k then 1 else 0 := by
    have hcount : (c.entries.map (·.key)).count k = (c.entries.filter (·.key == k)).length := by
      rw [List.count, List.countP_map, List.countP_eq_length_filter]
      rfl
    rw [← hcount, List.Nodup.count hkeys]
    simp only [contains_eq_true_iff]
  have hsplit : c.size = (c.entries.filter (·.key == k)).length + (c.others k).length :=
    List.length_eq_length_filter_add _
  rw [hsplit, hown, Nat.add_comm]

end Entries

/-! ## §2. What a put evicts. -/

section Put

variable {c : Cache κ ν τ} {k : κ}

/-- As long as there is room, nothing is evicted. -/
theorem put_of_room (hroom : (c.others k).length < c.capacity) (now : τ) (v : ν) :
    c.put now k v = { c with entries := c.others k ++ [⟨k, v, now⟩] } := by
  have hsurplus : (c.others k).length + 1 - c.capacity = 0 := by omega
  simp [put, evict, hsurplus]

/-- Where all room is taken, the least recently used entry goes. -/
theorem put_of_full (hm : 1 ≤ c.capacity) (hfull : (c.others k).length = c.capacity) (now : τ)
    (v : ν) :
    c.put now k v = { c with entries := (c.others k).tail ++ [⟨k, v, now⟩],
                             evictions := c.evictions + 1 } := by
  have hsurplus : (c.others k).length + 1 - c.capacity = 1 := by omega
  cases hothers : c.others k with
  | nil =>
      rw [hothers, List.length_nil] at hfull
      omega
  | cons oldest rest =>
      rw [hothers] at hsurplus
      simp only [List.length_cons] at hsurplus
      simp [put, evict, hothers, hsurplus]

/-- **WHAT A PUT EVICTS.**  In a cache with distinct keys and no more of them than there is
room for, a put evicts the oldest entry if the key is new and all room is taken, and
otherwise nothing. -/
theorem put_cases (hkeys : (c.entries.map (·.key)).Nodup) (hsize : c.size ≤ c.capacity)
    (hm : 1 ≤ c.capacity) (now : τ) (k : κ) (v : ν) :
    (c.contains k = true ∨ c.size < c.capacity) ∧
        (c.put now k v).entries = c.others k ++ [⟨k, v, now⟩] ∧
        (c.put now k v).evictions = c.evictions ∨
      c.contains k = false ∧ c.size = c.capacity ∧
        (c.put now k v).entries = c.entries.tail ++ [⟨k, v, now⟩] ∧
        (c.put now k v).evictions = c.evictions + 1 := by
  have hlength := length_others hkeys k
  cases hk : c.contains k with
  | true =>
      rw [hk, if_pos rfl] at hlength
      rw [put_of_room (by omega)]
      exact .inl ⟨.inl rfl, rfl, rfl⟩
  | false =>
      rw [hk, if_neg Bool.false_ne_true, Nat.add_zero] at hlength
      by_cases hroom : c.size < c.capacity
      · rw [put_of_room (by omega)]
        exact .inl ⟨.inr hroom, rfl, rfl⟩
      · rw [put_of_full hm (by omega), others_of_not_contains hk]
        exact .inr ⟨rfl, by omega, rfl, rfl⟩

/-- What is put is there. -/
theorem find?_put (hkeys : (c.entries.map (·.key)).Nodup) (hsize : c.size ≤ c.capacity)
    (hm : 1 ≤ c.capacity) (now : τ) (k : κ) (v : ν) :
    (c.put now k v).find? k = some ⟨k, v, now⟩ := by
  rcases put_cases hkeys hsize hm now k v with ⟨-, hentries, -⟩ | ⟨hnew, -, hentries, -⟩
  · exact find?_of_last hentries (others_ne c k)
  · -- What is left of the others is still without the key.
    refine find?_of_last hentries fun a ha => ?_
    have hmem : a ∈ c.others k := by
      rw [others_of_not_contains hnew]
      exact List.mem_of_mem_tail ha
    exact others_ne c k a hmem

end Put

/-! ## §3. Counting. -/

variable [Sub τ] [LE τ] [DecidableLE τ]

/-- A use looks a key up. -/
def Use.isGet : Use κ ν τ → Bool
  | .get _ _ => true
  | _ => false

/-- One for a put of a key without an entry. -/
def inserts (c : Cache κ ν τ) : Use κ ν τ → Nat
  | .put _ key _ => if c.contains key then 0 else 1
  | _ => 0

/-- One for a key that is told to go and was there. -/
def withdraws (c : Cache κ ν τ) : Use κ ν τ → Nat
  | .invalidate key => if (c.invalidate key).1 then 1 else 0
  | _ => 0

/-- One for a look-up that finds an entry too old. -/
def lapses (c : Cache κ ν τ) (u : Use κ ν τ) : Nat :=
  match c.event u with
  | .expired _ _ => 1
  | _ => 0

/-- The entries that go when all of them go. -/
def clears (c : Cache κ ν τ) : Use κ ν τ → Nat
  | .clear => c.size
  | _ => 0

/-- What the uses of a run count for, each in the cache that it meets. -/
def tally (count : Cache κ ν τ → Use κ ν τ → Nat) (c : Cache κ ν τ) : List (Use κ ν τ) → Nat
  | [] => 0
  | u :: us => count c u + tally count (c.apply u) us

theorem tally_append_singleton (count : Cache κ ν τ → Use κ ν τ → Nat) (c : Cache κ ν τ)
    (us : List (Use κ ν τ)) (u : Use κ ν τ) :
    c.tally count (us ++ [u]) = c.tally count us + count (c.after us) u := by
  induction us generalizing c with
  | nil =>
      show count c u + 0 = 0 + count c u
      rw [Nat.add_zero, Nat.zero_add]
  | cons v us ih =>
      show count c v + (c.apply v).tally count (us ++ [u]) = _
      rw [ih, ← Nat.add_assoc]
      rfl

/-! ## §4. The books of a run. -/

section Books

variable {c : Cache κ ν τ}

/-- **WHAT ONE USE DOES TO THE BOOKS.**  What comes in and what was there before is there
behind the use, or has gone. -/
theorem balance_apply (hkeys : (c.entries.map (·.key)).Nodup) (u : Use κ ν τ) :
    inserts c u + c.size + c.evictions =
      (c.apply u).size + (c.apply u).evictions + withdraws c u + lapses c u + clears c u := by
  cases u with
  | put now key value =>
      have hlength := length_others hkeys key
      -- Whatever the room is, an entry beyond it is counted where it is dropped.
      have hsize : (c.put now key value).size + (c.put now key value).evictions =
          (c.others key).length + 1 + c.evictions := by
        simp only [put, evict, size, List.length_drop, List.length_append, List.length_singleton]
        omega
      show (if c.contains key then 0 else 1) + c.size + c.evictions =
        (c.put now key value).size + (c.put now key value).evictions
      rw [hsize]
      by_cases hk : c.contains key
      · rw [if_pos hk] at hlength ⊢
        omega
      · rw [if_neg hk] at hlength ⊢
        omega
  | get now key =>
      have hlength := length_others hkeys key
      show 0 + c.size + c.evictions = (c.get now key).2.size + (c.get now key).2.evictions + 0 +
        lapses c (.get now key) + 0
      rcases get_cases c now key with
        ⟨-, hevent, hget⟩ | ⟨e, hfind, ⟨-, hevent, hget⟩ | ⟨-, hevent, hget⟩⟩
      · rw [hget, lapses, hevent, Nat.zero_add]
        rfl
      -- From here on the key has an entry: one too old goes, a live one moves to the end.
      all_goals rw [contains, hfind, Option.isSome_some, if_pos rfl] at hlength
      · rw [hget, lapses, hevent, ← hlength]
        show 0 + ((c.others key).length + 1) + c.evictions =
          (c.others key).length + c.evictions + 0 + 1 + 0
        omega
      · rw [hget, lapses, hevent, ← hlength]
        show 0 + ((c.others key).length + 1) + c.evictions =
          (c.others key ++ [e]).length + c.evictions + 0 + 0 + 0
        rw [List.length_append, List.length_singleton]
        omega
  | invalidate key =>
      have hlength := length_others hkeys key
      show 0 + c.size + c.evictions =
        (c.others key).length + c.evictions + (if c.contains key then 1 else 0) + 0 + 0
      omega
  | clear =>
      show 0 + c.size + c.evictions = 0 + c.evictions + 0 + 0 + c.size
      omega

/-- Every look-up hits or misses, and nothing else does. -/
theorem lookups_apply (c : Cache κ ν τ) (u : Use κ ν τ) :
    (c.apply u).hits + (c.apply u).misses = c.hits + c.misses + (if u.isGet then 1 else 0) := by
  cases u with
  | get now key =>
      show (c.get now key).2.hits + (c.get now key).2.misses = c.hits + c.misses + 1
      rcases get_cases c now key with ⟨-, -, hget⟩ | ⟨e, -, ⟨-, -, hget⟩ | ⟨-, -, hget⟩⟩
      · rw [hget, Nat.add_assoc]
      · rw [hget, Nat.add_assoc]
      · rw [hget]
        show c.hits + 1 + c.misses = c.hits + c.misses + 1
        omega
  | _ => rfl

theorem lookups_after (c : Cache κ ν τ) (us : List (Use κ ν τ)) :
    (c.after us).hits + (c.after us).misses = c.hits + c.misses + us.countP Use.isGet := by
  induction us using List.reverseRecOn with
  | nil => rfl
  | append_singleton us u ih =>
      rw [after_append_singleton, lookups_apply, ih, List.countP_append, List.countP_singleton]
      omega

/-- **THE BOOKS OF A RUN.**  Whatever has come into an empty cache is there, or has gone
one of the four ways. -/
theorem balance_after (hc : c.entries = []) (us : List (Use κ ν τ)) :
    c.tally inserts us + c.evictions =
      (c.after us).size + (c.after us).evictions + c.tally withdraws us + c.tally lapses us +
        c.tally clears us := by
  induction us using List.reverseRecOn with
  | nil =>
      show 0 + c.evictions = c.size + c.evictions + 0 + 0 + 0
      rw [size, hc, List.length_nil]
      omega
  | append_singleton us u ih =>
      -- Keys are distinct behind every run, which is what the step needs.
      have hstep := balance_apply (ordered_after hc us).nodup u
      simp only [tally_append_singleton, after_append_singleton]
      omega

/-- **DISTINCT KEYS, A BOUNDED SIZE, AND BOOKS THAT BALANCE.**  A cache can be made with
room for any `m` entries, one at least.  Behind every run of it, no key has two entries
and there are no more than `m` of them;  a key that is put next is there, and the put
evicts the oldest entry if the key is new and all room is taken, and otherwise nothing;
hits and misses are as many as the look-ups;  and the puts that brought a new key are as
many as the entries, the evictions, the keys that were told to go and were there, the
look-ups that dropped an entry too old, and the entries that were cleared. -/
theorem books_law {m : Nat} (hm : 1 ≤ m) (ttl : Option τ) :
    ∃ c : Cache κ ν τ, empty? (m : Int) ttl = some c ∧
      ∀ us : List (Use κ ν τ),
        let d := c.after us
        (d.entries.map (·.key)).Nodup ∧ d.size ≤ m ∧
        (∀ now k v, (d.put now k v).find? k = some ⟨k, v, now⟩ ∧
          ((d.contains k = true ∨ d.size < m) ∧
              (d.put now k v).entries = d.others k ++ [⟨k, v, now⟩] ∧
              (d.put now k v).evictions = d.evictions ∨
            d.contains k = false ∧ d.size = m ∧
              (d.put now k v).entries = d.entries.tail ++ [⟨k, v, now⟩] ∧
              (d.put now k v).evictions = d.evictions + 1)) ∧
        d.hits + d.misses = us.countP Use.isGet ∧
        c.tally inserts us =
          d.size + d.evictions + c.tally withdraws us + c.tally lapses us + c.tally clears us := by
  obtain ⟨c, hc⟩ := exists_empty? (κ := κ) (ν := ν) hm ttl
  obtain ⟨-, hcap, -, hempty⟩ := empty?_eq_some hc
  obtain ⟨hhits, hmisses, hevictions⟩ := counts_of_empty? hc
  refine ⟨c, hc, fun us => ?_⟩
  intro d
  have hkeys : (d.entries.map (·.key)).Nodup := (ordered_after hempty us).nodup
  have hcapacity : d.capacity = m := by rw [capacity_after, hcap]
  have hsize : d.size ≤ d.capacity := by
    rw [capacity_after]
    exact length_after_le hempty us
  have hroom : 1 ≤ d.capacity := by omega
  refine ⟨hkeys, by omega, fun now k v => ⟨find?_put hkeys hsize hroom now k v, ?_⟩, ?_, ?_⟩
  · rw [← hcapacity]
    exact put_cases hkeys hsize hroom now k v
  · rw [lookups_after, hhits, hmisses, Nat.zero_add]
  · have hbalance := balance_after hempty us
    rw [hevictions, Nat.add_zero] at hbalance
    exact hbalance

end Books

/-- A run in which an entry goes each of the four ways. -/
def fourWays : List (Use String Nat Int) :=
  [.put 0 "first" 1, .put 1 "second" 2, .put 2 "third" 3, .put 3 "third" 4, .invalidate "third",
    .get 11 "second", .put 12 "fourth" 5, .clear]

/-- Four keys were new in it:  one was evicted, one was told to go, one was found too old
and one was cleared, and none is left. -/
theorem four_come_and_go :
    1 ≤ 2 ∧ empty? (2 : Nat) (some 10) = some roomForTwo ∧
    (roomForTwo.after fourWays).size = 0 ∧ (roomForTwo.after fourWays).evictions = 1 ∧
    roomForTwo.tally withdraws fourWays = 1 ∧ roomForTwo.tally lapses fourWays = 1 ∧
    roomForTwo.tally clears fourWays = 1 ∧ roomForTwo.tally inserts fourWays = 4 := by
  have hm : 1 ≤ 2 := by decide
  obtain ⟨c, hc, hlaw⟩ := books_law (κ := String) (ν := Nat) hm (some (10 : Int))
  obtain rfl : roomForTwo = c := Option.some.inj hc
  obtain ⟨-, -, -, -, hbalance⟩ := hlaw fourWays
  exact ⟨hm, hc, rfl, rfl, rfl, rfl, rfl, hbalance⟩

end Mandate.Cache
