/-
  Mandate.Cache
  ────────────────────────────────
  **A BOUNDED CACHE.**

  A cache holds at most as many entries as its capacity.  Its entries stand in
  the order of their last use, and when there is one too many the least
  recently used goes.  With a lifetime, an entry of that age or older is found
  no more, and goes when it is looked up.

  Readings of the clock are arguments: a cache is a value, and a run of
  operations a fold over them.
-/
import Mandate.Number.Basic

namespace Mandate

/-- A value under a key, with the time of its storing. -/
structure Cache.Entry (κ ν τ : Type) where
  key : κ
  value : ν
  storedAt : τ

/-- A bounded cache with counts of its hits, misses and evictions. -/
structure Cache (κ ν τ : Type) where
  capacity : Nat
  /-- The age at which an entry is found no more; none keeps entries. -/
  lifetime : Option τ
  /-- The entries, the least recently used first. -/
  entries : List (Cache.Entry κ ν τ)
  hits : Nat
  misses : Nat
  evictions : Nat

namespace Cache

variable {κ ν τ : Type} [BEq κ]

/-- A cache without entries; none below a capacity of one. -/
def empty? (capacity : Int) (lifetime : Option τ) : Option (Cache κ ν τ) :=
  if capacity < 1 then none
  else some { capacity := capacity.toNat, lifetime, entries := [], hits := 0, misses := 0,
              evictions := 0 }

/-- The words for a capacity below one. -/
def capacityText : String := "max_size must be at least 1"

/-! ## §1. Entries. -/

/-- The entry of a key. -/
def find? (c : Cache κ ν τ) (key : κ) : Option (Entry κ ν τ) :=
  c.entries.find? (·.key == key)

/-- The entries of all other keys. -/
def others (c : Cache κ ν τ) (key : κ) : List (Entry κ ν τ) :=
  c.entries.filter fun e => !(e.key == key)

/-- The number of entries. -/
def size (c : Cache κ ν τ) : Nat := c.entries.length

/-- A key has an entry. -/
def contains (c : Cache κ ν τ) (key : κ) : Bool := (c.find? key).isSome

/-- An entry has reached the lifetime. -/
def expired [Sub τ] [LE τ] [DecidableLE τ] (c : Cache κ ν τ) (now : τ) (e : Entry κ ν τ) :
    Bool :=
  c.lifetime.any fun t => decide (t ≤ now - e.storedAt)

/-! ## §2. Operations. -/

/-- Look up a key.  A live entry becomes the most recently used; an expired one
goes. -/
def get [Sub τ] [LE τ] [DecidableLE τ] (c : Cache κ ν τ) (now : τ) (key : κ) :
    Option ν × Cache κ ν τ :=
  match c.find? key with
  | none => (none, { c with misses := c.misses + 1 })
  | some e =>
      if c.expired now e then
        (none, { c with entries := c.others key, misses := c.misses + 1 })
      else
        (some e.value, { c with entries := c.others key ++ [e], hits := c.hits + 1 })

/-- Entries that are too many go, the least recently used first. -/
def evict (c : Cache κ ν τ) : Cache κ ν τ :=
  let surplus := c.entries.length - c.capacity
  { c with entries := c.entries.drop surplus, evictions := c.evictions + surplus }

/-- Store a value under a key, as the most recently used. -/
def put (c : Cache κ ν τ) (now : τ) (key : κ) (value : ν) : Cache κ ν τ :=
  evict { c with entries := c.others key ++ [⟨key, value, now⟩] }

/-- Remove the entry of a key, and tell whether there was one. -/
def invalidate (c : Cache κ ν τ) (key : κ) : Bool × Cache κ ν τ :=
  (c.contains key, { c with entries := c.others key })

/-- Remove all entries.  The counts stay. -/
def clear (c : Cache κ ν τ) : Cache κ ν τ :=
  { c with entries := [] }

/-! ## §3. Utilization. -/

/-- How full a cache is: the double nearest to size over capacity. -/
def utilization (c : Cache κ ν τ) : Binary64 :=
  Binary64.ofRatio false c.size c.capacity

end Cache

end Mandate
