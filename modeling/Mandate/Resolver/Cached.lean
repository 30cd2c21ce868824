/-
  Mandate.Resolver.Cached
  ────────────────────────────────
  **RESOLVING THROUGH A CACHE.**

  A name that the cache knows is not asked for again.  Only answers are kept,
  never failures, so what could not be found is asked for again the next time.
-/
import Mandate.Cache
import Mandate.Resolver.Store

namespace Mandate

/-- The logger of resolvers. -/
def Resolver.logger : String := "zcapld.resolver"

/-- A cache of capabilities by name. -/
abbrev CapabilityCache (τ : Type) := Cache Text Capability τ

namespace CapabilityCache

/-- The event of a name that the cache knew. -/
def hitEvent (uri : Text) : Log.Event :=
  .debug Resolver.logger ("Capability cache hit: " ++ uri)

/-- Resolve a name through a cache.  The clock is read when the cache is looked
up and again when an answer is stored. -/
def resolve {m : Type → Type} [Monad m] {τ : Type} [Sub τ] [LE τ] [DecidableLE τ]
    (clock : m τ) (note : Log.Event → m Unit) (inner : Resolver m) (cache : CapabilityCache τ)
    (uri : Text) : m (Except Failure Capability × CapabilityCache τ) := do
  match cache.get (← clock) uri with
  | (some c, cache) => do
      note (hitEvent uri)
      return (.ok c, cache)
  | (none, cache) =>
      match ← inner uri with
      | .ok c => return (.ok c, cache.put (← clock) uri c)
      | .error e => return (.error e, cache)

end CapabilityCache

end Mandate
