/-
  Mandate.Purpose.Created
  ────────────────────────────────
  **PROOFS OF THE RIGHT TIME.**

  A proof has to be made within a window around an expected time.  Both ends
  of the window are inside, and what counts is instants.
-/
import Mandate.Time.Span
import Mandate.Verification.Verifier

namespace Mandate.Purpose

open Time (Stamp Moment Span)

/-- The time a proof is expected to be made at, and how far off it may be. -/
structure Window where
  expected : Stamp
  skew : Span

namespace Window

/-- The window around an expected time, or around the time of a clock if none is
expected.  A time without an offset is in UTC. -/
def around (expected : Option Moment) (clock : Moment) (skew : Span) : Window :=
  { expected := (expected.getD clock).stamp, skew }

/-- A time lies in the window. -/
def covers (w : Window) (t : Stamp) : Bool :=
  ((t.instant - w.expected.instant).natAbs : Int) ≤ w.skew.micros

/-- A proof was made at a time of the window. -/
def check (w : Window) (proof : Proof) : Except Failure Unit :=
  match proof.created with
  | none => .error (.denied .proofUndated)
  | some m =>
      if w.covers m.stamp then .ok ()
      else do
        let created ← Document.timeText m.stamp
        let expected ← Document.timeText w.expected
        .error (.denied (.proofOutsideWindow created expected w.skew.seconds))

/-- The window as a demand on proofs. -/
def purpose {m : Type → Type} [Monad m] (w : Window) : Mandate.Purpose m :=
  fun proof _ => pure (w.check proof)

end Window

end Mandate.Purpose
