/-
  Mandate.Proofs.Verification.Instants
  ────────────────────────────────
  **DECISIONS DEPEND ON INSTANTS.**

  A hearing is all that a check with collaborators at hand is about.  Its times may be
  written by any clocks: those of the capability and of what the resolver answers, the time
  of the proof, the expected time and the clock of a demand, and the time of the check.

      report    — what a check makes known: its verdict as it stands in reports, or the
                  failure that leaves it, and the events
      timeless  — the same hearing without any end of validity
      Binds     — a time that a grant of the hearing has to stay ahead of

  Main results:
    * `ruling_rezoned`  — a ruling is the same by other clocks, down to its words;
    * `cleared_iff`     — what ends does so at its instant, and nothing else does;
    * `instants_law`    — so reports do not tell clocks apart, an end of validity counts from
                          its instant on, and a demand for a time takes exactly the times
                          within its window.
-/
import Mandate.Proofs.Verification.Record
import Mandate.Proofs.Verification.Rezoned
import Mandate.Proofs.Verification.Verdicts

namespace Mandate

open Json (Value)
open Time (Stamp Moment Span)
open Purpose (Demand Window)

/-! ## §1. Demands. -/

/-- The same proof by other clocks. -/
structure Proof.Rezoned (p p' : Proof) : Prop where
  capability : Option.Rel Capability.Rezoned p.capability p'.capability
  action : p'.action = p.action
  method : p'.method = p.method
  /-- Made at the same time, where a time without an offset is in UTC. -/
  created : p'.created.map (·.stamp.instant) = p.created.map (·.stamp.instant)

theorem Proof.Rezoned.capabilityName {p p' : Proof} (h : p.Rezoned p') :
    Verification.capabilityName p' = Verification.capabilityName p := by
  have hrel := h.capability
  unfold Verification.capabilityName
  generalize p.capability = c at hrel ⊢
  generalize p'.capability = c' at hrel ⊢
  cases hrel with
  | none => rfl
  | some hc => exact congrArg some hc.id

namespace Purpose

variable {p p' : Proof}

/-- The same demand by other clocks. -/
inductive Demand.Rezoned : Demand → Demand → Prop
  | created {expected expected' : Option Moment} {clock clock' : Moment} (skew : Span)
      (hexpected : expected'.map (·.stamp.instant) = expected.map (·.stamp.instant))
      (hclock : clock'.stamp.instant = clock.stamp.instant) :
      Rezoned (.created (.around expected clock skew)) (.created (.around expected' clock' skew))
  | same (d : Demand) : Rezoned d d

theorem Window.instant_around {expected expected' : Option Moment} {clock clock' : Moment}
    (skew : Span)
    (hexpected : expected'.map (·.stamp.instant) = expected.map (·.stamp.instant))
    (hclock : clock'.stamp.instant = clock.stamp.instant) :
    (Window.around expected' clock' skew).expected.instant
      = (Window.around expected clock skew).expected.instant := by
  cases expected with
  | none =>
      rw [Option.map_none, Option.map_eq_none_iff] at hexpected
      rw [hexpected]
      exact hclock
  | some m =>
      obtain ⟨m', hm', hinstant⟩ := Option.map_eq_some_iff.mp hexpected
      rw [hm']
      exact hinstant

/-- Whether a proof was made within a window depends on instants, and so do the words of a
denial. -/
theorem Window.check_rezoned {w w' : Window} (hexpected : w'.expected.instant = w.expected.instant)
    (hskew : w'.skew = w.skew)
    (hcreated : p'.created.map (·.stamp.instant) = p.created.map (·.stamp.instant)) :
    w'.check p' = w.check p := by
  cases hp : p.created with
  | none =>
      rw [hp, Option.map_none, Option.map_eq_none_iff] at hcreated
      unfold Window.check
      rw [hp, hcreated]
  | some m =>
      rw [hp] at hcreated
      obtain ⟨m', hp', hinstant⟩ := Option.map_eq_some_iff.mp hcreated
      have hcovers : w'.covers m'.stamp = w.covers m.stamp := by
        unfold Window.covers
        rw [hexpected, hskew, hinstant]
      unfold Window.check
      rw [hp, hp']
      simp only [hcovers, Time.timeText_congr hexpected, Time.timeText_congr hinstant, hskew]

theorem Demand.Rezoned.check {d d' : Demand} (h : d.Rezoned d') (hp : p.Rezoned p')
    (inv : Invocation) : d'.check p' inv = d.check p inv := by
  cases h with
  | created skew hexpected hclock =>
      exact Window.check_rezoned (Window.instant_around skew hexpected hclock) rfl hp.created
  | same d =>
      cases d with
      | created w => exact Window.check_rezoned rfl rfl hp.created
      | controller documents =>
          unfold Demand.check checkSigner
          rw [hp.method]

/-- A proof is made within a window exactly if it has a time that is no further from the
expected one than allowed. -/
theorem Window.check_eq_ok_iff {w : Window} :
    w.check p = .ok () ↔ ∃ m, p.created = some m ∧
      w.expected.instant - w.skew.micros ≤ m.stamp.instant ∧
      m.stamp.instant ≤ w.expected.instant + w.skew.micros := by
  unfold Window.check
  cases hp : p.created with
  | none => simp
  | some m =>
      have hcovers : w.covers m.stamp = true ↔
          w.expected.instant - w.skew.micros ≤ m.stamp.instant ∧
            m.stamp.instant ≤ w.expected.instant + w.skew.micros := by
        unfold Window.covers
        rw [decide_eq_true_eq]
        omega
      by_cases hm : w.covers m.stamp
      · simp only [if_pos hm, Option.some.injEq, exists_eq_left', true_iff]
        exact hcovers.mp hm
      · simp only [if_neg hm, Option.some.injEq, exists_eq_left']
        refine ⟨fun h => ?_, fun h => absurd (hcovers.mpr h) hm⟩
        -- A denial tells two times, and however this goes it is no success.
        obtain ⟨created, -, hrest⟩ := Capability.bind_eq_ok.mp h
        exact absurd hrest bind_error_ne_ok

end Purpose

/-! ## §2. Ends of validity. -/

/-- The time that a caveat sets an end at, if it does. -/
def Caveat.end? : Caveat → Option Stamp
  | .expiration t => some t
  | _ => none

namespace Capability

/-- The times from which on a capability is not to be used. -/
def ends (c : Capability) : List Stamp := c.caveats.filterMap (·.end?) ++ c.expires.toList

/-- The same capability without an end. -/
def timeless (c : Capability) : Capability :=
  { c with expires := none, caveats := c.caveats.filter (·.end?.isNone) }

end Capability

namespace Verification

variable {known : Registry} {c root : Capability} {action : Text} {inv : Invocation}

/-- What restricts a capability is what restricts it without an end, at whatever time, and
then its ends, each of them from its instant on. -/
theorem unrestricted_iff {o : Occasion} (start : Stamp) :
    Unrestricted o c ↔
      Unrestricted { o with now := start } c.timeless ∧
        ∀ t ∈ c.ends, o.now.instant < t.instant := by
  constructor
  · intro h
    refine ⟨⟨fun k hk => ?_, nofun⟩, fun t ht => ?_⟩
    · obtain ⟨hmem, hend⟩ := List.mem_filter.mp hk
      have hholds := h.caveats k hmem
      cases k with
      | expiration t => cases hend
      | _ => exact hholds
    · rcases List.mem_append.mp ht with hcaveat | hexpires
      · obtain ⟨k, hk, hend⟩ := List.mem_filterMap.mp hcaveat
        cases k with
        | expiration u =>
            cases hend
            exact h.caveats _ hk
        | _ => cases hend
      · exact h.current t (Option.mem_toList.mp hexpires)
  · intro h
    obtain ⟨hfree, hends⟩ := h
    refine ⟨fun k hk => ?_, fun t ht => ?_⟩
    · cases k with
      | expiration t =>
          exact hends t (List.mem_append_left _ (List.mem_filterMap.mpr ⟨_, hk, rfl⟩))
      | _ => exact hfree.caveats _ (List.mem_filter.mpr ⟨hk, rfl⟩)
    · exact hends t (List.mem_append_right _ (Option.mem_toList.mpr ht))

/-- Of a root and a capability under it, the ends of both of them count, each from its
instant on. -/
theorem cleared_iff {now : Stamp} (start : Stamp) :
    Cleared now c action inv root ↔
      Cleared start c.timeless action inv root.timeless ∧
        ∀ t, t ∈ root.ends ∨ c.chain ≠ [] ∧ t ∈ c.ends → now.instant < t.instant := by
  have hroot := unrestricted_iff (c := root) (o := occasion now action inv root) start
  have hown := unrestricted_iff (c := c) (o := occasion now action inv root) start
  unfold Cleared
  rw [hroot, hown]
  constructor
  · intro h
    obtain ⟨hpermits, htarget, ⟨hfree, hends⟩, hexpected, hleaf⟩ := h
    refine ⟨⟨hpermits, htarget, hfree, hexpected, ?_⟩, fun t ht => ?_⟩
    · exact hleaf.imp_right fun hleaf => ⟨hleaf.1, hleaf.2.1⟩
    · rcases ht with ht | ⟨hchain, ht⟩
      · exact hends t ht
      · exact (hleaf.resolve_left hchain).2.2 t ht
  · intro h
    obtain ⟨⟨hpermits, htarget, hfree, hexpected, hleaf⟩, hends⟩ := h
    refine ⟨hpermits, htarget, ⟨hfree, fun t ht => hends t (.inl ht)⟩, hexpected, ?_⟩
    by_cases hchain : c.chain = []
    · exact .inl hchain
    · obtain ⟨hlength, hown⟩ := hleaf.resolve_left hchain
      exact .inr ⟨hlength, hown, fun t ht => hends t (.inr ⟨hchain, ht⟩)⟩

/-! ## §3. Hearings. -/

/-- What a check with collaborators at hand is about, apart from the invocation. -/
structure Hearing where
  answer : Text → Except Failure Capability
  demands : List Demand
  now : Stamp
  proof : Proof

namespace Hearing

/-- The same hearing by other clocks. -/
structure Rezoned (x x' : Hearing) : Prop where
  answer : ∀ uri, SameAnswer (x.answer uri) (x'.answer uri)
  demands : List.Forall₂ Demand.Rezoned x.demands x'.demands
  now : x'.now.instant = x.now.instant
  proof : x.proof.Rezoned x'.proof

/-- The ruling on a hearing. -/
def ruling (known : Registry) (inv : Invocation) (x : Hearing) : Except Failure Unit :=
  Verification.ruling known x.answer x.demands x.now x.proof inv

/-- What a check of the hearing gives, and the events that it leaves. -/
def check (known : Registry) (inv : Invocation) (x : Hearing) :
    Except Failure Verdict × List Log.Event :=
  ((ledgered known x.answer x.demands x.now).check x.proof inv).run []

/-- What is made known of a check: the verdict as it stands in reports, or the failure that
leaves instead, and the events. -/
def report (known : Registry) (inv : Invocation) (x : Hearing) :
    Except Failure Value × List Log.Event :=
  ((x.check known inv).1 >>= Verdict.toJson, (x.check known inv).2)

/-- A check of the hearing gives the verdict that the invocation is authorized. -/
def Grants (known : Registry) (inv : Invocation) (x : Hearing) : Prop :=
  ∃ verdict, (x.check known inv).1 = .ok verdict ∧ verdict.isValid = true

/-- The same hearing without any end of validity. -/
def timeless (x : Hearing) : Hearing :=
  { x with
    answer := fun uri => (x.answer uri).map Capability.timeless
    proof := { x.proof with capability := x.proof.capability.map Capability.timeless } }

/-- An end of validity that counts: one of the root, or one of a capability that is not its
own root. -/
def Binds (known : Registry) (inv : Invocation) (x : Hearing) (t : Stamp) : Prop :=
  ∃ c uri root, x.proof.capability = some c ∧ anchor known c x.proof.action inv = .ok uri ∧
    x.answer uri = .ok root ∧ (t ∈ root.ends ∨ c.chain ≠ [] ∧ t ∈ c.ends)

variable {x x' : Hearing}

/-! ## §4. Rulings. -/

/-- A ruling is the same by other clocks, down to the words of a denial. -/
theorem ruling_rezoned (h : x.Rezoned x') : x'.ruling known inv = x.ruling known inv := by
  have hdemands : x'.demands.forM (·.check x'.proof inv) = x.demands.forM (·.check x.proof inv) :=
    forM_congr (h.demands.imp fun _ _ hd => hd.check h.proof inv)
  have hrel := h.proof.capability
  unfold ruling Verification.ruling
  rw [h.proof.action, hdemands]
  generalize x.proof.capability = a at hrel ⊢
  generalize x'.proof.capability = a' at hrel ⊢
  cases hrel with
  | none => rfl
  | @some c c' hc =>
      simp only [anchor_rezoned hc]
      cases anchor known c x.proof.action inv with
      | error d => rfl
      | ok uri => simp only [assess_rezoned h.now hc (h.answer uri)]

theorem ruling_eq_ok_iff :
    x.ruling known inv = .ok () ↔ ∃ c uri root, x.proof.capability = some c ∧
      anchor known c x.proof.action inv = .ok uri ∧ x.answer uri = .ok root ∧
      Cleared x.now c x.proof.action inv root ∧ c.Empowers inv.method ∧
      ∀ d ∈ x.demands, d.check x.proof inv = .ok () := by
  unfold ruling Verification.ruling
  cases hc : x.proof.capability with
  | none => simp
  | some c =>
      simp only
      cases huri : anchor known c x.proof.action inv with
      | error d => simp [huri]
      | ok uri =>
          simp only
          rw [bind_unit_eq_ok_iff, assess_eq_ok_iff, forM_eq_ok_iff]
          simp only [judge_eq_ok_iff, ← Cleared.eq_def]
          constructor
          · intro h
            obtain ⟨⟨root, hroot, hclear, hsigner⟩, hdemands⟩ := h
            exact ⟨c, uri, root, rfl, huri, hroot, hclear, hsigner, hdemands⟩
          · intro h
            obtain ⟨_, _, root, hc', huri', hroot, hclear, hsigner, hdemands⟩ := h
            cases hc'
            cases huri.symm.trans huri'
            exact ⟨⟨root, hroot, hclear, hsigner⟩, hdemands⟩

/-- A check grants exactly if its ruling ends well. -/
theorem grants_iff : x.Grants known inv ↔ x.ruling known inv = .ok () := by
  have hcheck : (x.check known inv).1
      = (ledgered known x.answer x.demands x.now).verdict? x.proof (x.ruling known inv) := by
    unfold check
    rw [run_check]
    rfl
  unfold Grants
  rw [hcheck]
  cases x.ruling known inv with
  | ok u => exact ⟨fun _ => rfl, fun _ => ⟨_, rfl, rfl⟩⟩
  | error e =>
      refine ⟨fun h => ?_, nofun⟩
      obtain ⟨verdict, hverdict, hvalid⟩ := h
      cases e with
      | fault f =>
          cases hverdict
          cases hvalid
      | _ => cases hverdict

/-- A report is the same by other clocks. -/
theorem report_rezoned (h : x.Rezoned x') : x'.report known inv = x.report known inv := by
  have hname := h.proof.capabilityName
  have hverdict : ∀ outcome,
      ((ledgered known x'.answer x'.demands x'.now).verdict? x'.proof outcome >>= Verdict.toJson)
        = ((ledgered known x.answer x.demands x.now).verdict? x.proof outcome
            >>= Verdict.toJson) := by
    intro outcome
    cases outcome with
    | ok u => exact Verdict.toJson_congr hname h.proof.action h.now rfl
    | error e =>
        cases e with
        | fault f => exact Verdict.toJson_congr hname h.proof.action h.now rfl
        | _ => rfl
  have hruling : x'.ruling known inv = x.ruling known inv := ruling_rezoned h
  unfold ruling at hruling
  unfold report check
  rw [run_check, run_check, hruling, hverdict, event?_congr hname h.proof.action]

/-- An end of validity that counts is an end of every grant, at its instant, and nothing else
about the time of a check is. -/
theorem grants_at_iff (now : Stamp) :
    ({ x with now } : Hearing).Grants known inv ↔
      x.timeless.Grants known inv ∧ ∀ t, x.Binds known inv t → now.instant < t.instant := by
  have hanchor : ∀ c : Capability, anchor known c.timeless x.proof.action inv
      = anchor known c x.proof.action inv := fun _ => rfl
  have hdemands : ∀ d : Demand, d.check x.timeless.proof inv = d.check x.proof inv := by
    intro d
    cases d <;> rfl
  rw [grants_iff, grants_iff, ruling_eq_ok_iff, ruling_eq_ok_iff]
  constructor
  · intro h
    obtain ⟨c, uri, root, hc, huri, hroot, hclear, hsigner, hall⟩ := h
    obtain ⟨hfree, hends⟩ := (cleared_iff x.now).mp hclear
    refine ⟨⟨c.timeless, uri, root.timeless, ?_, (hanchor c).trans huri, ?_, hfree, hsigner, ?_⟩,
      ?_⟩
    · exact congrArg (Option.map Capability.timeless) hc
    · exact congrArg (Except.map Capability.timeless) hroot
    · intro d hd
      rw [hdemands]
      exact hall d hd
    · intro t ht
      obtain ⟨c', uri', root', hc', huri', hroot', hbinds⟩ := ht
      cases hc.symm.trans hc'
      cases huri.symm.trans huri'
      cases hroot.symm.trans hroot'
      exact hends t hbinds
  · intro h
    obtain ⟨⟨free, uri, freeRoot, hfree, huri, hfreeRoot, hclear, hsigner, hall⟩, hends⟩ := h
    obtain ⟨c, hc, hcfree⟩ := Option.map_eq_some_iff.mp hfree
    obtain ⟨root, hroot, hrootfree⟩ := map_eq_ok_iff.mp hfreeRoot
    subst hcfree
    subst hrootfree
    have huri' := (hanchor c).symm.trans huri
    have hbinds : ∀ t, t ∈ root.ends ∨ c.chain ≠ [] ∧ t ∈ c.ends → now.instant < t.instant :=
      fun t ht => hends t ⟨c, uri, root, hc, huri', hroot, ht⟩
    refine ⟨c, uri, root, hc, huri', hroot, (cleared_iff x.now).mpr ⟨hclear, hbinds⟩, hsigner, ?_⟩
    intro d hd
    rw [← hdemands]
    exact hall d hd

/-- A demand for a time, wherever it stands, takes the times within its window, both ends
included, and takes nothing else. -/
theorem grants_created_iff {before after : List Demand} {w : Window}
    (h : x.demands = before ++ .created w :: after) :
    x.Grants known inv ↔ ({ x with demands := before ++ after } : Hearing).Grants known inv ∧
      ∃ m, x.proof.created = some m ∧
        w.expected.instant - w.skew.micros ≤ m.stamp.instant ∧
        m.stamp.instant ≤ w.expected.instant + w.skew.micros := by
  have hall : (∀ d ∈ x.demands, d.check x.proof inv = .ok ()) ↔
      (∀ d ∈ before ++ after, d.check x.proof inv = .ok ()) ∧ w.check x.proof = .ok () := by
    rw [h]
    simp only [List.forall_mem_append, List.forall_mem_cons]
    constructor
    · intro hd
      exact ⟨⟨hd.1, hd.2.2⟩, hd.2.1⟩
    · intro hd
      exact ⟨hd.1.1, hd.2, hd.1.2⟩
  rw [grants_iff, grants_iff, ruling_eq_ok_iff, ruling_eq_ok_iff, hall, Window.check_eq_ok_iff]
  constructor
  · intro hx
    obtain ⟨c, uri, root, hc, huri, hroot, hclear, hsigner, hothers, hw⟩ := hx
    exact ⟨⟨c, uri, root, hc, huri, hroot, hclear, hsigner, hothers⟩, hw⟩
  · intro hx
    obtain ⟨⟨c, uri, root, hc, huri, hroot, hclear, hsigner, hothers⟩, hw⟩ := hx
    exact ⟨c, uri, root, hc, huri, hroot, hclear, hsigner, hothers, hw⟩

end Hearing

/-! ## §5. The law. -/

/-- **DECISIONS DEPEND ON INSTANTS.**  Documents that write the same times in different ways,
with whatever offsets or without one for UTC, denote capabilities that differ by their clocks
at most, and so do the answers of a store that takes these up.  Hearings that differ by their
clocks at most are reported with the same words, or left by the same failure, and leave the
same events.  Whether a check grants depends on its time through the ends of validity that
count, each of which is an end from its instant on.  A demand for a time is met exactly by the
times that are no further from the expected one than allowed. -/
theorem instants_law (known : Registry) (inv : Invocation) :
    (∀ fields fields' c, Capability.Retimed fields fields' →
      Capability.read known (.object fields) = .ok c →
      ∃ c', Capability.read known (.object fields') = .ok c' ∧ c.Rezoned c') ∧
    (∀ cs cs' uri, List.Forall₂ Capability.Rezoned cs cs' →
      SameAnswer ((Store.ofList cs).resolve uri) ((Store.ofList cs').resolve uri)) ∧
    (∀ x x' : Hearing, x.Rezoned x' → x'.report known inv = x.report known inv) ∧
    (∀ (x : Hearing) (now : Stamp), ({ x with now } : Hearing).Grants known inv ↔
      x.timeless.Grants known inv ∧ ∀ t, x.Binds known inv t → now.instant < t.instant) ∧
    (∀ (x : Hearing) before after expected clock skew,
      x.demands = before ++ .created (.around expected clock skew) :: after →
      (x.Grants known inv ↔
        ({ x with demands := before ++ after } : Hearing).Grants known inv ∧
        ∃ m, x.proof.created = some m ∧
          (expected.getD clock).stamp.instant - skew.micros ≤ m.stamp.instant ∧
          m.stamp.instant ≤ (expected.getD clock).stamp.instant + skew.micros)) := by
  refine ⟨?_, ?_, ?_, ?_, ?_⟩
  · intro fields fields' c hretimed hread
    exact hretimed.read hread
  · intro cs cs' uri hcs
    exact Store.sameAnswer_ofList hcs uri
  · intro x x' h
    exact Hearing.report_rezoned h
  · intro x now
    exact Hearing.grants_at_iff now
  · intro x before after expected clock skew h
    exact Hearing.grants_created_iff h

/-- The fields of a root whose end of validity is written in the given way, and is set by a
caveat, too. -/
def endingFields (text : Text) : Json.Fields :=
  [("id", .text "urn:zcap:root"), ("invoker", .text "did:example:alice"), ("expires", .text text),
    ("caveat", .object [("type", .text "ExpirationCaveat"), ("expires", .text text)])]

/-- The same root as a capability. -/
def endingRoot (t : Stamp) : Capability :=
  { rootHeldBy "did:example:alice" with expires := some t, caveats := [.expiration t] }

/-- Ten in the evening of the last of June 2026, in UTC. -/
def juneEvening : Stamp := ⟨⟨739796 * Time.day + 22 * 3600 * Time.second, by decide⟩, .utc⟩

/-- The same time by clocks that are two hours and fifteen and a half seconds ahead. -/
def juneEveningAhead : Stamp :=
  ⟨⟨739797 * Time.day + 15500000, by decide⟩, ⟨7215500000, by decide⟩⟩

/-- Noon of the first of June 2026, by clocks two hours ahead of UTC. -/
def juneNoonAhead : Stamp :=
  ⟨⟨739767 * Time.day + 14 * 3600 * Time.second, by decide⟩, ⟨7200 * Time.second, by decide⟩⟩

/-- A hearing of a root that is at hand, under a demand for proofs of the last five minutes. -/
def freshHearing (root : Capability) (created : Moment) (now : Stamp) : Hearing where
  answer := (Store.ofList [root]).resolve
  demands := [.created (.around none ⟨now.civil, some now.offset⟩ ⟨300 * Time.second⟩)]
  now := now
  proof := { submitted root with created := some created }

/-- The end of a root is written once by clocks with half a second in their offset, and once
without any offset.  Reports do not tell the two apart.  At the very instant of the end, by
whichever clocks, a check does not grant any more. -/
theorem ending_root_reported_same :
    Capability.read .builtIn (.object (endingFields "2026-07-01T00:00:15.5+02:00:15.5"))
      = .ok (endingRoot juneEveningAhead) ∧
    Capability.read .builtIn (.object (endingFields "2026-06-30T22:00:00"))
      = .ok (endingRoot juneEvening) ∧
    ∀ inv, (freshHearing (endingRoot juneEvening) ⟨juneNoonAhead.civil, some juneNoonAhead.offset⟩
          juneNoon).report .builtIn inv
        = (freshHearing (endingRoot juneEveningAhead) ⟨juneNoon.civil, none⟩
            juneNoonAhead).report .builtIn inv ∧
      (inv.action = "read" → ¬ (freshHearing (endingRoot juneEveningAhead) ⟨juneNoon.civil, none⟩
            juneEvening).Grants .builtIn inv) := by
  have hread : Capability.read .builtIn
      (.object (endingFields "2026-07-01T00:00:15.5+02:00:15.5"))
      = .ok (endingRoot juneEveningAhead) :=
    Capability.read_eq_ok_iff.mpr ⟨rfl, Capability.validateChain_of_root rfl⟩
  have hread' : Capability.read .builtIn (.object (endingFields "2026-06-30T22:00:00"))
      = .ok (endingRoot juneEvening) :=
    Capability.read_eq_ok_iff.mpr ⟨rfl, Capability.validateChain_of_root rfl⟩
  have hsame : SameTime (.text "2026-07-01T00:00:15.5+02:00:15.5") (.text "2026-06-30T22:00:00") :=
    @SameTime.texts _ _ ⟨juneEveningAhead.civil, some juneEveningAhead.offset⟩
      ⟨juneEvening.civil, none⟩ rfl rfl (by decide)
  have hretimed : Capability.Retimed (endingFields "2026-07-01T00:00:15.5+02:00:15.5")
      (endingFields "2026-06-30T22:00:00") := by
    refine ⟨hsame, fun docs hdocs => ?_, fun name hexpires hcaveat => ?_⟩
    · cases hdocs
      refine ⟨_, rfl, .cons (.object hsame fun name hname => ?_) .nil⟩
      simp [Document.field, Table.lookup_entry, hname]
    · simp [endingFields, Table.lookup_entry, hexpires, hcaveat]
  refine ⟨hread, hread', fun inv => ?_⟩
  obtain ⟨hdocuments, hstores, hreports, hends, -⟩ := instants_law .builtIn inv
  obtain ⟨c', hc', hrezoned⟩ := hdocuments _ _ _ hretimed hread
  cases hread'.symm.trans hc'
  refine ⟨hreports _ _ ⟨fun uri => hstores _ _ uri (.cons hrezoned .nil), ?_, by decide, ?_⟩, ?_⟩
  · exact .cons (.created _ rfl (by decide)) .nil
  · exact ⟨.some hrezoned, rfl, rfl, by decide⟩
  · intro haction hgrants
    -- The end of the root binds, and the time of the check has come to it.
    have hbinds := ((hends (freshHearing (endingRoot juneEveningAhead) ⟨juneNoon.civil, none⟩
      juneEvening) juneEvening).mp hgrants).2
    have hanchor : anchor .builtIn (endingRoot juneEveningAhead) "read" inv
        = .ok "urn:zcap:root" :=
      anchor_eq_ok_iff.mpr ⟨by decide, haction, (leadsTo_nil rfl).mpr rfl⟩
    exact absurd (hbinds juneEveningAhead
      ⟨_, _, _, rfl, hanchor, rfl, .inl (List.mem_append_right _ (.head _))⟩) (by decide)

end Verification

end Mandate
