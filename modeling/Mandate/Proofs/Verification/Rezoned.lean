/-
  Mandate.Proofs.Verification.Rezoned
  ────────────────────────────────
  **THE CHAIN PHASE LOOKS AT INSTANTS.**

  A capability and its root may be written by the clocks of any place, and so may the time of
  a check.  No phase can tell: the root that is asked for follows from what is not a time,
  restrictions compare instants, and whatever is said about a time is said in UTC, in denials
  and in reports.

  Main results:
    * `checkRestrictions_rezoned`  — restrictions deny with the same words;
    * `anchor_rezoned`             — the chain leads to the same root, or to the same denial;
    * `judge_rezoned`              — the root is judged the same;
    * `assess_rezoned`             — so is the answer to the question for it;
    * `Verdict.toJson_congr`       — the time of a verdict is told by its instant;
    * `sameAnswer_ofList`          — a store of rezoned capabilities answers the same.
-/
import Mandate.Proofs.Capability.Rezoned
import Mandate.Proofs.Verification.Phases
import Mandate.Resolver.Store

namespace Mandate

open Time (Stamp)

/-- Answers of a resolver that differ by the clocks of a capability at most. -/
inductive SameAnswer : Except Failure Capability → Except Failure Capability → Prop
  | ok {c c' : Capability} (h : c.Rezoned c') : SameAnswer (.ok c) (.ok c')
  | error (e : Failure) : SameAnswer (.error e) (.error e)

namespace Verification

variable {known : Registry} {c c' root root' : Capability} {now now' : Stamp}

/-! ## §1. Restrictions. -/

theorem checkRestrictions_rezoned {o o' : Occasion} (ho : o.Rezoned o') (h : c.Rezoned c') :
    checkRestrictions o' c' = checkRestrictions o c := by
  have hcaveats : c'.caveats.forM (Caveat.check o') = c.caveats.forM (Caveat.check o) :=
    forM_congr (h.caveats.imp fun _ _ hk => hk.check ho)
  have hexpires := h.expires
  unfold checkRestrictions
  rw [hcaveats, h.id]
  -- Both of them have an end, or neither of them has.
  cases ht : c.expires with
  | none =>
      rw [ht, Option.map_none, Option.map_eq_none_iff] at hexpires
      rw [hexpires]
  | some t =>
      rw [ht] at hexpires
      obtain ⟨t', ht', hinstant⟩ := Option.map_eq_some_iff.mp hexpires
      rw [ht']
      simp only [ho.reached hinstant, Time.timeText_congr hinstant]

/-! ## §2. The root. -/

theorem anchor_rezoned (h : c.Rezoned c') (action : Text) (inv : Invocation) :
    anchor known c' action inv = anchor known c action inv := by
  have hentries : c'.entries known = c.entries known := by
    unfold Capability.entries
    rw [h.chain]
  have hname : ∀ es, rootName c' es = rootName c es := by
    intro es
    unfold rootName
    rw [h.id]
  unfold anchor
  simp only [Capability.excludes_congr h.allowedAction, h.allowedAction, hentries, h.parent, hname]

/-- The occasion by another clock, with the root by yet another one. -/
theorem occasion_rezoned (hnow : now'.instant = now.instant) (h : root.Rezoned root')
    (action : Text) (inv : Invocation) :
    (occasion now action inv root).Rezoned (occasion now' action inv root') := by
  refine ⟨hnow, rfl, ?_⟩
  unfold occasion
  simp only [h.target]

/-- Whether a root authorizes an action does not depend on the clocks by which the root, the
capability and the time are written. -/
theorem judge_rezoned (hnow : now'.instant = now.instant) (hc : c.Rezoned c')
    (hroot : root.Rezoned root') (action : Text) (inv : Invocation) :
    judge now' c' action inv root' = judge now c action inv root := by
  have ho := occasion_rezoned hnow hroot action inv
  have htarget : checkTarget root' inv = checkTarget root inv := by
    unfold checkTarget
    rw [hroot.target]
  have hexpected : checkRoot root' inv = checkRoot root inv := by
    unfold checkRoot
    rw [hroot.id, hroot.target]
  have hisRoot : c'.isRoot = c.isRoot := by
    unfold Capability.isRoot
    rw [hc.chain]
  unfold judge
  rw [Capability.excludes_congr hroot.allowedAction, hroot.allowedAction, hroot.id, htarget,
    hexpected, hisRoot, hc.chain, hc.id, checkRestrictions_rezoned ho hroot,
    checkRestrictions_rezoned ho hc]

theorem assess_rezoned (hnow : now'.instant = now.instant) (hc : c.Rezoned c')
    {answer answer' : Except Failure Capability} (hanswer : SameAnswer answer answer')
    (action : Text) (inv : Invocation) (uri : Text) :
    assess now' c' action inv uri answer' = assess now c action inv uri answer := by
  have hjudge : judgeAnswer now' c' action inv uri answer'
      = judgeAnswer now c action inv uri answer := by
    cases hanswer with
    | ok hroot => exact judge_rezoned hnow hc hroot action inv
    | error e => rfl
  unfold assess
  rw [hjudge, checkInvoker_congr hc.id hc.invokerEntries]

/-! ## §3. Reports. -/

/-- Of the time of a check, a report has the text in UTC. -/
theorem Verdict.toJson_congr {x x' : Verdict} (hcapability : x'.capability = x.capability)
    (haction : x'.action = x.action) (hchecked : x'.checkedAt.instant = x.checkedAt.instant)
    (hfault : x'.fault = x.fault) : x'.toJson = x.toJson := by
  unfold Verdict.toJson Verdict.fields Verdict.isValid
  rw [hcapability, haction, hfault, Time.timeText_congr hchecked]

end Verification

/-! ## §4. Stores. -/

namespace Store

/-- Stores that answer the same to every question. -/
def Rezoned (s s' : Store) : Prop := ∀ uri, SameAnswer (s.resolve uri) (s'.resolve uri)

theorem Rezoned.add {s s' : Store} (h : s.Rezoned s') {c c' : Capability} (hc : c.Rezoned c') :
    (s.add c).Rezoned (s'.add c') := by
  intro uri
  have hanswer := h uri
  unfold resolve at hanswer ⊢
  unfold Store.add
  rw [Table.lookup_put, Table.lookup_put, hc.id]
  by_cases huri : uri = c.id
  · rw [if_pos huri, if_pos huri]
    exact .ok hc
  · rw [if_neg huri, if_neg huri]
    exact hanswer

/-- Capabilities that are rezoned one by one are found rezoned. -/
theorem sameAnswer_ofList {cs cs' : List Capability} (h : List.Forall₂ Capability.Rezoned cs cs')
    (uri : Text) : SameAnswer ((ofList cs).resolve uri) ((ofList cs').resolve uri) := by
  -- The stores that the two folds have come to answer the same at every step.
  suffices hfold : ∀ s s' : Store, s.Rezoned s' →
      Store.Rezoned (cs.foldl Store.add s) (cs'.foldl Store.add s') from
    hfold [] [] (fun _ => .error _) uri
  induction h with
  | nil => exact fun s s' hs => hs
  | cons hc hcs ih => exact fun s s' hs => ih _ _ (hs.add hc)

end Store

end Mandate
