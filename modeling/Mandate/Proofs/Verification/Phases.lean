/-
  Mandate.Proofs.Verification.Phases
  ────────────────────────────────
  **WHEN A PHASE PASSES.**

  A check goes through phases, and each of them ends well or in a failure.  Here
  every phase gets the condition under which it ends well, said of the
  capabilities and the invocation alone, without a word about failures.

  Main results:
    * `anchor_eq_ok_iff`             — the action is permitted and expected, and the
                                       chain leads to one name;
    * `checkRestrictions_eq_ok_iff`  — no caveat and no end of validity stands
                                       against the use;
    * `judge_eq_ok_iff`              — the root permits the action, agrees on the
                                       target and is the expected one, and nothing
                                       restricts either capability;
    * `checkInvoker_eq_ok_iff`       — the signer is one of the invokers;
    * `accepts_iff_phases`           — a whole check accepts exactly if every phase
                                       passes.
-/
import Mandate.Proofs.Success
import Mandate.Verification.Verifier

namespace Mandate

open Json (Value)
open Time (Stamp)

/-! ## §1. Actions. -/

/-- An action that a capability does not restrict: it lists no actions, or it is
asked for none in particular, or it lists this one. -/
def Capability.Permits (c : Capability) (action : Text) : Prop :=
  c.allowedAction = [] ∨ action = "" ∨ .text action ∈ c.allowedAction

instance (c : Capability) (action : Text) : Decidable (c.Permits action) :=
  inferInstanceAs (Decidable (_ ∨ _ ∨ _))

theorem Capability.excludes_eq_false_iff {c : Capability} {action : Text} :
    c.excludes action = false ↔ c.Permits action := by
  simp only [excludes, Permits, Bool.and_eq_false_iff, Bool.not_eq_false', List.isEmpty_iff,
    Text.isEmpty_iff, List.contains_iff_mem, or_assoc]

/-- Which actions a capability excludes follows from the ones that it lists. -/
theorem Capability.excludes_congr {c c' : Capability} (h : c'.allowedAction = c.allowedAction)
    (action : Text) : c'.excludes action = c.excludes action := by
  unfold excludes
  rw [h]

/-! ## §2. Restrictions. -/

/-- A caveat that does not stand against an occasion. -/
def Caveat.Holds (o : Occasion) : Caveat → Prop
  | .expiration expires => o.now.instant < expires.instant
  | .allowedAction actions => o.action ∈ actions
  | .invocationTarget target => o.target = target
  | .declared _ text => text = none

instance (o : Occasion) : (k : Caveat) → Decidable (k.Holds o)
  | .expiration _ => inferInstanceAs (Decidable (_ < _))
  | .allowedAction _ => inferInstanceAs (Decidable (_ ∈ _))
  | .invocationTarget _ => inferInstanceAs (Decidable (_ = _))
  | .declared _ _ => inferInstanceAs (Decidable (_ = none))

theorem Occasion.reached_eq_false_iff (o : Occasion) {t : Stamp} :
    o.reached t = false ↔ o.now.instant < t.instant := by
  simp [reached]

theorem Caveat.check_eq_ok_iff {o : Occasion} {k : Caveat} :
    k.check o = .ok () ↔ k.Holds o := by
  cases k with
  | expiration expires =>
      rw [check, guard_eq_ok_iff bind_error_ne_ok, Bool.not_eq_true, o.reached_eq_false_iff]
      simp [Holds]
  | allowedAction actions =>
      rw [check, ite_ok_error_iff, List.contains_iff_mem, Holds]
  | invocationTarget target => rw [check, ite_ok_error_iff, Holds]
  | declared type text => cases text <;> simp [check, Holds]

namespace Verification

/-- Nothing in a capability stands against its use on an occasion. -/
structure Unrestricted (o : Occasion) (c : Capability) : Prop where
  caveats : ∀ k ∈ c.caveats, k.Holds o
  /-- The end of validity, where there is one, is ahead. -/
  current : ∀ t, c.expires = some t → o.now.instant < t.instant

instance (o : Occasion) (c : Capability) : Decidable (Unrestricted o c) :=
  decidable_of_iff
    ((∀ k ∈ c.caveats, k.Holds o) ∧ ∀ t ∈ c.expires, o.now.instant < t.instant)
    ⟨fun h => ⟨h.1, h.2⟩, fun h => ⟨h.caveats, h.current⟩⟩

/-- A capability without caveats and without an end is never restricted. -/
theorem Unrestricted.of_free {o : Occasion} {c : Capability} (hcaveats : c.caveats = [])
    (hexpires : c.expires = none) : Unrestricted o c :=
  ⟨by simp [hcaveats], by simp [hexpires]⟩

theorem checkRestrictions_eq_ok_iff {o : Occasion} {c : Capability} :
    checkRestrictions o c = .ok () ↔ Unrestricted o c := by
  have hcaveats : (∀ k ∈ c.caveats, k.check o = .ok ()) ↔ ∀ k ∈ c.caveats, k.Holds o :=
    forall₂_congr fun _ _ => Caveat.check_eq_ok_iff
  rw [checkRestrictions, bind_unit_eq_ok_iff, forM_eq_ok_iff, hcaveats]
  constructor
  · rintro ⟨hholds, hexpires⟩
    refine ⟨hholds, fun t ht => ?_⟩
    rw [ht] at hexpires
    rw [← o.reached_eq_false_iff, ← Bool.not_eq_true]
    exact ((guard_eq_ok_iff bind_error_ne_ok).mp hexpires).1
  · rintro ⟨hholds, hcurrent⟩
    refine ⟨hholds, ?_⟩
    cases ht : c.expires with
    | none => rfl
    | some t =>
        have hahead : o.reached t = false := o.reached_eq_false_iff.mpr (hcurrent t ht)
        simp [hahead]

/-! ## §3. The chain. -/

/-- The chain of a capability has a supported shape and leads to a root of this
name. -/
def LeadsTo (known : Registry) (c : Capability) (uri : Text) : Prop :=
  ∃ es, c.entries known = .ok es ∧ Capability.checkChain c.parent es = .ok () ∧
    rootName c es = .ok uri

theorem anchor_eq_ok_iff {known : Registry} {c : Capability} {action : Text}
    {inv : Invocation} {uri : Text} :
    anchor known c action inv = .ok uri ↔
      c.Permits action ∧ inv.action = action ∧ LeadsTo known c uri := by
  rw [anchor, guard_eq_ok_iff (by simp), guard_eq_ok_iff (by simp), Bool.not_eq_true,
    c.excludes_eq_false_iff, Decidable.not_not]
  refine and_congr_right fun _ => and_congr_right fun _ => ?_
  unfold LeadsTo
  cases hes : c.entries known with
  | error f => simp
  | ok es =>
      cases hchain : Capability.checkChain c.parent es with
      | error f => simp [hchain]
      | ok u => cases hname : rootName c es <;> simp [hchain, hname]

/-- One hop at most: a capability is its own root, or it names its root and has no
other parent. -/
def RootedAt (c : Capability) (uri : Text) : Prop :=
  (c.chain = [] ∧ uri = c.id) ∨
    (c.chain = [.text uri] ∧ uri ≠ "" ∧ (c.parent = none ∨ c.parent = some uri))

instance (c : Capability) (uri : Text) : Decidable (RootedAt c uri) :=
  inferInstanceAs (Decidable (_ ∨ _))

theorem RootedAt.eq {c : Capability} {uri uri' : Text} (h : RootedAt c uri)
    (h' : RootedAt c uri') : uri = uri' := by
  rcases h with ⟨hc, rfl⟩ | ⟨hc, -, -⟩ <;> rcases h' with ⟨hc', rfl⟩ | ⟨hc', -, -⟩ <;>
    simp_all

theorem leadsTo_nil {known : Registry} {c : Capability} {uri : Text} (h : c.chain = []) :
    LeadsTo known c uri ↔ uri = c.id := by
  simp [LeadsTo, Capability.entries, h, Capability.readEntries, Capability.checkChain, rootName,
    eq_comm]

theorem checkParent_eq_ok_iff {parent : Option Text} {last : Capability.ChainEntry} :
    Capability.checkParent parent last = .ok () ↔ parent = none ∨ parent = some last.id := by
  cases parent with
  | none => simp [Capability.checkParent]
  | some expected =>
      show (if last.id = expected then Except.ok () else .error _) = _ ↔ _
      rw [ite_ok_error_iff]
      simp [eq_comm]

theorem leadsTo_text {known : Registry} {c : Capability} {root uri : Text}
    (h : c.chain = [.text root]) :
    LeadsTo known c uri ↔
      root ≠ "" ∧ (c.parent = none ∨ c.parent = some root) ∧ uri = root := by
  have hes : c.entries known = .ok [.root root] := by
    simp [Capability.entries, h, Capability.readEntries]
  by_cases hroot : root = ""
  · -- The empty name is refused by the shape, before the parent is looked at.
    subst hroot
    simp [LeadsTo, hes, Capability.checkChain]
  · have hcheck : Capability.checkChain c.parent [.root root] = .ok () ↔
        c.parent = none ∨ c.parent = some root := by
      have hshape : Capability.checkChain c.parent [.root root]
          = Capability.checkParent c.parent (.root root) := by
        rw [Capability.checkChain]
        · rfl
        · simpa using hroot
      rw [hshape]
      exact checkParent_eq_ok_iff
    constructor
    · rintro ⟨es, hes', hshape, hname⟩
      rw [hes] at hes'
      cases hes'
      cases hname
      exact ⟨hroot, hcheck.mp hshape, rfl⟩
    · rintro ⟨-, hparent, rfl⟩
      exact ⟨_, hes, hcheck.mpr hparent, rfl⟩

/-- What stands first in a chain that leads to a root is the root's name. -/
theorem LeadsTo.chain_eq {known : Registry} {c : Capability} {uri : Text}
    (h : LeadsTo known c uri) :
    (c.chain = [] ∧ uri = c.id) ∨ ∃ rest, c.chain = .text uri :: rest := by
  cases hchain : c.chain with
  | nil => exact .inl ⟨rfl, (leadsTo_nil hchain).mp h⟩
  | cons v vs =>
      obtain ⟨es, hes, -, hname⟩ := h
      refine .inr ⟨vs, ?_⟩
      rw [Capability.entries, hchain] at hes
      -- A text is the name of the root, a document in its place names none, and
      -- anything else is not read as an entry.
      cases v with
      | text s =>
          rw [Capability.readEntries] at hes
          split at hes
          next => cases hes
          next rest _ =>
            cases hes
            cases hname
            rfl
      | object fields =>
          rw [Capability.readEntries] at hes
          split at hes
          next => cases hes
          next d _ =>
            split at hes
            next => cases hes
            next rest _ =>
              cases hes
              cases hname
      | _ => simp [Capability.readEntries] at hes

/-- Where a chain has no more than one entry, its shape is supported exactly if it
is a hop to that root. -/
theorem leadsTo_iff_rootedAt (known : Registry) {c : Capability} {uri : Text}
    (h : c.chain.length ≤ 1) : LeadsTo known c uri ↔ RootedAt c uri := by
  constructor
  · intro hleads
    rcases hleads.chain_eq with hroot | ⟨rest, hrest⟩
    · exact .inl hroot
    · have hnil : rest = [] := by simpa [hrest] using h
      rw [hnil] at hrest
      obtain ⟨hne, hparent, -⟩ := (leadsTo_text hrest).mp hleads
      exact .inr ⟨hrest, hne, hparent⟩
  · rintro (⟨hchain, huri⟩ | ⟨hchain, hne, hparent⟩)
    · exact (leadsTo_nil hchain).mpr huri
    · exact (leadsTo_text hchain).mpr ⟨hne, hparent, rfl⟩

/-! ## §4. The root. -/

/-- A root is the one that is expected; where none is expected, it is its own
target. -/
def IsExpected (inv : Invocation) (root : Capability) : Prop :=
  (inv.root ≠ "" → inv.root = root.id) ∧ (inv.root = "" → root.target.id = root.id)

instance (inv : Invocation) (root : Capability) : Decidable (IsExpected inv root) :=
  inferInstanceAs (Decidable ((_ → _) ∧ (_ → _)))

theorem checkRoot_eq_ok_iff {root : Capability} {inv : Invocation} :
    checkRoot root inv = .ok () ↔ IsExpected inv root := by
  rw [checkRoot, guard_eq_ok_iff (by simp), guard_eq_ok_iff (by simp), IsExpected]
  by_cases h : inv.root = "" <;> simp [h]

theorem checkTarget_eq_ok_iff {root : Capability} {inv : Invocation} :
    checkTarget root inv = .ok () ↔ inv.target = "" ∨ inv.target = root.target.id := by
  rw [checkTarget, guard_eq_ok_iff (by simp)]
  by_cases h : inv.target = "" <;> simp [h]

/-- Once the root agrees on the target, restrictions are held against the root's
target, expected or not. -/
theorem occasion_eq {now : Stamp} {action : Text} {inv : Invocation} {root : Capability}
    (h : inv.target = "" ∨ inv.target = root.target.id) :
    occasion now action inv root = { now, action, target := root.target.id } := by
  rcases h with h | h
  · simp [occasion, h]
  · by_cases hempty : inv.target = "" <;> simp [occasion, hempty, h]

theorem judge_eq_ok_iff {now : Stamp} {c : Capability} {action : Text} {inv : Invocation}
    {root : Capability} :
    judge now c action inv root = .ok () ↔
      root.Permits action ∧ (inv.target = "" ∨ inv.target = root.target.id) ∧
      Unrestricted (occasion now action inv root) root ∧ IsExpected inv root ∧
      (c.chain = [] ∨ c.chain.length = 1 ∧ Unrestricted (occasion now action inv root) c) := by
  -- Behind the root there are three ways on: no chain, one hop, or too many.
  have hhop : (if c.isRoot then (.ok () : Except Failure Unit)
      else if 1 < c.chain.length then .error (.denied (.chainDepth c.id c.chain.length))
      else checkRestrictions (occasion now action inv root) c) = .ok () ↔
      (c.chain = [] ∨
        c.chain.length = 1 ∧ Unrestricted (occasion now action inv root) c) := by
    by_cases hc : c.chain = []
    · simp [Capability.isRoot, hc]
    · have hpos : 0 < c.chain.length := List.length_pos_iff.mpr hc
      have hlen : ¬ 1 < c.chain.length ↔ c.chain.length = 1 := by omega
      rw [if_neg (by simpa [Capability.isRoot] using hc), guard_eq_ok_iff (by simp), hlen,
        checkRestrictions_eq_ok_iff]
      simp [hc]
  rw [judge, guard_eq_ok_iff (by simp [bind, Except.bind]), Bool.not_eq_true,
    root.excludes_eq_false_iff]
  show _ ∧ (checkTarget root inv >>= fun _ => _) = _ ↔ _
  rw [bind_unit_eq_ok_iff, checkTarget_eq_ok_iff, bind_unit_eq_ok_iff,
    checkRestrictions_eq_ok_iff, bind_unit_eq_ok_iff, checkRoot_eq_ok_iff, hhop]

end Verification

/-! ## §5. The signer. -/

namespace Capability

theorem properTexts_map {names : List Text} (h : ("" : Text) ∉ names) :
    properTexts (names.map .text) = .ok names := by
  induction names with
  | nil => rfl
  | cons s names ih =>
      rw [List.mem_cons, not_or] at h
      have hs : Document.properText? (.text s) = some s :=
        Document.properText?_eq_some.mpr ⟨rfl, by simpa using Ne.symm h.1⟩
      simp [properTexts, hs, ih h.2, Except.map]

theorem eq_of_properTexts {vs : List Value} {names : List Text}
    (h : properTexts vs = .ok names) : vs = names.map .text ∧ ("" : Text) ∉ names := by
  induction vs generalizing names with
  | nil =>
      cases h
      exact ⟨rfl, List.not_mem_nil⟩
  | cons v vs ih =>
      rw [properTexts] at h
      split at h
      next s hs =>
        obtain ⟨rfl, hne⟩ := Document.properText?_eq_some.mp hs
        cases hvs : properTexts vs with
        | error e =>
            rw [hvs] at h
            cases h
        | ok rest =>
            rw [hvs] at h
            cases h
            obtain ⟨rfl, hrest⟩ := ih hvs
            have hs : (.plain "") ≠ s := by
              rintro rfl
              exact absurd hne (by decide)
            exact ⟨rfl, by simp [hs, hrest]⟩
      next => cases h

theorem invokerNames_eq_ok_iff {c : Capability} {names : List Text} :
    c.invokerNames = .ok names ↔ c.invokerEntries = names.map .text ∧ ("" : Text) ∉ names := by
  constructor
  · exact eq_of_properTexts
  · rintro ⟨hentries, hproper⟩
    rw [invokerNames, hentries]
    exact properTexts_map hproper

/-- The entries for invokers are names, none of them empty, and the method or its
controller is among them. -/
def Empowers (c : Capability) (m : Method) : Prop :=
  ∃ names : List Text, c.invokerEntries = names.map .text ∧ ("" : Text) ∉ names ∧
    (m.id ∈ names ∨ m.controller ≠ "" ∧ m.controller ∈ names)

theorem lists_eq_true_iff {names : List Text} {m : Method} :
    lists names m = true ↔ m.id ∈ names ∨ m.controller ≠ "" ∧ m.controller ∈ names := by
  simp [lists]

theorem empowers_iff {c : Capability} {m : Method} :
    c.Empowers m ↔ ∃ names, c.invokerNames = .ok names ∧ lists names m = true := by
  simp only [Empowers, invokerNames_eq_ok_iff, lists_eq_true_iff, and_assoc]

instance (c : Capability) (m : Method) : Decidable (c.Empowers m) :=
  match h : c.invokerNames with
  | .error _ => isFalse fun hm => by
      obtain ⟨_, hnames, -⟩ := empowers_iff.mp hm
      cases h.symm.trans hnames
  | .ok names =>
      decidable_of_iff (lists names m = true)
        ⟨fun hm => empowers_iff.mpr ⟨names, h, hm⟩, fun hm => by
          obtain ⟨_, hnames, hm⟩ := empowers_iff.mp hm
          cases h.symm.trans hnames
          exact hm⟩

theorem invokers_eq_ok_iff {c : Capability} {names : List Text} :
    c.invokers = .ok names ↔ c.invokerNames = .ok names :=
  mapError_eq_ok_iff

theorem empowers_iff_invokers {c : Capability} {m : Method} :
    c.Empowers m ↔ ∃ names, c.invokers = .ok names ∧
      (m.id ∈ names ∨ m.controller ≠ "" ∧ m.controller ∈ names) := by
  simp only [empowers_iff, invokers_eq_ok_iff, lists_eq_true_iff]

theorem isInvoker_eq_ok_true_iff {c : Capability} {m : Method} :
    c.isInvoker m = .ok true ↔ c.Empowers m := by
  simp only [empowers_iff, isInvoker, ← invokers_eq_ok_iff]
  cases c.invokers <;> simp [Except.map]

end Capability

namespace Verification

/-- Of a capability, only the name and the entries for those who may invoke it count when the
signer is looked for. -/
theorem checkInvoker_congr {c c' : Capability} (hid : c'.id = c.id)
    (hentries : c'.invokerEntries = c.invokerEntries) (m : Method) :
    checkInvoker c' m = checkInvoker c m := by
  unfold checkInvoker Capability.invokerNames
  rw [hentries, hid]

theorem checkInvoker_eq_ok_iff {c : Capability} {m : Method} :
    checkInvoker c m = .ok () ↔ c.Empowers m := by
  rw [Capability.empowers_iff, checkInvoker]
  cases c.invokerNames with
  | error v => simp
  | ok names => simp

theorem assess_eq_ok_iff {now : Stamp} {c : Capability} {action : Text} {inv : Invocation}
    {uri : Text} {answer : Except Failure Capability} :
    assess now c action inv uri answer = .ok () ↔
      ∃ root, answer = .ok root ∧ judge now c action inv root = .ok () ∧
        c.Empowers inv.method := by
  rw [assess, bind_unit_eq_ok_iff, mapError_eq_ok_iff, checkInvoker_eq_ok_iff]
  cases answer <;> simp [judgeAnswer]

/-! ## §6. The purposes. -/

theorem meet_eq_ok_iff {proof : Proof} {inv : Invocation} {ps : List (Purpose Id)} :
    meet proof inv ps = .ok () ↔ ∀ p ∈ ps, p proof inv = .ok () := by
  induction ps with
  | nil => simp [meet, pure]
  | cons p ps ih =>
      rw [meet, List.forall_mem_cons, ← ih]
      cases hp : p proof inv with
      | error e => simp [bind, pure]
      | ok u => simp [bind]

end Verification

/-! ## §7. A whole check. -/

namespace Verifier

open Verification

/-- A check with collaborators that answer at once ends well. -/
def Accepts (v : Verifier Id) (proof : Proof) (inv : Invocation) : Prop :=
  v.verify proof inv = .ok ()

/-- The record of a verdict is no part of it. -/
theorem verify_eq_examine (v : Verifier Id) (proof : Proof) (inv : Invocation) :
    v.verify proof inv = v.examine proof inv := by
  unfold verify
  cases h : event? proof (v.examine proof inv) <;> simp [bind, h, pure]

/-- Once there is a root to ask for, the phases follow one another. -/
theorem examine_of_anchor {v : Verifier Id} {proof : Proof} {inv : Invocation} {c : Capability}
    {uri : Text} (hc : proof.capability = some c)
    (huri : anchor v.known c proof.action inv = .ok uri) :
    v.examine proof inv =
      ((assess v.now c proof.action inv uri (v.resolve uri)) >>= fun _ =>
        (meet proof inv v.purposes : Except Failure Unit) : Except Failure Unit) := by
  simp only [examine, hc, huri]
  cases h : assess v.now c proof.action inv uri (v.resolve uri) <;>
    simp [bind, Except.bind, pure, h]

/-- Without a root to ask for, nothing is accepted. -/
theorem exists_anchor_of_examine {v : Verifier Id} {proof : Proof} {inv : Invocation}
    (h : v.examine proof inv = .ok ()) :
    ∃ c uri, proof.capability = some c ∧ anchor v.known c proof.action inv = .ok uri := by
  rw [examine] at h
  split at h
  next => cases h
  next c hc =>
    split at h
    next => cases h
    next uri huri => exact ⟨c, uri, hc, huri⟩

theorem accepts_iff_phases {v : Verifier Id} {proof : Proof} {inv : Invocation} :
    v.Accepts proof inv ↔
      ∃ c uri root, proof.capability = some c ∧ anchor v.known c proof.action inv = .ok uri ∧
        v.resolve uri = .ok root ∧ judge v.now c proof.action inv root = .ok () ∧
        c.Empowers inv.method ∧ ∀ p ∈ v.purposes, p proof inv = .ok () := by
  rw [Accepts, verify_eq_examine]
  constructor
  · intro h
    obtain ⟨c, uri, hc, huri⟩ := exists_anchor_of_examine h
    rw [examine_of_anchor hc huri] at h
    obtain ⟨hassess, hmeet⟩ := bind_unit_eq_ok_iff.mp h
    obtain ⟨root, hroot, hjudge, hsigner⟩ := assess_eq_ok_iff.mp hassess
    exact ⟨c, uri, root, hc, huri, hroot, hjudge, hsigner, meet_eq_ok_iff.mp hmeet⟩
  · rintro ⟨c, uri, root, hc, huri, hroot, hjudge, hsigner, hpurposes⟩
    rw [examine_of_anchor hc huri]
    exact bind_unit_eq_ok_iff.mpr
      ⟨assess_eq_ok_iff.mpr ⟨root, hroot, hjudge, hsigner⟩, meet_eq_ok_iff.mpr hpurposes⟩

end Verifier

end Mandate
