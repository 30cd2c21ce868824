/-
  Mandate.Proofs.Verification.Verdicts
  ────────────────────────────────
  **WHEN A CHECK GIVES A VERDICT.**

  Every verdict leaves its event: a check either authorizes, or it denies and names the
  fault.  One thing stands in between.  A denial for a time that has come, or for a
  proof of another time, tells this time in UTC, and where UTC has no year for it the
  denial itself fails.  Then there is neither a verdict nor an event.

      StallsOn  — what restricts a capability first is such a time
      Stalls    — a whole check comes to such a denial

  Main results:
    * `examine_eq_ruling` — with a resolver and demands that answer at once, a check
                            comes down to one ruling;
    * `settles_ruling`    — a ruling ends well or in a fault, unless it stalls;
    * `verdict_law_iff`   — a check gives a verdict with its event exactly if it does
                            not stall.
-/
import Mandate.Proofs.Capability.Reading
import Mandate.Proofs.Resolver.Store
import Mandate.Proofs.Verification.Acceptance
import Mandate.Purpose.Controller
import Mandate.Purpose.Created

namespace Mandate

open Time (Stamp)

/-! ## §1. Steps that settle. -/

/-- A step ends well or in a fault, unless there is a time to be told for which UTC has
no year. -/
structure SettlesUnless (stalls : Prop) (x : Except Failure Unit) : Prop where
  error : ∀ e, x = .error e → (∃ f, e = .fault f) ∨ stalls ∧ e = .dateOutOfRange
  stall : stalls → x = .error .dateOutOfRange

namespace SettlesUnless

variable {p q : Prop} {x y : Except Failure Unit} {f : Unit → Except Failure Unit}

theorem ok : SettlesUnless False (.ok ()) := ⟨nofun, nofun⟩

theorem fault (f : Fault) : SettlesUnless False (.error (.fault f)) := by
  refine ⟨?_, nofun⟩
  rintro e ⟨⟩
  exact .inl ⟨f, rfl⟩

theorem outOfRange : SettlesUnless True (.error .dateOutOfRange) := by
  refine ⟨?_, fun _ => rfl⟩
  rintro e ⟨⟩
  exact .inr ⟨trivial, rfl⟩

theorem congr (h : SettlesUnless p x) (hiff : p ↔ q) : SettlesUnless q x := by
  rwa [← hiff]

/-- A sequence of two steps stalls in the first, or in the second behind a first that
ends well. -/
theorem bind (hx : SettlesUnless p x) (hf : ∀ u, SettlesUnless q (f u)) :
    SettlesUnless (p ∨ x = .ok () ∧ q) (x >>= f) := by
  refine ⟨fun e he => ?_, fun hstall => ?_⟩
  · rcases bind_unit_eq_error_iff.mp he with he | ⟨hok, he⟩
    · exact (hx.error e he).imp_right fun ⟨hp, he⟩ => ⟨.inl hp, he⟩
    · exact ((hf ()).error e he).imp_right fun ⟨hq, he⟩ => ⟨.inr ⟨hok, hq⟩, he⟩
  · refine bind_unit_eq_error_iff.mpr ?_
    exact hstall.imp hx.stall fun ⟨hok, hq⟩ => ⟨hok, (hf ()).stall hq⟩

/-- Steps over a list stall in one of them, behind others that end well. -/
theorem forM {α : Type} {f : α → Except Failure Unit} {p : α → Prop} {as : List α}
    (h : ∀ a, SettlesUnless (p a) (f a)) :
    SettlesUnless (∃ before a after, as = before ++ a :: after ∧
      (∀ b ∈ before, f b = .ok ()) ∧ p a) (as.forM f) := by
  refine ⟨fun e he => ?_, ?_⟩
  · obtain ⟨before, a, after, has, hbefore, ha⟩ := forM_eq_error_iff.mp he
    exact ((h a).error e ha).imp_right
      fun ⟨hp, he⟩ => ⟨⟨before, a, after, has, hbefore, hp⟩, he⟩
  · rintro ⟨before, a, after, has, hbefore, hp⟩
    exact forM_eq_error_iff.mpr ⟨before, a, after, has, hbefore, (h a).stall hp⟩

/-- A guard that turns to a fault leaves the rest to stall. -/
theorem guard {c : Prop} [Decidable c] {f : Fault} (hy : SettlesUnless p y) :
    SettlesUnless (¬ c ∧ p) (if c then .error (.fault f) else y) := by
  by_cases hc : c
  · rw [if_pos hc]
    exact (SettlesUnless.fault f).congr (by simp [hc])
  · rw [if_neg hc]
    exact hy.congr (by simp [hc])

/-- A denial that tells a time stalls exactly where UTC has no year for the time. -/
theorem telling (t : Stamp) (r : String → Reason) :
    SettlesUnless (t.inUtc? = none) (do .error (.denied (r (← Document.timeText t)))) := by
  unfold Document.timeText Stamp.documentText?
  cases t.inUtc? with
  | none => exact outOfRange.congr (by simp)
  | some u => exact (SettlesUnless.fault _).congr (by simp)

end SettlesUnless

namespace Verification

/-! ## §2. Restrictions. -/

/-- What restricts a capability first is a time that has come and that UTC has no year
for: the time of a caveat, or else the end of validity. -/
def StallsOn (o : Occasion) (c : Capability) : Prop :=
  (∃ before t after, c.caveats = before ++ .expiration t :: after ∧
    (∀ k ∈ before, k.Holds o) ∧ t.instant ≤ o.now.instant ∧ t.inUtc? = none) ∨
  (∀ k ∈ c.caveats, k.Holds o) ∧
    ∃ t, c.expires = some t ∧ t.instant ≤ o.now.instant ∧ t.inUtc? = none

theorem reached_eq_true_iff {o : Occasion} {t : Stamp} :
    o.reached t = true ↔ t.instant ≤ o.now.instant := by
  simp [Occasion.reached]

/-- A denial for a time that has come stalls where UTC has no year for it. -/
theorem settles_reached (o : Occasion) (t : Stamp) (r : String → Reason) :
    SettlesUnless (t.instant ≤ o.now.instant ∧ t.inUtc? = none)
      (if o.reached t then (do .error (.denied (r (← Document.timeText t)))) else .ok ()) := by
  by_cases ht : t.instant ≤ o.now.instant
  · rw [if_pos (reached_eq_true_iff.mpr ht)]
    exact (SettlesUnless.telling t r).congr (by simp [ht])
  · rw [if_neg fun hr => ht (reached_eq_true_iff.mp hr)]
    exact SettlesUnless.ok.congr (by simp [ht])

theorem settles_caveat (o : Occasion) (k : Caveat) :
    SettlesUnless (∃ t, k = .expiration t ∧ t.instant ≤ o.now.instant ∧ t.inUtc? = none)
      (k.check o) := by
  cases k with
  | expiration t => exact (settles_reached o t _).congr (by simp)
  | allowedAction actions =>
      rw [Caveat.check]
      split
      · exact SettlesUnless.ok.congr (by simp)
      · exact (SettlesUnless.fault _).congr (by simp)
  | invocationTarget target =>
      rw [Caveat.check]
      split
      · exact SettlesUnless.ok.congr (by simp)
      · exact (SettlesUnless.fault _).congr (by simp)
  | declared type text =>
      cases text with
      | none => exact SettlesUnless.ok.congr (by simp)
      | some text => exact (SettlesUnless.fault _).congr (by simp)

theorem settles_checkRestrictions (o : Occasion) (c : Capability) :
    SettlesUnless (StallsOn o c) (checkRestrictions o c) := by
  let ends : Prop := ∃ t, c.expires = some t ∧ t.instant ≤ o.now.instant ∧ t.inUtc? = none
  unfold checkRestrictions
  refine ((SettlesUnless.forM (settles_caveat o)).bind (q := ends) fun _ => ?_).congr ?_
  · cases hexpires : c.expires with
    | none => exact SettlesUnless.ok.congr (by simp [ends, hexpires])
    | some t => exact (settles_reached o t _).congr (by simp [ends, hexpires])
  · simp only [forM_eq_ok_iff, Caveat.check_eq_ok_iff, StallsOn, ends]
    refine or_congr_left ⟨?_, ?_⟩
    · rintro ⟨before, _, after, hsplit, hbefore, t, rfl, ht⟩
      exact ⟨before, t, after, hsplit, hbefore, ht⟩
    · rintro ⟨before, t, after, hsplit, hbefore, ht⟩
      exact ⟨before, _, after, hsplit, hbefore, t, rfl, ht⟩

/-! ## §3. The root. -/

theorem settles_checkTarget (root : Capability) (inv : Invocation) :
    SettlesUnless False (checkTarget root inv) :=
  (SettlesUnless.guard SettlesUnless.ok).congr (by simp)

theorem settles_checkRoot (root : Capability) (inv : Invocation) :
    SettlesUnless False (checkRoot root inv) :=
  (SettlesUnless.guard (SettlesUnless.guard SettlesUnless.ok)).congr (by simp)

/-- Judging by a root comes to a denial that stalls: over the root's own restrictions,
or behind them over those of a capability that is one hop away. -/
def StallsBy (now : Stamp) (c : Capability) (action : Text) (inv : Invocation)
    (root : Capability) : Prop :=
  root.Permits action ∧ (inv.target = "" ∨ inv.target = root.target.id) ∧
    (StallsOn (occasion now action inv root) root ∨
      Unrestricted (occasion now action inv root) root ∧ IsExpected inv root ∧
      c.chain.length = 1 ∧ StallsOn (occasion now action inv root) c)

/-- Nothing in a root and in a capability under it stands against the use. -/
def Cleared (now : Stamp) (c : Capability) (action : Text) (inv : Invocation)
    (root : Capability) : Prop :=
  root.Permits action ∧ (inv.target = "" ∨ inv.target = root.target.id) ∧
    Unrestricted (occasion now action inv root) root ∧ IsExpected inv root ∧
    (c.chain = [] ∨ c.chain.length = 1 ∧ Unrestricted (occasion now action inv root) c)

theorem settles_judge (now : Stamp) (c : Capability) (action : Text) (inv : Invocation)
    (root : Capability) :
    SettlesUnless (StallsBy now c action inv root) (judge now c action inv root) := by
  let o := occasion now action inv root
  let hop : Except Failure Unit :=
    if c.isRoot then .ok ()
    else if 1 < c.chain.length then .error (.denied (.chainDepth c.id c.chain.length))
    else checkRestrictions o c
  have hhop : SettlesUnless (c.chain.length = 1 ∧ StallsOn o c) hop := by
    by_cases hc : c.chain = []
    · rw [show hop = .ok () from if_pos (by simp [Capability.isRoot, hc])]
      exact SettlesUnless.ok.congr (by simp [hc])
    · have hpos : 0 < c.chain.length := List.length_pos_iff.mpr hc
      have hlen : ¬ 1 < c.chain.length ↔ c.chain.length = 1 := by omega
      rw [show hop = _ from if_neg (by simpa [Capability.isRoot] using hc)]
      exact (SettlesUnless.guard (settles_checkRestrictions o c)).congr
        (and_congr_left fun _ => hlen)
  have heq : judge now c action inv root =
      if root.excludes action then
        .error (.denied (.actionNotAllowedByRoot action root.allowedAction root.id))
      else checkTarget root inv >>= fun _ => checkRestrictions o root >>= fun _ =>
        checkRoot root inv >>= fun _ => hop := by
    unfold judge
    cases root.excludes action <;> rfl
  rw [heq]
  refine (SettlesUnless.guard ((settles_checkTarget root inv).bind fun _ =>
    (settles_checkRestrictions o root).bind fun _ =>
      (settles_checkRoot root inv).bind fun _ => hhop)).congr ?_
  simp only [Bool.not_eq_true, root.excludes_eq_false_iff, false_or, checkTarget_eq_ok_iff,
    checkRestrictions_eq_ok_iff, checkRoot_eq_ok_iff, StallsBy, o]

/-! ## §4. A whole ruling. -/

theorem settles_checkInvoker (c : Capability) (m : Method) :
    SettlesUnless False (checkInvoker c m) := by
  unfold checkInvoker
  split
  · exact SettlesUnless.fault _
  · split
    · exact SettlesUnless.ok
    · exact SettlesUnless.fault _

/-- A text in front of a denial changes nothing about stalling. -/
theorem settles_leadWith {p : Prop} {x : Except Failure Unit} (h : SettlesUnless p x)
    (lead : Text) : SettlesUnless p (x.mapError (leadWith lead)) := by
  refine ⟨fun e he => ?_, fun hp => ?_⟩
  · cases x with
    | ok u => cases he
    | error e' =>
        cases he
        rcases h.error e' rfl with ⟨f, rfl⟩ | ⟨hp, rfl⟩
        · cases f <;> exact .inl ⟨_, rfl⟩
        · exact .inr ⟨hp, rfl⟩
  · rw [h.stall hp]
    rfl

theorem settles_assess (now : Stamp) (c : Capability) (action : Text) (inv : Invocation)
    (uri : Text) (answer : Except Failure Capability) :
    SettlesUnless (∃ root, answer = .ok root ∧ StallsBy now c action inv root)
      (assess now c action inv uri answer) := by
  have hjudge : SettlesUnless (∃ root, answer = .ok root ∧ StallsBy now c action inv root)
      (judgeAnswer now c action inv uri answer) := by
    cases answer with
    | error e => exact (SettlesUnless.fault _).congr (by simp)
    | ok root => exact (settles_judge now c action inv root).congr (by simp)
  have hinvoker := settles_checkInvoker c inv.method
  exact ((settles_leadWith hjudge chainLead).bind fun _ => hinvoker).congr (by simp)

end Verification

/-! ## §5. Demands. -/

namespace Purpose

/-- A demand on proofs of one of the two kinds that the library brings along. -/
inductive Demand where
  /-- The proof was made within the window. -/
  | created (w : Window)
  /-- The method is authorized by the document of its controller. -/
  | controller (d : Directory)

namespace Demand

/-- The demand as a purpose, with documents at hand at once. -/
def purpose {m : Type → Type} [Monad m] : Demand → Mandate.Purpose m
  | .created w => w.purpose
  | .controller d => controllerPurpose fun name => pure (d.resolve name)

/-- Whether a proof meets the demand. -/
def check (proof : Proof) (inv : Invocation) : Demand → Except Failure Unit
  | .created w => w.check proof
  | .controller d => do
      checkSigner proof inv.method
      judgeController inv.method.principal inv.method.id (d.resolve inv.method.principal)

theorem purpose_eq {m : Type → Type} [Monad m] [LawfulMonad m] (d : Demand) (proof : Proof)
    (inv : Invocation) : (d.purpose : Mandate.Purpose m) proof inv = pure (d.check proof inv) := by
  cases d with
  | created w => rfl
  | controller d =>
      simp only [purpose, controllerPurpose, check]
      cases hsigner : checkSigner proof inv.method with
      | error e => rfl
      | ok u => simp [bind, Except.bind]

/-- A proof of another time is denied by telling its own time and the expected one, and
UTC has no year for one of them. -/
def Stalls (proof : Proof) : Demand → Prop
  | .created w => ∃ m, proof.created = some m ∧ w.covers m.stamp = false ∧
      (m.stamp.inUtc? = none ∨ w.expected.inUtc? = none)
  | .controller _ => False

theorem settles_window (w : Window) (proof : Proof) :
    SettlesUnless ((Demand.created w).Stalls proof) (w.check proof) := by
  unfold Window.check
  cases hcreated : proof.created with
  | none => exact (SettlesUnless.fault _).congr (by simp [Stalls, hcreated])
  | some m =>
      by_cases hcovers : w.covers m.stamp
      · simp only [if_pos hcovers]
        exact SettlesUnless.ok.congr (by simp [Stalls, hcreated, hcovers])
      · -- The proof's own time is told first, then the expected one.
        simp only [if_neg hcovers]
        unfold Document.timeText Stamp.documentText?
        have hstalls : (m.stamp.inUtc? = none ∨ w.expected.inUtc? = none) ↔
            (Demand.created w).Stalls proof := by simp [Stalls, hcreated, hcovers]
        refine SettlesUnless.congr ?_ hstalls
        cases m.stamp.inUtc? with
        | none => exact SettlesUnless.outOfRange.congr (by simp)
        | some u =>
            cases w.expected.inUtc? with
            | none => exact SettlesUnless.outOfRange.congr (by simp)
            | some u => exact (SettlesUnless.fault _).congr (by simp)

theorem settles_judgeController (controller method : Text) (d : Directory) :
    SettlesUnless False (judgeController controller method (d.resolve controller)) := by
  unfold Directory.resolve
  cases d.lookup controller with
  | none => exact SettlesUnless.fault _
  | some document =>
      have hlisted : SettlesUnless False (if document.authorizes method then .ok ()
          else .error (.denied (.methodUnauthorized controller method))) := by
        split
        · exact SettlesUnless.ok
        · exact SettlesUnless.fault _
      exact (SettlesUnless.guard hlisted).congr (by simp)

theorem settles_check (proof : Proof) (inv : Invocation) (d : Demand) :
    SettlesUnless (d.Stalls proof) (d.check proof inv) := by
  cases d with
  | created w => exact settles_window w proof
  | controller d =>
      have hsigner : SettlesUnless False (checkSigner proof inv.method) :=
        (SettlesUnless.guard SettlesUnless.ok).congr (by simp)
      have hjudge := settles_judgeController inv.method.principal inv.method.id d
      exact (hsigner.bind fun _ => hjudge).congr (by simp [Stalls])

/-- Demands are looked at one after the other. -/
theorem meet_eq {m : Type → Type} [Monad m] [LawfulMonad m] (ds : List Demand) (proof : Proof)
    (inv : Invocation) :
    Verification.meet proof inv (ds.map (·.purpose) : List (Mandate.Purpose m))
      = pure (ds.forM (·.check proof inv)) := by
  induction ds with
  | nil => rfl
  | cons d ds ih =>
      rw [List.map_cons, Verification.meet, purpose_eq, pure_bind,
        show (d :: ds).forM (·.check proof inv)
          = (d.check proof inv >>= fun _ => ds.forM (·.check proof inv)) from rfl]
      cases d.check proof inv with
      | error e => rfl
      | ok u => exact ih

end Demand

end Purpose

/-! ## §6. A whole check. -/

namespace Verification

open Purpose (Demand)

/-- Everything that a verdict is about, with a resolver and demands that answer at
once. -/
def ruling (known : Registry) (answer : Text → Except Failure Capability) (ds : List Demand)
    (now : Stamp) (proof : Proof) (inv : Invocation) : Except Failure Unit :=
  match proof.capability with
  | none => .error (.denied .missingCapability)
  | some c =>
      match anchor known c proof.action inv with
      | .error d => .error (.fault (.denial (d.wrap chainLead)))
      | .ok uri => do
          assess now c proof.action inv uri (answer uri)
          ds.forM (·.check proof inv)

/-- A verifier with a resolver and demands that answer at once.  It writes its events
down, one behind the other. -/
def ledgered (known : Registry) (answer : Text → Except Failure Capability) (ds : List Demand)
    (now : Stamp) : Verifier (StateM (List Log.Event)) where
  known := known
  resolve := fun uri => pure (answer uri)
  purposes := ds.map (·.purpose)
  now := now
  note := fun e => modify (· ++ [e])

section Checks

variable {known : Registry} {answer : Text → Except Failure Capability} {ds : List Demand}
  {now : Stamp} {proof : Proof} {inv : Invocation}

/-- With a resolver and demands that answer at once, the phases come down to one ruling. -/
theorem examine_eq_ruling {m : Type → Type} [Monad m] [LawfulMonad m] {v : Verifier m}
    (hresolve : ∀ uri, v.resolve uri = pure (answer uri))
    (hpurposes : v.purposes = ds.map (·.purpose)) :
    v.examine proof inv = pure (ruling v.known answer ds v.now proof inv) := by
  unfold Verifier.examine ruling
  cases proof.capability with
  | none => rfl
  | some c =>
      simp only [hresolve, hpurposes, pure_bind]
      cases anchor v.known c proof.action inv with
      | error d => rfl
      | ok uri =>
          simp only
          cases assess v.now c proof.action inv uri (answer uri) with
          | error e => rfl
          | ok u => exact Demand.meet_eq ds proof inv

/-- A check comes down to one ruling. -/
theorem examine_ledgered :
    (ledgered known answer ds now).examine proof inv
      = pure (ruling known answer ds now proof inv) :=
  examine_eq_ruling (fun _ => rfl) rfl

/-- A check comes to a denial that stalls: over the restrictions of the root or of the
capability, or behind them over the first demand that is not met. -/
def Stalls (known : Registry) (answer : Text → Except Failure Capability) (ds : List Demand)
    (now : Stamp) (proof : Proof) (inv : Invocation) : Prop :=
  ∃ c uri root, proof.capability = some c ∧
    (c.Permits proof.action ∧ inv.action = proof.action ∧ LeadsTo known c uri) ∧
    answer uri = .ok root ∧
    (StallsBy now c proof.action inv root ∨
      Cleared now c proof.action inv root ∧ c.Empowers inv.method ∧
        ∃ before d after, ds = before ++ d :: after ∧
          (∀ b ∈ before, b.check proof inv = .ok ()) ∧ d.Stalls proof)

/-- **WHEN A RULING STALLS.**  A ruling ends well or in a fault, unless it stalls. -/
theorem settles_ruling :
    SettlesUnless (Stalls known answer ds now proof inv)
      (ruling known answer ds now proof inv) := by
  unfold ruling
  cases hc : proof.capability with
  | none =>
      have hnone : ¬ Stalls known answer ds now proof inv := by simp [Stalls, hc]
      exact (SettlesUnless.fault (.denial (.plain .missingCapability))).congr (by simp [hnone])
  | some c =>
      simp only
      cases huri : anchor known c proof.action inv with
      | error d =>
          have hnone : ¬ Stalls known answer ds now proof inv := by
            rintro ⟨c', uri, root, hc', hanchor, -⟩
            cases hc.symm.trans hc'
            rw [anchor_eq_ok_iff.mpr hanchor] at huri
            cases huri
          exact (SettlesUnless.fault (.denial (d.wrap chainLead))).congr (by simp [hnone])
      | ok uri =>
          have hdemands : SettlesUnless _ (ds.forM (·.check proof inv)) :=
            SettlesUnless.forM fun d => d.settles_check proof inv
          have hassess := settles_assess now c proof.action inv uri (answer uri)
          refine (hassess.bind fun _ => hdemands).congr ?_
          simp only [assess_eq_ok_iff, judge_eq_ok_iff, ← Cleared.eq_def]
          constructor
          · rintro (⟨root, hroot, hstalls⟩ | ⟨⟨root, hroot, hclear, hsigner⟩, hstalls⟩)
            · exact ⟨c, uri, root, hc, anchor_eq_ok_iff.mp huri, hroot, .inl hstalls⟩
            · exact ⟨c, uri, root, hc, anchor_eq_ok_iff.mp huri, hroot,
                .inr ⟨hclear, hsigner, hstalls⟩⟩
          · rintro ⟨c', uri', root, hc', hanchor, hroot, hstalls⟩
            cases hc.symm.trans hc'
            cases huri.symm.trans (anchor_eq_ok_iff.mpr hanchor)
            rcases hstalls with hstalls | ⟨hclear, hsigner, hstalls⟩
            · exact .inl ⟨root, hroot, hstalls⟩
            · exact .inr ⟨⟨root, hroot, hclear, hsigner⟩, hstalls⟩

/-- A verdict on a proof, with its event behind those of the log: the event of an
authorization, or that of a denial, and then the verdict carries the fault. -/
def Recorded (proof : Proof) (now : Stamp) (log : List Log.Event)
    (r : Except Failure Verdict × List Log.Event) : Prop :=
  ∃ verdict event, r = (.ok verdict, log ++ [event]) ∧
    verdict.capability = capabilityName proof ∧ verdict.action = proof.action ∧
    verdict.checkedAt = now ∧
    match verdict.fault with
    | some f => event = denialEvent proof f
    | none => ∃ c, proof.capability = some c ∧ event = grantEvent c proof.action

/-- A check leaves the verdict of its ruling and the event of this, if there are any. -/
theorem run_check (log : List Log.Event) :
    ((ledgered known answer ds now).check proof inv).run log =
      ((ledgered known answer ds now).verdict? proof (ruling known answer ds now proof inv),
        log ++ (event? proof (ruling known answer ds now proof inv)).toList) := by
  unfold Verifier.check Verifier.verify
  rw [examine_ledgered]
  cases hevent : event? proof (ruling known answer ds now proof inv) with
  | none =>
      rw [Option.toList_none, List.append_nil]
      simp only [pure_bind, hevent]
      rfl
  | some e =>
      simp only [pure_bind, hevent]
      rfl

theorem exists_capability_of_ruling (h : ruling known answer ds now proof inv = .ok ()) :
    ∃ c, proof.capability = some c := by
  unfold ruling at h
  split at h
  next => cases h
  next c hc => exact ⟨c, hc⟩

/-- **WHEN A CHECK GIVES A VERDICT.**  A check gives a verdict with its event exactly if
it does not stall, and where it stalls, a failure leaves it and there is no event. -/
theorem verdict_law_iff (known : Registry) (answer : Text → Except Failure Capability)
    (ds : List Demand) (now : Stamp) (proof : Proof) (inv : Invocation) (log : List Log.Event) :
    (Recorded proof now log (((ledgered known answer ds now).check proof inv).run log) ↔
      ¬ Stalls known answer ds now proof inv) ∧
    (Stalls known answer ds now proof inv →
      ((ledgered known answer ds now).check proof inv).run log
        = (.error .dateOutOfRange, log)) := by
  have hsettles : SettlesUnless (Stalls known answer ds now proof inv)
      (ruling known answer ds now proof inv) := settles_ruling
  have hstall : Stalls known answer ds now proof inv →
      ((ledgered known answer ds now).check proof inv).run log = (.error .dateOutOfRange, log) := by
    intro h
    rw [run_check, hsettles.stall h]
    simp [Verifier.verdict?, event?]
  refine ⟨⟨fun hrecorded h => ?_, fun h => ?_⟩, hstall⟩
  · obtain ⟨verdict, event, hrun, -⟩ := hrecorded
    rw [hstall h] at hrun
    cases hrun
  · let verdict (fault : Option Fault) : Verdict :=
      { capability := capabilityName proof, action := proof.action, checkedAt := now, fault }
    rw [run_check]
    cases hruling : ruling known answer ds now proof inv with
    | ok u =>
        obtain ⟨c, hc⟩ := exists_capability_of_ruling hruling
        refine ⟨verdict none, grantEvent c proof.action, ?_, rfl, rfl, rfl, c, hc, rfl⟩
        rw [event?, hc]
        rfl
    | error e =>
        rcases hsettles.error e hruling with ⟨f, rfl⟩ | ⟨hstalls, -⟩
        · exact ⟨verdict (some f), denialEvent proof f, rfl, rfl, rfl, rfl, rfl⟩
        · exact absurd hstalls h

end Checks

/-- A root that ends with the start of year one, by clocks an hour ahead of UTC. -/
def endedDocument : Json.Value :=
  .object [("id", .text "urn:zcap:root"), ("invoker", .text "did:example:alice"),
    ("expires", .text "0001-01-01T00:00:00+01:00")]

/-- The same root as a capability. -/
def endedRoot : Capability :=
  { rootHeldBy "did:example:alice" with
    expires := some ⟨⟨0, Time.zero_lt_civilSpan⟩, ⟨3600 * Time.second, by decide⟩⟩ }

/-- Noon of the first of June 2026, in UTC. -/
def juneNoon : Stamp := ⟨⟨739767 * Time.day + 12 * 3600 * Time.second, by decide⟩, .utc⟩

/-- The root is at hand and its end is long past, but the check does not deny it: for UTC
it ended in the year before year one. -/
theorem ended_root_undenied :
    Capability.read .builtIn endedDocument = .ok endedRoot ∧
    ∃ s, Store.addDocuments .builtIn [] [endedDocument] = .ok s ∧
      ((ledgered .builtIn s.resolve [] juneNoon).check (submitted endedRoot)
        (readBy "did:example:alice" "" "")).run [] = (.error .dateOutOfRange, []) := by
  have hread : Capability.read .builtIn endedDocument = .ok endedRoot :=
    Capability.read_eq_ok_iff.mpr ⟨rfl, Capability.validateChain_of_root rfl⟩
  have hended : ∀ o : Occasion, o.now = juneNoon → StallsOn o endedRoot := by
    intro o ho
    refine .inr ⟨nofun, _, rfl, ?_, by decide⟩
    rw [ho]
    decide
  refine ⟨hread, Store.ofList [endedRoot], ?_, ?_⟩
  · rw [Store.addDocuments_cons hread]
    rfl
  · have hstalls : Stalls .builtIn (Store.ofList [endedRoot]).resolve [] juneNoon
        (submitted endedRoot) (readBy "did:example:alice" "" "") :=
      ⟨endedRoot, "urn:zcap:root", endedRoot, rfl, ⟨by decide, rfl, (leadsTo_nil rfl).mpr rfl⟩, rfl,
        .inl ⟨by decide, .inl rfl, .inl (hended _ rfl)⟩⟩
    rw [run_check, settles_ruling.stall hstalls]
    rfl

end Verification

end Mandate
