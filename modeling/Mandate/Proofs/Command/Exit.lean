/-
  Mandate.Proofs.Command.Exit
  ────────────────────────────────
  **HOW A RUN ENDS.**

  Whatever the files hold, a run is to end with a status: two if a file cannot be read or
  holds no capability, otherwise zero or one.  A few things come in between, all of them
  faults that the commands do not look out for.

      Readable  — all files of a task are there, and hold capabilities
      Strays    — a fault of files that no user is told about
      Unshown   — a capability whose summary cannot be printed
      Breaks    — a fault comes in between

  Main results:
    * `readable_of_loadCase`  — the files that make a case are readable;
    * `strays_iff`            — there is none without a word exactly if reading the files comes
                                upon a fault beyond what users are told;
    * `ends_verify`           — a verification ends with a status unless one comes in between;
    * `ends_inspect`          — and so does an inspection;
    * `exit_law_iff`          — so a run ends as it is to exactly if nothing comes in between.
-/
import Mandate.Files.Tree
import Mandate.Proofs.Capability.RoundTrip
import Mandate.Proofs.Command.Loading
import Mandate.Proofs.Command.SetUp
import Mandate.Proofs.Json.Reading
import Mandate.Proofs.Verification.Failures
import Mandate.Proofs.Verification.Verdicts
import Mathlib.Data.Nat.Init

namespace Mandate

open Files (Path)
open Json (Value)
open Time (Stamp)
open Verification (Verdict)

namespace Command

variable {files : Files.Access Id} {h : Host Id} {t : VerifyTask} {path : Path}

/-! ## §1. The files of a task. -/

/-- All files of a task are there, and hold capabilities.  A capability that is inspected
has no empty entry for its invokers. -/
def Readable (room : Json.Room) (files : Files.Access Id) : Task → Prop
  | .verify t =>
      (∃ v, Holds room files (Path.parse t.capability) v ∧
        ∃ c, Capability.read .builtIn v = .ok c) ∧
      ∀ path ∈ members files t.store, ∃ v, Holds room files path v ∧
        ∀ d ∈ documentsOf v, ∃ c, Capability.read .builtIn d = .ok c
  | .inspect capability =>
      ∃ v c, Holds room files (Path.parse capability) v ∧
        Capability.read .builtIn v = .ok c ∧ .text "" ∉ c.invokerEntries

/-- Reading the files of a verification comes upon one whose fault is beyond what a user is
told, or upon a document that there is no room for.  The files of the store are read behind a
capability that is taken, and their documents are taken when all of them have been read. -/
inductive Strays (room : Headroom) (files : Files.Access Id) (t : VerifyTask) : Prop where
  /-- What is wrong with the file of the capability is beyond what a user is told. -/
  | capability (h : Beyond room.brackets files (Path.parse t.capability))
  /-- There is no room for the document of the capability. -/
  | capabilityUnborne {v : Value} (hv : Holds room.brackets files (Path.parse t.capability) v)
      (h : room.bears v = false)
  /-- What is wrong with the first file of the store that holds no value is beyond what a user is
  told. -/
  | store {v : Value} {c : Capability} {before after : List Path} {path : Path}
      (hv : Holds room.brackets files (Path.parse t.capability) v)
      (hc : Capability.take room .builtIn v = .ok c)
      (hmembers : members files t.store = before ++ path :: after)
      (hbefore : ∀ p ∈ before, ∃ v, Holds room.brackets files p v)
      (h : Beyond room.brackets files path)
  /-- There is no room for the first document of the store that is not taken. -/
  | storeUnborne {v : Value} {c : Capability} {vs before after : List Value} {d : Value}
      (hv : Holds room.brackets files (Path.parse t.capability) v)
      (hc : Capability.take room .builtIn v = .ok c)
      (hvs : List.Forall₂ (Holds room.brackets files) (members files t.store) vs)
      (hsplit : vs.flatMap documentsOf = before ++ d :: after)
      (hbefore : ∀ b ∈ before, ∃ c, Capability.take room .builtIn b = .ok c)
      (h : room.bears d = false)

section Cases

variable {room : Headroom} {v : Value} {c : Capability} {more : List Value}

/-- Documents are taken one after the other, and what they become is added in that order. -/
theorem takeUp_eq (s : Store) (documents : List Value) :
    takeUp room s documents
      = (documents.mapM (Capability.take room .builtIn)).map (·.foldl Store.add s) := by
  induction documents generalizing s with
  | nil => rfl
  | cons d ds ih =>
      rw [takeUp, List.mapM_cons]
      cases Capability.take room .builtIn d with
      | error e => rfl
      | ok c =>
          simp only [ih]
          cases ds.mapM (Capability.take room .builtIn) <;> rfl

/-- A capability, with further ones at hand behind it. -/
def Case.ofAll (c : Capability) (cs : List Capability) : Case := ⟨c, Store.ofList (c :: cs)⟩

/-- A case has all that the further documents become at hand. -/
theorem Case.of_eq_ok_iff {case : Case} :
    Case.of room c more = .ok case ↔
      ∃ cs, List.Forall₂ (fun d c => Capability.take room .builtIn d = .ok c) more cs ∧
        case = ofAll c cs := by
  simp only [Case.of, takeUp_eq, map_eq_ok_iff, mapM_eq_ok_iff]
  constructor
  · rintro ⟨_, ⟨cs, hcs, rfl⟩, rfl⟩
    exact ⟨cs, hcs, rfl⟩
  · rintro ⟨cs, hcs, rfl⟩
    exact ⟨_, ⟨cs, hcs, rfl⟩, rfl⟩

/-- There is no case exactly if one of the further documents is not taken, behind others that
are. -/
theorem Case.of_eq_error_iff {e : NotTaken} :
    Case.of room c more = .error e ↔ ∃ before d after, more = before ++ d :: after ∧
      (∀ b ∈ before, ∃ c, Capability.take room .builtIn b = .ok c) ∧
        Capability.take room .builtIn d = .error e := by
  simp only [Case.of, takeUp_eq, map_eq_error_iff, mapM_eq_error_iff]

theorem loadCase_eq :
    (loadCase room files t).run
      = (loadValue room.brackets files (Path.parse t.capability)).run.mapError .load >>= fun v =>
        (Capability.take room .builtIn v).mapError .taken >>= fun c =>
        (loadDocuments room.brackets files t.store).run.mapError .load >>= fun more =>
        (Case.of room c more).mapError .taken := by
  unfold loadCase
  rw [Id.run_bind]
  cases (loadValue room.brackets files (Path.parse t.capability)).run with
  | error f => rfl
  | ok v =>
      show _ = (Capability.take room .builtIn v).mapError CaseFault.taken >>= _
      cases htake : Capability.take room .builtIn v with
      | error e =>
          simp only [htake]
          rfl
      | ok c =>
          simp only [htake, Id.run_bind]
          show _ = (loadDocuments room.brackets files t.store).run.mapError CaseFault.load >>= _
          cases (loadDocuments room.brackets files t.store).run <;> rfl

/-- The files of a verification make a case exactly if they are loaded and taken. -/
theorem loadCase_eq_ok_iff_taken {case : Case} :
    (loadCase room files t).run = .ok case ↔
      ∃ v, Holds room.brackets files (Path.parse t.capability) v ∧
        ∃ c, Capability.take room .builtIn v = .ok c ∧
        ∃ more, (loadDocuments room.brackets files t.store).run = .ok more ∧
          Case.of room c more = .ok case := by
  simp only [loadCase_eq, Capability.bind_eq_ok, mapError_eq_ok_iff, loadValue_eq_ok_iff]

/-- What is wrong with files is wrong with that of the capability, or with one of the store
behind a capability that is taken. -/
theorem loadCase_eq_load_iff {f : LoadFault} :
    (loadCase room files t).run = .error (.load f) ↔
      (loadValue room.brackets files (Path.parse t.capability)).run = .error f ∨
      ∃ v, Holds room.brackets files (Path.parse t.capability) v ∧
        ∃ c, Capability.take room .builtIn v = .ok c ∧
          (loadDocuments room.brackets files t.store).run = .error f := by
  simp [loadCase_eq, bind_eq_error_iff, mapError_eq_ok_iff, mapError_eq_error_iff,
    loadValue_eq_ok_iff]

/-- A document that is not taken is that of the capability, or one behind it. -/
theorem loadCase_eq_taken_iff {e : NotTaken} :
    (loadCase room files t).run = .error (.taken e) ↔
      ∃ v, Holds room.brackets files (Path.parse t.capability) v ∧
        (Capability.take room .builtIn v = .error e ∨
          ∃ c, Capability.take room .builtIn v = .ok c ∧
          ∃ more, (loadDocuments room.brackets files t.store).run = .ok more ∧
            Case.of room c more = .error e) := by
  simp [loadCase_eq, bind_eq_error_iff, mapError_eq_ok_iff, mapError_eq_error_iff,
    loadValue_eq_ok_iff]

end Cases

/-! ## §2. Files that are readable, and files that stray. -/

section Cases

variable {room : Headroom}

/-- The files of a verification are readable exactly if they are loaded and all of their
documents can be read. -/
theorem readable_verify_iff {room : Json.Room} :
    Readable room files (.verify t) ↔
      ∃ v, Holds room files (Path.parse t.capability) v ∧
        (∃ c, Capability.read .builtIn v = .ok c) ∧
        ∃ more, (loadDocuments room files t.store).run = .ok more ∧
          ∀ d ∈ more, ∃ c, Capability.read .builtIn d = .ok c := by
  rw [Readable, ← exists_documents_iff]
  constructor
  · rintro ⟨⟨v, hv, hread⟩, hmore⟩
    exact ⟨v, hv, hread, hmore⟩
  · rintro ⟨v, hv, hread, hmore⟩
    exact ⟨⟨v, hv, hread⟩, hmore⟩

/-- The files of a case are readable. -/
theorem readable_of_loadCase {c : Case} (h : (loadCase room files t).run = .ok c) :
    Readable room.brackets files (.verify t) := by
  obtain ⟨v, hv, c, hc, more, hmore, hof⟩ := loadCase_eq_ok_iff_taken.mp h
  obtain ⟨cs, hcs, -⟩ := Case.of_eq_ok_iff.mp hof
  refine readable_verify_iff.mpr
    ⟨v, hv, ⟨c, (Capability.take_eq_ok_iff.mp hc).2⟩, more, hmore, fun d hd => ?_⟩
  obtain ⟨c', hc'⟩ := exists_forall₂_iff.mp ⟨cs, hcs⟩ d hd
  exact ⟨c', (Capability.take_eq_ok_iff.mp hc').2⟩

/-- Files are not readable if one of them is not loaded. -/
theorem not_readable_of_load {f : LoadFault}
    (h : (loadCase room files t).run = .error (.load f)) :
    ¬ Readable room.brackets files (.verify t) := by
  intro hreadable
  obtain ⟨w, hw, -, more, hmore, -⟩ := readable_verify_iff.mp hreadable
  rcases loadCase_eq_load_iff.mp h with hload | ⟨v, hv, c, hc, hload⟩
  · cases hload.symm.trans (loadValue_eq_ok_iff.mpr hw)
  · cases hload.symm.trans hmore

/-- Files are not readable if one of their documents is refused. -/
theorem not_readable_of_refused {r : Refusal}
    (h : (loadCase room files t).run = .error (.taken (.refused r))) :
    ¬ Readable room.brackets files (.verify t) := by
  intro hreadable
  obtain ⟨w, hw, ⟨c', hc'⟩, more', hmore', hall⟩ := readable_verify_iff.mp hreadable
  obtain ⟨v, hv, hrefused | ⟨c, hc, more, hmore, hof⟩⟩ := loadCase_eq_taken_iff.mp h
  · rw [hw.eq hv, (Capability.take_eq_refused_iff.mp hrefused).2] at hc'
    cases hc'
  · obtain ⟨before, d, after, rfl, -, hrefused⟩ := Case.of_eq_error_iff.mp hof
    cases hmore.symm.trans hmore'
    obtain ⟨c, hc⟩ := hall d (by simp)
    rw [(Capability.take_eq_refused_iff.mp hrefused).2] at hc
    cases hc

/-- There is no case for a reason that no user is told about, exactly if reading the files
comes upon one. -/
theorem strays_iff :
    Strays room files t ↔
      (∃ f, (loadCase room files t).run = .error (.load f) ∧ f.message? = none) ∨
        (loadCase room files t).run = .error (.taken .exhausted) := by
  simp only [loadCase_eq_load_iff, loadCase_eq_taken_iff, Case.of_eq_error_iff,
    Capability.take_eq_exhausted_iff]
  constructor
  · intro h
    cases h with
    | capability h =>
        obtain ⟨f, hload, hmessage⟩ := exists_beyond_iff.mpr h
        exact .inl ⟨f, .inl hload, hmessage⟩
    | capabilityUnborne hv h => exact .inr ⟨_, hv, .inl h⟩
    | store hv hc hmembers hbefore h =>
        obtain ⟨f, hload, hmessage⟩ := exists_beyond_member_iff.mpr ⟨_, _, _, hmembers, hbefore, h⟩
        exact .inl ⟨f, .inr ⟨_, hv, _, hc, hload⟩, hmessage⟩
    | storeUnborne hv hc hvs hsplit hbefore h =>
        have hmore := loadDocuments_eq_ok_iff.mpr ⟨_, hvs, rfl⟩
        exact .inr ⟨_, hv, .inr ⟨_, hc, _, hmore, _, _, _, hsplit, hbefore, h⟩⟩
  · rintro (⟨f, hload | ⟨v, hv, c, hc, hload⟩, hmessage⟩ |
      ⟨v, hv, h | ⟨c, hc, more, hmore, before, d, after, hsplit, hbefore, h⟩⟩)
    · exact .capability (exists_beyond_iff.mp ⟨f, hload, hmessage⟩)
    · obtain ⟨before, path, after, hmembers, hbefore, h⟩ :=
        exists_beyond_member_iff.mp ⟨f, hload, hmessage⟩
      exact .store hv hc hmembers hbefore h
    · exact .capabilityUnborne hv h
    · obtain ⟨vs, hvs, rfl⟩ := loadDocuments_eq_ok_iff.mp hmore
      exact .storeUnborne hv hc hvs hsplit hbefore h

end Cases

/-! ## §3. Commands that end with a status. -/

/-- A command ends with a report, which says that the input is none exactly if it is not
readable, unless something breaks. -/
structure EndsUnless (breaks readable : Prop) (x : Except Halt Report) : Prop where
  report : ¬ breaks → ∃ r, x = .ok r ∧ (r.status = .inputError ↔ ¬ readable)
  halt : breaks → ∃ e, x = .error e

namespace EndsUnless

variable {p p' q q' : Prop} {x : Except Halt Report}

theorem congr (h : EndsUnless p q x) (hp : p ↔ p') (hq : q ↔ q') : EndsUnless p' q' x := by
  rwa [← hp, ← hq]

theorem ok {r : Report} (h : r.status = .inputError ↔ ¬ q) : EndsUnless False q (.ok r) :=
  ⟨fun _ => ⟨r, rfl, h⟩, nofun⟩

theorem error {e : Halt} : EndsUnless True q (.error e) :=
  ⟨fun h => absurd trivial h, fun _ => ⟨e, rfl⟩⟩

theorem invalid (text : Text) : EndsUnless False False (.ok (.invalid text)) :=
  ok (iff_of_true rfl not_false)

/-- Files that cannot be read are reported, as far as a user is told about the fault. -/
theorem unreadable (what : String) (f : LoadFault) :
    EndsUnless (f.message? = none) False (Report.unreadable what f) := by
  unfold Report.unreadable
  cases f.message? with
  | none => exact error.congr (by simp) .rfl
  | some text => exact (ok (iff_of_true rfl not_false)).congr (by simp) .rfl

/-- A line on the output ends a command, unless the output does not take it. -/
theorem deliver {status : Status} {text : Text} (hstatus : status = .inputError ↔ ¬ q) :
    EndsUnless (∃ f, h.outputFault? (text ++ "\n") = some f) q
      ((Report.line status text).deliver h) := by
  have hempty : (Report.line status text).output.isEmpty = false := by
    rw [Text.isEmpty_eq_false_iff, Ne, ← Text.points_inj]
    simp [Report.line]
  rw [Report.deliver, hempty, if_neg Bool.false_ne_true]
  show EndsUnless (∃ f, h.outputFault? (Report.line status text).output = some f) q _
  cases h.outputFault? (Report.line status text).output with
  | none => exact (ok hstatus).congr (by simp) .rfl
  | some f => exact error.congr (by simp) .rfl

end EndsUnless

/-! ## §4. Verifying. -/

theorem statusOf_ne_inputError (v : Verdict) : statusOf v ≠ .inputError := by
  unfold statusOf
  split <;> simp

/-- A verdict is reported with its status, if there is a year in UTC for its time. -/
theorem exists_verdictReport {v : Verdict} (hv : v.checkedAt.inUtc? ≠ none) (c : Case)
    (t : VerifyTask) (id : Text) :
    ∃ text, verdictReport c t id v = .ok (.line (statusOf v) text) := by
  obtain ⟨time, htime, -⟩ := Time.exists_timeText hv
  unfold verdictReport
  cases t.json with
  | false => exact ⟨_, rfl⟩
  | true =>
      simp only [jsonAnswer, Verdict.fields, htime]
      exact ⟨_, rfl⟩

/-- What settles gives a verdict for the time of the verifier, unless it stalls. -/
theorem exists_verdict_of_settles {p : Prop} {x : Except Failure Unit} (hx : SettlesUnless p x)
    (hp : ¬ p) (v : Verifier Id) (proof : Proof) :
    ∃ w, v.verdict? proof x = .ok w ∧ w.checkedAt = v.now := by
  cases x with
  | ok u => exact ⟨_, rfl, rfl⟩
  | error e =>
      rcases hx.error e rfl with ⟨f, rfl⟩ | ⟨hstalls, -⟩
      · exact ⟨_, rfl, rfl⟩
      · exact absurd hstalls hp

/-- What is found of a case, with its store as the resolver and without further demands. -/
def Case.ruling (c : Case) (now : Stamp) (t : VerifyTask) : Except Failure Unit :=
  Verification.ruling .builtIn c.store.resolve [] now (c.proof t) t.invocation

/-- A case comes to a denial that has to tell a time for which UTC has no year. -/
def Case.Stalls (c : Case) (now : Stamp) (t : VerifyTask) : Prop :=
  Verification.Stalls .builtIn c.store.resolve [] now (c.proof t) t.invocation

/-- The verifier of a case, in a run at the desk. -/
def Case.verifierAt (c : Case) (h : Host Id) (setup : Log.Setup) : Verifier Id :=
  c.verifier h.now.run (h.note setup (some h.freshId.run))

/-- The verdict on a case, in a run at the desk. -/
def Case.verdict? (c : Case) (h : Host Id) (t : VerifyTask) : Except Failure Verdict :=
  (c.verifier (m := Id) h.now.run fun _ => pure ()).verdict? (c.proof t) (c.ruling h.now.run t)

/-- The report on a case, in a run at the desk. -/
def Case.report? (c : Case) (h : Host Id) (t : VerifyTask) : Except Failure Report :=
  c.verdict? h t >>= verdictReport c t h.freshId.run

theorem Case.run_check (c : Case) (h : Host Id) (setup : Log.Setup) (t : VerifyTask) :
    ((c.verifierAt h setup).check (c.proof t) t.invocation).run = c.verdict? h t := by
  have hpurposes : (c.verifierAt h setup).purposes
      = ([] : List Purpose.Demand).map (·.purpose) := rfl
  have hcheck : ((c.verifierAt h setup).check (c.proof t) t.invocation).run
      = (c.verifierAt h setup).verdict? (c.proof t) (c.ruling h.now.run t) := by
    unfold Verifier.check
    rw [Verifier.verify_eq_examine, Verification.examine_eq_ruling (fun _ => rfl) hpurposes]
    rfl
  rw [hcheck, verdict?]
  -- A verdict does not hang on what is taken down.
  cases c.ruling h.now.run t with
  | ok u => rfl
  | error e => cases e <;> rfl

/-- A case is checked by delivering the report on it. -/
theorem checkCase_eq (setup : Log.Setup) (c : Case) :
    (checkCase h setup c t).run = (c.report? h t).mapError .failure >>= Report.deliver h := by
  have hcheck : ((c.verifier h.now.run (h.note setup (some h.freshId.run))).check (c.proof t)
      t.invocation).run = c.verdict? h t := c.run_check h setup t
  unfold checkCase Case.report?
  simp only [Id.run_bind, hcheck]
  cases c.verdict? h t <;> rfl

/-- There is a report on a case, with the status of a verdict, unless it stalls. -/
theorem Case.exists_report (c : Case) (hnow : h.now.run.inUtc? ≠ none)
    (hstalls : ¬ c.Stalls h.now.run t) :
    ∃ v text, c.report? h t = .ok (.line (statusOf v) text) := by
  obtain ⟨v, hv, hcheckedAt⟩ := exists_verdict_of_settles (p := c.Stalls h.now.run t)
    Verification.settles_ruling hstalls (c.verifier h.now.run fun _ => pure ()) (c.proof t)
  -- The verdict is for the time of the host, which can be told in a report.
  have hnow : v.checkedAt.inUtc? ≠ none := by
    rw [hcheckedAt]
    exact hnow
  obtain ⟨text, htext⟩ := exists_verdictReport hnow c t h.freshId.run
  exact ⟨v, text, Capability.bind_eq_ok.mpr ⟨v, hv, htext⟩⟩

/-- There is no report on a case that stalls. -/
theorem Case.report?_of_stalls {c : Case} (hstalls : c.Stalls h.now.run t) :
    c.report? h t = .error .dateOutOfRange := by
  have hruling : c.ruling h.now.run t = .error .dateOutOfRange :=
    Verification.settles_ruling.stall hstalls
  rw [report?, verdict?, hruling]
  rfl

/-- The check of a case comes to a verdict with a status, unless it stalls, or the output does
not take what is said of it. -/
theorem ends_checkCase (hnow : h.now.run.inUtc? ≠ none) (setup : Log.Setup) (c : Case) :
    EndsUnless (c.Stalls h.now.run t ∨
        ∃ r f, c.report? h t = .ok r ∧ h.outputFault? r.output = some f)
      True (checkCase h setup c t).run := by
  rw [checkCase_eq]
  by_cases hstalls : c.Stalls h.now.run t
  · rw [Case.report?_of_stalls hstalls]
    exact EndsUnless.error.congr (by simp [hstalls]) .rfl
  · obtain ⟨v, text, hreport⟩ := c.exists_report hnow hstalls
    have hstatus : statusOf v = .inputError ↔ ¬ True :=
      iff_of_false (statusOf_ne_inputError v) (not_not_intro trivial)
    rw [hreport]
    exact (EndsUnless.deliver hstatus).congr (by simp [hstalls, Report.line]) .rfl

theorem ends_verify (hnow : h.now.run.inUtc? ≠ none) (setup : Log.Setup) :
    EndsUnless (Strays h.headroom h.files t ∨
        ∃ c, (loadCase h.headroom h.files t).run = .ok c ∧ (c.Stalls h.now.run t ∨
          ∃ r f, c.report? h t = .ok r ∧ h.outputFault? r.output = some f))
      (Readable h.headroom.brackets h.files (.verify t)) (verify h setup t).run := by
  unfold verify
  rw [strays_iff]
  cases hcase : (loadCase h.headroom h.files t).run with
  | error fault =>
      cases fault with
      | load f =>
          have hno := not_readable_of_load hcase
          simp only [Id.run_bind, hcase]
          exact (EndsUnless.unreadable _ f).congr (by simp) (by simp [hno])
      | taken e =>
          cases e with
          | refused r =>
              have hno := not_readable_of_refused hcase
              simp only [Id.run_bind, hcase]
              exact (EndsUnless.invalid _).congr (by simp) (by simp [hno])
          | exhausted =>
              simp only [Id.run_bind, hcase]
              exact EndsUnless.error.congr (by simp) .rfl
  | ok c =>
      have hreadable := readable_of_loadCase hcase
      simp only [Id.run_bind, hcase]
      exact (ends_checkCase hnow setup c).congr (by simp) (by simp [hreadable])

/-! ## §5. Inspecting. -/

section Inspecting

variable {room : Headroom} {v : Value} {c : Capability}

/-- The invokers of a capability that was read are named, unless one of the entries for them
is empty. -/
theorem exists_invokers_iff (hread : Capability.read .builtIn v = .ok c) :
    (∃ names, c.invokers = .ok names) ↔ .text "" ∉ c.invokerEntries := by
  have hwell := Capability.wellFormed_of_read hread
  have htexts : ∃ names : List Text, names.map .text = c.invokerEntries := by
    unfold Capability.invokerEntries
    split
    · exact hwell.controller
    · exact hwell.invoker
  obtain ⟨names, hnames⟩ := htexts
  simp only [Capability.invokers_eq_ok_iff, Capability.invokerNames_eq_ok_iff, ← hnames]
  constructor
  · rintro ⟨others, heq, hproper⟩ hempty
    rw [heq] at hempty
    exact hproper (by simpa using hempty)
  · intro hempty
    exact ⟨names, rfl, by simpa using hempty⟩

/-- A capability that was read has a summary exactly if UTC has a year for the time of each
of its caveats. -/
theorem exists_summary_iff (hread : Capability.read .builtIn v = .ok c) (names : List Text) :
    (∃ s, summary c names = .ok s) ↔ ∀ k ∈ c.caveats, k.Datable := by
  obtain ⟨entries, hentries, -⟩ :=
    Capability.validateChain_eq_ok_iff.mp (Capability.wellFormed_of_read hread).shape
  simp only [← Caveat.exists_toJson_iff, ← exists_mapM_iff, summary, hentries]
  cases c.caveats.mapM (·.toJson) with
  | error e => exact iff_of_false nofun nofun
  | ok caveats => exact iff_of_true ⟨_, rfl⟩ ⟨_, rfl⟩

theorem inspectValue_of_exhausted
    (htake : Capability.take room .builtIn v = .error .exhausted) :
    inspectValue room v = .error .exhausted := by
  simp only [inspectValue, htake]

theorem inspectValue_of_refused {r : Refusal}
    (htake : Capability.take room .builtIn v = .error (.refused r)) :
    inspectValue room v = .ok (.invalid r.message) := by
  simp only [inspectValue, htake]

theorem inspectValue_of_unnamed {f : FormatFault}
    (htake : Capability.take room .builtIn v = .ok c) (hnames : c.invokers = .error f) :
    inspectValue room v = .ok (.invalid f.message) := by
  simp only [inspectValue, htake, hnames]

theorem inspectValue_of_named {names : List Text}
    (htake : Capability.take room .builtIn v = .ok c) (hnames : c.invokers = .ok names) :
    inspectValue room v = (summary c names).map fun s => .line .ok s.indented := by
  simp only [inspectValue, htake, hnames]

/-- A capability has no summary that can be printed: UTC has no year for the time of one of
its caveats, or the output does not take the summary. -/
inductive Unshown (h : Host Id) (c : Capability) : Prop where
  | time {k : Caveat} (hk : k ∈ c.caveats) (htime : ¬ k.Datable)
  | output {names : List Text} {s : Value} {f : Failure} (hnames : c.invokers = .ok names)
      (hsummary : summary c names = .ok s)
      (houtput : h.outputFault? (.plain (s.indented ++ "\n")) = some f)

/-- A value that is inspected is reported on, unless there is no room for it, or it cannot be
shown. -/
theorem ends_inspectValue (h : Host Id) (v : Value) :
    EndsUnless (h.headroom.bears v = false ∨
        ∃ c, Capability.read .builtIn v = .ok c ∧ .text "" ∉ c.invokerEntries ∧ Unshown h c)
      (∃ c, Capability.read .builtIn v = .ok c ∧ .text "" ∉ c.invokerEntries)
      ((inspectValue h.headroom v).mapError .failure >>= Report.deliver h) := by
  cases htake : Capability.take h.headroom .builtIn v with
  | error e =>
      cases e with
      | exhausted =>
          have hbears := Capability.take_eq_exhausted_iff.mp htake
          rw [inspectValue_of_exhausted htake]
          exact EndsUnless.error.congr (by simp [hbears]) .rfl
      | refused r =>
          obtain ⟨hbears, hread⟩ := Capability.take_eq_refused_iff.mp htake
          rw [inspectValue_of_refused htake]
          exact (EndsUnless.invalid r.message).congr (by simp [hbears, hread]) (by simp [hread])
  | ok c =>
      obtain ⟨hbears, hread⟩ := Capability.take_eq_ok_iff.mp htake
      have hinvokers := exists_invokers_iff hread
      cases hnames : c.invokers with
      | error f =>
          have hempty : .text "" ∈ c.invokerEntries := by simpa [hnames] using hinvokers
          rw [inspectValue_of_unnamed htake hnames]
          exact (EndsUnless.invalid f.message).congr (by simp [hbears, hread, hempty])
            (by simp [hread, hempty])
      | ok names =>
          have hproper : .text "" ∉ c.invokerEntries := hinvokers.mp ⟨names, hnames⟩
          have hdatable := exists_summary_iff hread names
          rw [inspectValue_of_named htake hnames]
          cases hsummary : summary c names with
          | error e =>
              have hstuck : ∃ k ∈ c.caveats, ¬ k.Datable := by simpa [hsummary] using hdatable
              obtain ⟨k, hk, htime⟩ := hstuck
              exact EndsUnless.error.congr (iff_of_true trivial
                (.inr ⟨c, hread, hproper, .time hk htime⟩)) .rfl
          | ok s =>
              have hall : ∀ k ∈ c.caveats, k.Datable := hdatable.mp ⟨s, hsummary⟩
              have hunshown : (∃ f, h.outputFault? (.plain (s.indented ++ "\n")) = some f) ↔
                  Unshown h c := by
                constructor
                · rintro ⟨f, houtput⟩
                  exact .output hnames hsummary houtput
                · intro hunshown
                  cases hunshown with
                  | time hk htime => exact absurd (hall _ hk) htime
                  | output hnames' hsummary' houtput =>
                      cases hnames.symm.trans hnames'
                      cases hsummary.symm.trans hsummary'
                      exact ⟨_, houtput⟩
              have hok : Status.ok = .inputError ↔ ¬ True :=
                iff_of_false nofun (not_not_intro trivial)
              exact (EndsUnless.deliver hok).congr (by simp [hbears, hread, hproper, hunshown])
                (by simp [hread, hproper])

/-- An inspection ends with a status, unless what is wrong with the file is beyond what a
user is told, or there is no room for what it holds, or that cannot be shown. -/
theorem ends_inspect {capability : Text} :
    EndsUnless (Beyond h.headroom.brackets h.files (Path.parse capability) ∨
        ∃ v, Holds h.headroom.brackets h.files (Path.parse capability) v ∧
          (h.headroom.bears v = false ∨ ∃ c, Capability.read .builtIn v = .ok c ∧
            .text "" ∉ c.invokerEntries ∧ Unshown h c))
      (Readable h.headroom.brackets h.files (.inspect capability)) (inspect h capability).run := by
  unfold inspect
  rw [← exists_beyond_iff, Readable]
  simp only [Id.run_bind, ← loadValue_eq_ok_iff]
  cases hload : (loadValue h.headroom.brackets h.files (Path.parse capability)).run with
  | error f => exact (EndsUnless.unreadable _ f).congr (by simp) (by simp)
  | ok v => exact (ends_inspectValue h v).congr (by simp) (by simp)

end Inspecting

/-! ## §6. Whole runs. -/

/-- A fault that the commands do not look out for comes in between. -/
inductive Breaks (h : Host Id) : Task → Prop where
  /-- The settings cannot be read. -/
  | settings {task : Task} {e : Halt} (hsettings : h.settings.run = .error e) : Breaks h task
  /-- What is wrong with a file of a verification is beyond what a user is told, or there is no
  room for what it holds. -/
  | verified {t : VerifyTask} (hstrays : Strays h.headroom h.files t) : Breaks h (.verify t)
  /-- The check has to tell a time for which UTC has no year. -/
  | stalled {t : VerifyTask} {c : Case} (hcase : (loadCase h.headroom h.files t).run = .ok c)
      (hstalls : c.Stalls h.now.run t) : Breaks h (.verify t)
  /-- The output does not take what is said of the verdict. -/
  | answered {t : VerifyTask} {c : Case} {r : Report} {f : Failure}
      (hcase : (loadCase h.headroom h.files t).run = .ok c) (hreport : c.report? h t = .ok r)
      (houtput : h.outputFault? r.output = some f) : Breaks h (.verify t)
  /-- What is wrong with the inspected file is beyond what a user is told. -/
  | inspected {capability : Text} (hfile : Beyond h.headroom.brackets h.files
      (Path.parse capability)) : Breaks h (.inspect capability)
  /-- There is no room for what the inspected file holds. -/
  | unborne {capability : Text} {v : Value}
      (hv : Holds h.headroom.brackets h.files (Path.parse capability) v)
      (hbears : h.headroom.bears v = false) : Breaks h (.inspect capability)
  /-- The inspected capability cannot be shown. -/
  | unshown {capability : Text} {v : Value} {c : Capability}
      (hv : Holds h.headroom.brackets h.files (Path.parse capability) v)
      (hc : Capability.read .builtIn v = .ok c) (hinvokers : .text "" ∉ c.invokerEntries)
      (hunshown : Unshown h c) : Breaks h (.inspect capability)

section Breaking

variable {s : Settings}

/-- A verification breaks where settings can be read. -/
theorem breaks_verify_iff (hsettings : h.settings.run = .ok s) :
    Breaks h (.verify t) ↔ Strays h.headroom h.files t ∨
      ∃ c, (loadCase h.headroom h.files t).run = .ok c ∧ (c.Stalls h.now.run t ∨
        ∃ r f, c.report? h t = .ok r ∧ h.outputFault? r.output = some f) := by
  constructor
  · intro hbreaks
    cases hbreaks with
    | settings hno => cases hsettings.symm.trans hno
    | verified hstrays => exact .inl hstrays
    | stalled hcase hstalls => exact .inr ⟨_, hcase, .inl hstalls⟩
    | answered hcase hreport houtput => exact .inr ⟨_, hcase, .inr ⟨_, _, hreport, houtput⟩⟩
  · rintro (hstrays | ⟨c, hcase, hstalls | ⟨r, f, hreport, houtput⟩⟩)
    · exact .verified hstrays
    · exact .stalled hcase hstalls
    · exact .answered hcase hreport houtput

/-- An inspection breaks where settings can be read. -/
theorem breaks_inspect_iff {capability : Text} (hsettings : h.settings.run = .ok s) :
    Breaks h (.inspect capability) ↔ Beyond h.headroom.brackets h.files (Path.parse capability) ∨
      ∃ v, Holds h.headroom.brackets h.files (Path.parse capability) v ∧
        (h.headroom.bears v = false ∨ ∃ c, Capability.read .builtIn v = .ok c ∧
          .text "" ∉ c.invokerEntries ∧ Unshown h c) := by
  constructor
  · intro hbreaks
    cases hbreaks with
    | settings hno => cases hsettings.symm.trans hno
    | inspected hfile => exact .inl hfile
    | unborne hv hbears => exact .inr ⟨_, hv, .inl hbears⟩
    | unshown hv hc hinvokers hunshown => exact .inr ⟨_, hv, .inr ⟨_, hc, hinvokers, hunshown⟩⟩
  · rintro (hfile | ⟨v, hv, hbears | ⟨c, hc, hinvokers, hunshown⟩⟩)
    · exact .inspected hfile
    · exact .unborne hv hbears
    · exact .unshown hv hc hinvokers hunshown

theorem ends_perform (hnow : h.now.run.inUtc? ≠ none) (hsettings : h.settings.run = .ok s)
    (setup : Log.Setup) (task : Task) :
    EndsUnless (Breaks h task) (Readable h.headroom.brackets h.files task)
      (perform h setup task).run := by
  cases task with
  | verify t => exact (ends_verify hnow setup).congr (breaks_verify_iff hsettings).symm .rfl
  | inspect capability => exact ends_inspect.congr (breaks_inspect_iff hsettings).symm .rfl

end Breaking

theorem Status.code_eq_two_iff {s : Status} : s.code = 2 ↔ s = .inputError := by
  cases s <;> simp [Status.code]

theorem Status.code_mem (s : Status) : s.code ∈ [0, 1, 2] := by
  cases s <;> simp [Status.code]

/-- A run ends as it is to: with a status, which is two exactly if some file of the task
cannot be read or does not hold what it has to. -/
def EndsWell (h : Host Id) (arguments : List Text) (task : Task) : Prop :=
  ∃ report, run h arguments = .ok (.done report) ∧ report.status.code ∈ [0, 1, 2] ∧
    (report.status.code = 2 ↔ ¬ Readable h.headroom.brackets h.files task)

section Runs

variable {arguments : List Text} {call : Call}

theorem run_of_setUp_error {e : Halt} (hcall : parseCall arguments = .ok call)
    (hsetup : (setUp h call.logLevel).run = .error e) : run h arguments = .error e := by
  show (run h arguments).run = _
  simp only [run, hcall, Id.run_bind, hsetup, Id.run_pure]

theorem run_of_setUp {setup : Log.Setup} (hcall : parseCall arguments = .ok call)
    (hsetup : (setUp h call.logLevel).run = .ok setup) :
    run h arguments = (perform h setup call.task).run.map .done := by
  show (run h arguments).run = _
  simp only [run, hcall, Id.run_bind, hsetup, Id.run_pure]

/-- **HOW A RUN ENDS.**  Where nothing is set and the level of logging has a name, a run
ends with its status exactly if no fault comes in between that the commands do not look out
for; and if one does, the run ends in a failure and without a status. -/
theorem exit_law_iff (hcall : parseCall arguments = .ok call)
    (hlevel : ∀ name, call.logLevel = some name → ∃ l, Log.Level.read (.text name) = .ok l)
    (hunset : h.Unset) (hnow : h.now.run.inUtc? ≠ none) :
    (EndsWell h arguments call.task ↔ ¬ Breaks h call.task) ∧
      (Breaks h call.task → ∃ halt, run h arguments = .error halt) := by
  have hends : (Breaks h call.task → ∃ halt, run h arguments = .error halt) ∧
      (¬ Breaks h call.task → EndsWell h arguments call.task) := by
    -- Settings that cannot be read end the run before its task is looked at.
    cases hsettings : h.settings.run with
    | error e =>
        have hrun : run h arguments = .error e :=
          run_of_setUp_error hcall (setUp_of_error hsettings)
        exact ⟨fun _ => ⟨e, hrun⟩, fun hno => absurd (.settings hsettings) hno⟩
    | ok s =>
        obtain ⟨setup, hsetup⟩ := exists_setUp hsettings hunset hlevel
        have hperform := ends_perform hnow hsettings setup call.task
        have hrun := run_of_setUp hcall hsetup
        refine ⟨fun hbreaks => ?_, fun hno => ?_⟩
        · obtain ⟨e, he⟩ := hperform.halt hbreaks
          rw [hrun, he]
          exact ⟨e, rfl⟩
        · obtain ⟨r, hr, hstatus⟩ := hperform.report hno
          rw [hr] at hrun
          exact ⟨r, hrun, r.status.code_mem, Status.code_eq_two_iff.trans hstatus⟩
  refine ⟨⟨?_, hends.2⟩, hends.1⟩
  rintro ⟨report, hdone, -⟩ hbreaks
  obtain ⟨halt, hhalt⟩ := hends.1 hbreaks
  cases hdone.symm.trans hhalt

end Runs

/-- A tree of files that nothing is written to. -/
def standing (tree : Files.Tree) : Files.Access Id where
  isDirectory := tree.isDirectory
  isFile := tree.isFile
  names := tree.names
  read := tree.read
  append := fun _ _ => .ok ()

/-- A desk with one file on it, at noon of the first of June 2026, and with an output in
UTF-8. -/
def deskWith (bytes : List UInt8) : Host Id where
  files := standing ⟨[(["cap.json"], .file bytes)]⟩
  settings := .ok .default
  now := Verification.juneNoon
  freshId := "00000000-0000-4000-8000-000000000001"
  terminal := false
  complain := fun _ => ()
  outputFault? := Host.utf8Fault?
  headroom := .ample

theorem settings_deskWith (bytes : List UInt8) :
    (deskWith bytes).settings.run = .ok .default := rfl

theorem unset_deskWith (bytes : List UInt8) : (deskWith bytes).Unset := by
  intro s hs
  cases hs
  rfl

/-- The bytes of a document with nothing but a name. -/
def namedBytes : List UInt8 :=
  (Json.oneField "id".toList "urn:zcap:root".toList).map fun c => UInt8.ofNat c.toNat

theorem holds_namedBytes :
    Holds none (deskWith namedBytes).files (Path.parse "cap.json")
      (.object [("id", .text "urn:zcap:root")]) := by
  refine ⟨by decide, namedBytes, Json.oneField "id".toList "urn:zcap:root".toList, rfl, rfl, ?_⟩
  unfold Json.readWithin
  rw [Text.points_plain, String.toList_ofList]
  exact Json.readPoints_oneField (by simp [Json.IsPlain]) (by simp [Json.IsPlain])

/-- The inspection of a root ends as it is to. -/
theorem named_file_inspected :
    EndsWell (deskWith namedBytes) ["inspect", "cap.json"] (.inspect "cap.json") := by
  have hcall : parseCall ["inspect", "cap.json"] = .ok ⟨none, .inspect "cap.json"⟩ := by cbv
  have hread : Capability.read .builtIn (.object [("id", .text "urn:zcap:root")])
      = .ok (Capability.bare "urn:zcap:root" ⟨"urn:zcap:root", ""⟩) :=
    Capability.read_eq_ok_iff.mpr ⟨rfl, Capability.validateChain_of_root rfl⟩
  refine (exit_law_iff hcall (by simp) (unset_deskWith _) (by decide)).1.mpr ?_
  intro hbreaks
  cases hbreaks with
  | settings hsettings =>
      rw [settings_deskWith] at hsettings
      cases hsettings
  | inspected hfile => exact holds_namedBytes.not_beyond hfile
  | unborne hv hbears => cases hbears
  | unshown hv hc hinvokers hunshown =>
      rw [hv.eq holds_namedBytes, hread] at hc
      cases hc
      cases hunshown with
      | time hk htime => cases hk
      | output hnames hsummary houtput => cases houtput

/-- The inspection of a file with a byte that no text has ends in a failure of its own, and
with no status. -/
theorem stray_byte_escapes :
    parseCall ["inspect", "cap.json"] = .ok ⟨none, .inspect "cap.json"⟩ ∧
    (deskWith [0xFF]).Unset ∧
    ¬ EndsWell (deskWith [0xFF]) ["inspect", "cap.json"] (.inspect "cap.json") ∧
    run (deskWith [0xFF]) ["inspect", "cap.json"]
      = .error (.failure (.undecodable ⟨.utf8, 0, 1, 0xFF, .startByte⟩)) := by
  have hcall : parseCall ["inspect", "cap.json"] = .ok ⟨none, .inspect "cap.json"⟩ := by cbv
  have hlevel : ∀ name : Text, none = some name → ∃ l, Log.Level.read (.text name) = .ok l := by
    simp
  obtain ⟨setup, hsetup⟩ := exists_setUp (settings_deskWith [0xFF]) (unset_deskWith _) hlevel
  have hrun : run (deskWith [0xFF]) ["inspect", "cap.json"]
      = .error (.failure (.undecodable ⟨.utf8, 0, 1, 0xFF, .startByte⟩)) := by
    rw [run_of_setUp hcall hsetup]
    rfl
  refine ⟨hcall, unset_deskWith _, ?_, hrun⟩
  intro hends
  obtain ⟨report, hdone, -⟩ := hends
  cases hrun.symm.trans hdone

end Command

end Mandate
