/-
  Mandate.Proofs.Command.SetUp
  ────────────────────────────────
  **SETTING UP WITHOUT SETTINGS.**

  Before a task is done, the settings are read and logging is set up by them.  Where nothing
  is set, all settings that can be read are the defaults.

  Main results:
    * `Log.Setup.exists_of`  — logging can be set up by the defaults, at any level with a name;
    * `exists_setUp`         — so setting up goes well where nothing is set, if the settings can
                               be read.
-/
import Mandate.Command.Run
import Mandate.Proofs.Success

namespace Mandate

/-! ## §1. Logging. -/

/-- Logging can be set up by the defaults, at the level that they have or at any other with a
name, and without a file of log lines. -/
theorem Log.Setup.exists_of {level : Option Text}
    (h : ∀ name, level = some name → ∃ l, Level.read (.text name) = .ok l) (terminal : Bool)
    (json : Option Bool) :
    ∃ setup, Setup.of .default terminal ⟨level.map .text, json, none, none⟩ = .ok setup ∧
      setup.file = none := by
  have hroot : ∃ root, rootLevel .default (level.map .text) = .ok root := by
    cases level with
    | none => exact ⟨.info, rfl⟩
    | some name => exact h name rfl
  obtain ⟨root, hroot⟩ := hroot
  unfold Setup.of
  simp only [hroot]
  exact ⟨_, rfl, rfl⟩

/-! ## §2. The process. -/

/-- Nothing is set: the settings, if they can be read, are the defaults. -/
def Host.Unset (h : Host Id) : Prop :=
  ∀ s, h.settings.run = .ok s → s = .default

variable {h : Host Id} {level : Option Text}

/-- Settings that cannot be read stop everything. -/
theorem Command.setUp_of_error {e : Halt} (hsettings : h.settings.run = .error e) :
    (setUp h level).run = .error e := by
  unfold setUp Host.configure
  simp only [Id.run_bind, hsettings]
  rfl

/-- Where nothing is set, setting up goes well at any level with a name, if the settings can be
read. -/
theorem Command.exists_setUp {s : Settings} (hsettings : h.settings.run = .ok s) (hunset : h.Unset)
    (hlevel : ∀ name, level = some name → ∃ l, Log.Level.read (.text name) = .ok l) :
    ∃ setup, (setUp h level).run = .ok setup := by
  obtain ⟨setup, hsetup, hfile⟩ := Log.Setup.exists_of hlevel h.terminal (some false)
  refine ⟨setup, ?_⟩
  rw [hunset s hsettings] at hsettings
  unfold setUp Host.configure
  simp only [Id.run_bind, hsettings, hsetup, hfile, Id.run_pure]

end Mandate
