/-
  Mandate.Proofs.Command.Loading
  ────────────────────────────────
  **WHAT FILES HOLD.**

  Documents are loaded from one file after the other, up to the first that holds none.  Of
  most faults a user is told; some are beyond that, and end the command that meets them.

      Holds    — a file holds a value
      Beyond   — what is wrong with a file is beyond what a user is told
      members  — the files that several paths stand for

  Main results:
    * `loadValue_eq_ok_iff`      — a value is loaded exactly from a file that holds it;
    * `exists_beyond_iff`        — a fault that no user is told about is one beyond that;
    * `loadDocuments_eq_ok_iff`  — the documents of all members, if each holds a value;
    * `exists_beyond_member_iff` — the first member without one may have such a fault.
-/
import Mandate.Command.Documents
import Mandate.Proofs.Success

namespace Mandate.Command

open Files (Path)
open Json (Value)

variable {room : Json.Room} {files : Files.Access Id} {path : Path} {paths : List Path}
  {texts : List Text} {v : Value} {documents : List Value}

/-! ## §1. One file. -/

/-- A file holds a value: there is such a path, and the bytes are a text with this value, for
which there is room. -/
def Holds (room : Json.Room) (files : Files.Access Id) (path : Path) (v : Value) : Prop :=
  path.fault? = none ∧ ∃ bytes cs, (files.read path).run = .ok bytes ∧
    Files.textOf bytes = .ok cs ∧ Json.readWithin room (String.ofList cs) = .ok v

/-- What is wrong with a file is beyond what a user is told. -/
inductive Beyond (room : Json.Room) (files : Files.Access Id) (path : Path) : Prop where
  /-- No file has such a path. -/
  | path {fault : Path.Fault} (h : path.fault? = some fault)
  /-- The bytes are no text. -/
  | bytes {bytes : List UInt8} {u : Text.Undecodable} (hread : (files.read path).run = .ok bytes)
      (h : Files.textOf bytes = .error u)
  /-- The first fault of the text is an integer that is too long, or a bracket that there is no
  room for. -/
  | limit {bytes : List UInt8} {cs : List Char} {m : Json.Misread}
      (hread : (files.read path).run = .ok bytes) (htext : Files.textOf bytes = .ok cs)
      (h : Json.readWithin room (String.ofList cs) = .error m) (hcause : m.cause.isLimit = true)

theorem loadValue_of_unnamable {fault : Path.Fault} (h : path.fault? = some fault) :
    (loadValue room files path).run = .error (.unnamable fault) := by
  unfold loadValue
  rw [h]
  rfl

theorem loadValue_of_unopened {fault : Files.OpenFault} (h : path.fault? = none)
    (hread : (files.read path).run = .error fault) :
    (loadValue room files path).run = .error (.unopened path fault) := by
  unfold loadValue
  rw [h, Id.run_bind, hread]
  rfl

theorem loadValue_of_read {bytes : List UInt8} (h : path.fault? = none)
    (hread : (files.read path).run = .ok bytes) :
    (loadValue room files path).run = readBytes room bytes := by
  unfold loadValue
  rw [h, Id.run_bind, hread]
  rfl

theorem readBytes_eq_ok_iff {bytes : List UInt8} :
    readBytes room bytes = .ok v ↔
      ∃ cs, Files.textOf bytes = .ok cs ∧ Json.readWithin room (String.ofList cs) = .ok v := by
  unfold readBytes
  cases Files.textOf bytes with
  | error u => simp
  | ok cs => simp [mapError_eq_ok_iff]

/-- A value is loaded exactly from a file that holds it. -/
theorem loadValue_eq_ok_iff :
    (loadValue room files path).run = .ok v ↔ Holds room files path v := by
  unfold Holds
  cases hfault : path.fault? with
  | some fault => simp [loadValue_of_unnamable hfault]
  | none =>
      cases hread : (files.read path).run with
      | error fault => simp [loadValue_of_unopened hfault hread]
      | ok bytes => simp [loadValue_of_read hfault hread, readBytes_eq_ok_iff]

theorem message?_misread_eq_none_iff {m : Json.Misread} :
    (LoadFault.misread m).message? = none ↔ m.cause.isLimit = true := by
  rw [LoadFault.message?]
  cases m.cause.isLimit <;> simp

theorem exists_beyond_bytes_iff {bytes : List UInt8} :
    (∃ f, readBytes room bytes = .error f ∧ f.message? = none) ↔
      (∃ u, Files.textOf bytes = .error u) ∨
        ∃ cs m, Files.textOf bytes = .ok cs ∧ Json.readWithin room (String.ofList cs) = .error m ∧
          m.cause.isLimit = true := by
  unfold readBytes
  cases Files.textOf bytes with
  | error u => simp [LoadFault.message?]
  | ok cs =>
      cases hread : Json.readWithin room (String.ofList cs) with
      | error m => simp [Except.mapError, hread, message?_misread_eq_none_iff]
      | ok v => simp [Except.mapError, hread]

/-- A file is not loaded, and no user is told why, exactly if that is beyond it. -/
theorem exists_beyond_iff :
    (∃ f, (loadValue room files path).run = .error f ∧ f.message? = none) ↔
      Beyond room files path := by
  cases hfault : path.fault? with
  | some fault => exact iff_of_true ⟨_, loadValue_of_unnamable hfault, rfl⟩ (.path hfault)
  | none =>
      constructor
      · rintro ⟨f, hload, hmessage⟩
        cases hread : (files.read path).run with
        | error fault =>
            rw [loadValue_of_unopened hfault hread] at hload
            cases hload
            cases hmessage
        | ok bytes =>
            rw [loadValue_of_read hfault hread] at hload
            obtain ⟨u, h⟩ | ⟨cs, m, htext, h, hcause⟩ :=
              exists_beyond_bytes_iff.mp ⟨f, hload, hmessage⟩
            · exact .bytes hread h
            · exact .limit hread htext h hcause
      · intro h
        cases h with
        | path h => cases hfault.symm.trans h
        | bytes hread h =>
            rw [loadValue_of_read hfault hread]
            exact exists_beyond_bytes_iff.mpr (.inl ⟨_, h⟩)
        | limit hread htext h hcause =>
            rw [loadValue_of_read hfault hread]
            exact exists_beyond_bytes_iff.mpr (.inr ⟨_, _, htext, h, hcause⟩)

/-- A file holds one value. -/
theorem Holds.eq {v w : Value} (hv : Holds room files path v) (hw : Holds room files path w) :
    v = w :=
  Except.ok.inj ((loadValue_eq_ok_iff.mpr hv).symm.trans (loadValue_eq_ok_iff.mpr hw))

/-- Nothing is wrong with a file that holds a value. -/
theorem Holds.not_beyond (h : Holds room files path v) : ¬ Beyond room files path := by
  intro hbeyond
  obtain ⟨f, hload, -⟩ := exists_beyond_iff.mpr hbeyond
  rw [loadValue_eq_ok_iff.mpr h] at hload
  cases hload

/-! ## §2. Several files. -/

theorem loadFiles_cons (path : Path) (paths : List Path) :
    (loadFiles room files (path :: paths)).run = (loadValue room files path).run >>= fun v =>
      (loadFiles room files paths).run.map (documentsOf v ++ ·) := by
  rw [loadFiles]
  cases loadValue room files path <;> rfl

/-- The documents of files are those in their values, one file after the other. -/
theorem loadFiles_eq (paths : List Path) :
    (loadFiles room files paths).run =
      (paths.mapM fun path => (loadValue room files path).run).map (·.flatMap documentsOf) := by
  induction paths with
  | nil => rfl
  | cons path paths ih =>
      rw [List.mapM_cons, loadFiles_cons, ih]
      cases (loadValue room files path).run with
      | error f => rfl
      | ok v => cases paths.mapM fun path => (loadValue room files path).run <;> rfl

theorem loadFiles_append (paths more : List Path) :
    (loadFiles room files (paths ++ more)).run = (loadFiles room files paths).run >>= fun before =>
      (loadFiles room files more).run.map (before ++ ·) := by
  simp only [loadFiles_eq, List.mapM_append]
  cases paths.mapM fun path => (loadValue room files path).run with
  | error f => rfl
  | ok vs =>
      cases more.mapM fun path => (loadValue room files path).run with
      | error f => rfl
      | ok ws => exact congrArg Except.ok List.flatMap_append

/-- The files that several paths stand for. -/
def members (files : Files.Access Id) (texts : List Text) : List Path :=
  texts.flatMap fun text => (filesOf files (Path.parse text)).run

theorem loadDocuments_cons (text : Text) (texts : List Text) :
    (loadDocuments room files (text :: texts)).run =
      (loadFiles room files (filesOf files (Path.parse text)).run).run >>= fun before =>
        (loadDocuments room files texts).run.map (before ++ ·) := by
  rw [loadDocuments]
  simp only [Id.run_bind]
  cases (loadFiles room files (filesOf files (Path.parse text)).run).run <;> rfl

theorem loadDocuments_eq (texts : List Text) :
    (loadDocuments room files texts).run = (loadFiles room files (members files texts)).run := by
  induction texts with
  | nil => rfl
  | cons text texts ih =>
      have hmembers : members files (text :: texts)
          = (filesOf files (Path.parse text)).run ++ members files texts := List.flatMap_cons
      rw [loadDocuments_cons, ih, hmembers, loadFiles_append]

/-- All documents are loaded exactly if every member holds a value. -/
theorem loadDocuments_eq_ok_iff :
    (loadDocuments room files texts).run = .ok documents ↔
      ∃ vs, List.Forall₂ (Holds room files) (members files texts) vs ∧
        documents = vs.flatMap documentsOf := by
  simp only [loadDocuments_eq, loadFiles_eq, map_eq_ok_iff, mapM_eq_ok_iff, loadValue_eq_ok_iff,
    eq_comm (a := documents)]

/-- A fact holds of all loaded documents exactly if every member holds a value that it holds
of. -/
theorem exists_documents_iff {P : Value → Prop} :
    (∃ documents, (loadDocuments room files texts).run = .ok documents ∧ ∀ d ∈ documents, P d) ↔
      ∀ path ∈ members files texts, ∃ v, Holds room files path v ∧ ∀ d ∈ documentsOf v, P d := by
  rw [← exists_forall₂_flatMap_iff]
  simp only [loadDocuments_eq_ok_iff]
  constructor
  · rintro ⟨_, ⟨vs, hvs, rfl⟩, hP⟩
    exact ⟨vs, hvs, hP⟩
  · rintro ⟨vs, hvs, hP⟩
    exact ⟨_, ⟨vs, hvs, rfl⟩, hP⟩

/-- The documents are not loaded, and no user is told why, exactly if that is beyond it for
the first member that holds no value. -/
theorem exists_beyond_member_iff :
    (∃ f, (loadDocuments room files texts).run = .error f ∧ f.message? = none) ↔
      ∃ before path after, members files texts = before ++ path :: after ∧
        (∀ p ∈ before, ∃ v, Holds room files p v) ∧ Beyond room files path := by
  have hmap : ∀ f, (loadDocuments room files texts).run = .error f ↔
      ((members files texts).mapM fun path => (loadValue room files path).run) = .error f := by
    intro f
    rw [loadDocuments_eq, loadFiles_eq]
    exact map_eq_error_iff
  simp only [hmap, mapM_eq_error_iff, loadValue_eq_ok_iff, ← exists_beyond_iff]
  constructor
  · rintro ⟨f, ⟨before, path, after, hsplit, hbefore, hload⟩, hmessage⟩
    exact ⟨before, path, after, hsplit, hbefore, f, hload, hmessage⟩
  · rintro ⟨before, path, after, hsplit, hbefore, f, hload, hmessage⟩
    exact ⟨f, ⟨before, path, after, hsplit, hbefore, hload⟩, hmessage⟩

end Mandate.Command
