/-
  Mandate.Purpose.Controller
  ────────────────────────────────
  **METHODS AUTHORIZED BY THEIR CONTROLLER.**

  A controller publishes a document with its methods and a list of those that
  may invoke capabilities.  An entry of that list is the name of a method or a
  whole method.  The demand on a proof is that it was signed with a method that
  the method's controller lists.
-/
import Mandate.Verification.Verifier

namespace Mandate.Purpose

open Json (Value Fields)

/-! ## §1. Documents. -/

/-- The parts of a controller's document that invocations look at. -/
structure ControllerDocument where
  id : Text
  methods : List Method
  /-- The names of the methods that may invoke capabilities. -/
  invocation : List Text

namespace ControllerDocument

/-- A method may invoke capabilities. -/
def authorizes (d : ControllerDocument) (method : Text) : Bool :=
  d.invocation.contains method

/-- The methods that a list of values describes. -/
def readMethods : List Value → Except FormatFault (List Method)
  | [] => .ok []
  | .object fs :: vs => do
      let m ← Method.ofFields fs
      return m :: (← readMethods vs)
  | v :: _ => .error (.controllerMethod v)

/-- What an entry of the list of invoking methods stands for: a name, or a
method with its name. -/
inductive Entry where
  | name (id : Text)
  | method (m : Method)

/-- The name that an entry lists. -/
def Entry.id : Entry → Text
  | .name id => id
  | .method m => m.id

/-- The method that an entry brings along. -/
def Entry.method? : Entry → Option Method
  | .name _ => none
  | .method m => some m

/-- One entry. -/
def readEntry : Value → Except FormatFault Entry
  | .object fs => (Method.ofFields fs).map .method
  | v =>
      match Document.properText? v with
      | some id => .ok (.name id)
      | none => .error (.controllerEntry v)

/-- A controller's document by its fields. -/
def ofFields (fields : Fields) : Except FormatFault ControllerDocument := do
  let idValue := Document.field fields "id"
  let id ← match Document.properText? idValue with
    | some id => .ok id
    | none => .error (.controllerId idValue)
  let methodValues ←
    Document.readValues "verificationMethod" (Document.field fields "verificationMethod")
  let methods ← readMethods methodValues
  let entryValues ←
    Document.readValues "capabilityInvocation" (Document.field fields "capabilityInvocation")
  let entries ← entryValues.mapM readEntry
  return { id, methods := methods ++ entries.filterMap (·.method?),
           invocation := entries.map (·.id) }

/-- The document that a value denotes. -/
def read : Value → Except Failure ControllerDocument
  | .object fields =>
      match ofFields fields with
      | .ok d => .ok d
      | .error f => .error (.malformed f)
  | v => .error (.shape v "get")

end ControllerDocument

/-! ## §2. Finding a document. -/

/-- Finds the document of a controller. -/
abbrev ControllerResolver (m : Type → Type) := Text → m (Except Failure ControllerDocument)

/-- The documents that are at hand, the last one of each name. -/
abbrev Directory := Table Text ControllerDocument

namespace Directory

/-- Take up a document, in place of an earlier one of its name. -/
def add (d : Directory) (document : ControllerDocument) : Directory :=
  Table.put d document.id document

/-- The documents of a list, taken up one after the other. -/
def ofList (documents : List ControllerDocument) : Directory :=
  documents.foldl add []

/-- The document of a controller. -/
def resolve (d : Directory) (controller : Text) : Except Failure ControllerDocument :=
  match d.lookup controller with
  | some document => .ok document
  | none => .error (.denied (.controllerUnknown controller))

end Directory

/-! ## §3. The demand. -/

/-- The proof names the method that signed, if it names one. -/
def checkSigner (proof : Proof) (m : Method) : Except Failure Unit :=
  if proof.method ≠ "" ∧ proof.method ≠ m.id then
    .error (.denied (.proofMethod m.id proof.method))
  else .ok ()

/-- The answer to the question for a controller's document authorizes a
method. -/
def judgeController (controller method : Text) :
    Except Failure ControllerDocument → Except Failure Unit
  | .error (.fault (.denial d)) =>
      if d.kind = .resolution then
        .error (.fault (.denial (.controllerUnresolved controller d)))
      else .error (.fault (.denial d))
  | .error e => .error e
  | .ok document =>
      if document.id ≠ controller then
        .error (.denied (.controllerOther controller document.id))
      else if document.authorizes method then .ok ()
      else .error (.denied (.methodUnauthorized controller method))

/-- The signing method is authorized by its controller. -/
def controllerPurpose {m : Type → Type} [Monad m] (resolve : ControllerResolver m) :
    Mandate.Purpose m :=
  fun proof inv =>
    match checkSigner proof inv.method with
    | .error e => pure (.error e)
    | .ok () => do
        let controller := inv.method.principal
        return judgeController controller inv.method.id (← resolve controller)

end Mandate.Purpose
