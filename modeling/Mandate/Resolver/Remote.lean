/-
  Mandate.Resolver.Remote
  ────────────────────────────────
  **CAPABILITIES FETCHED OVER HTTP.**

  A name that is a web address is fetched from there; any other name is fetched
  from below a base address, percent-encoded.  What comes back has to be a
  document that denotes a capability of the name that was asked for.

  Requests are made by a client (`Client`), which may be anything.  Which
  addresses and headers it takes is its own affair, and so is the failure that
  it ends in where it takes none; only what happens on the way to an answer is
  known here (`Miss.transport`).
-/
import Mandate.Capability.Headroom
import Mandate.Resolver.Cached

namespace Mandate

open Json (Value)

/-! ## §1. Percent-encoding. -/

/-- The octets that stand for themselves in a percent-encoded text. -/
def isUnreserved (c : Char) : Bool :=
  c.isAlphanum || c == '_' || c == '.' || c == '-' || c == '~'

/-- An octet in percent-encoding. -/
def percentByte (b : UInt8) : List Char :=
  let c := Char.ofNat b.toNat
  if isUnreserved c then [c]
  else
    let digit (d : Nat) : Char := (Text.hexDigit d).toUpper
    ['%', digit (b.toNat / 16), digit (b.toNat % 16)]

/-- A text in percent-encoding. -/
def percentEncoded (s : String) : String :=
  String.ofList (s.toUTF8.data.toList.flatMap percentByte)

/-! ## §2. Requests. -/

/-- An address without slashes at its end. -/
def withoutSlashes (t : Text) : Text :=
  .ofPoints ((t.points.reverse.dropWhile (· == .char '/')).reverse)

/-- Where and how capabilities are fetched. -/
structure Remote where
  /-- The address that names are looked up below, if any. -/
  base : Option Text
  /-- The headers of a request. -/
  headers : Table String String

namespace Remote

/-- The headers of every request: what is accepted, then the given ones. -/
def headersWith (given : Table String String) : Table String String :=
  Table.putAll [("Accept", "application/json")] given

/-- A remote resolver; an empty base is none. -/
def ofBase (base : Option Text) (headers : Table String String) : Remote :=
  { base := match base with
      | some b => if b.isEmpty then none else some (withoutSlashes b)
      | none => none
    headers := headersWith headers }

/-- A request for a document. -/
structure Request where
  url : Text
  headers : Table String String
  deriving DecidableEq, Repr

/-- What came back: a status and a body. -/
structure Response where
  status : Int
  body : List UInt8

/-- Why nothing came back. -/
inductive Miss where
  /-- The request went out and failed on its way. -/
  | transport (fault : TransportFault)
  /-- Anything else that a client ends in, by its own name and words: it may not take the
  address, or a header. -/
  | other (name : String) (text : Text)

/-- What requests are made by. -/
abbrev Client (m : Type → Type) := Request → m (Except Miss Response)

/-- A name is a web address. -/
def isAddress (uri : Text) : Bool :=
  uri.startsWith "https://" || uri.startsWith "http://"

/-- The address of a name.  A name with halves has no place below another address. -/
def url (r : Remote) (uri : Text) : Except Failure Text :=
  if isAddress uri then .ok uri
  else
    match r.base with
    | none => .error (.denied (.noBaseUrl uri))
    | some base =>
        match uri.encoded with
        | .ok s => .ok (base ++ "/" ++ percentEncoded s)
        | .error u => .error (.unencodable u)

/-- The request for the document of a name. -/
def request (r : Remote) (uri : Text) : Except Failure Request := do
  return { url := ← r.url uri, headers := r.headers }

/-! ## §3. Answers. -/

/-- The capability in a body. -/
def readBody (room : Headroom) (known : Registry) (uri : Text) (body : List UInt8) :
    Except Failure Capability :=
  match Text.decodeBody body with
  | .error u => .error (.undecodable u)
  | .ok ps =>
      match Json.readPoints room.brackets ps with
      | .error e =>
          if e.cause.isLimit then .error (.misread e)
          else .error (.denied (.fetchedNoJson uri e))
      | .ok document =>
          match Capability.take room known document with
          | .error (.refused r) => .error (.fault (.denial (.fetchedMalformed uri r)))
          | .error .exhausted => .error .exhausted
          | .ok c =>
              if c.id = uri then .ok c
              else .error (.denied (.fetchedOther uri c.id))

/-- The capability in what came back for a name. -/
def answer (room : Headroom) (known : Registry) (uri : Text) :
    Except Miss Response → Except Failure Capability
  | .error (.transport fault) => .error (.denied (.fetchFailed uri fault))
  | .error (.other name text) => .error (.foreign name text)
  | .ok response =>
      if 400 ≤ response.status then .error (.denied (.fetchStatus uri response.status))
      else readBody room known uri response.body

/-- The event of a capability that was fetched. -/
def fetchedEvent (uri url : Text) : Log.Event :=
  .debug Resolver.logger ("Resolved capability " ++ uri ++ " from " ++ url)

/-- Fetch the capability of a name. -/
def resolve {m : Type → Type} [Monad m] (room : Headroom) (known : Registry) (r : Remote)
    (note : Log.Event → m Unit) (client : Client m) : Resolver m :=
  fun uri =>
    match r.request uri with
    | .error e => pure (.error e)
    | .ok request => do
        let result := answer room known uri (← client request)
        match result with
        | .ok _ => note (fetchedEvent uri request.url)
        | .error _ => pure ()
        return result

end Remote

end Mandate
