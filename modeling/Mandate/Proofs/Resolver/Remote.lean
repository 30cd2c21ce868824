/-
  Mandate.Proofs.Resolver.Remote
  ────────────────────────────────
  **WHAT COMES OF A REQUEST.**

  A resolver promises one of two things: the capability, or a failure which says that this
  name could not be resolved.  A remote resolver goes back on it in two ways.  A name that no
  address can be made of, a client that takes no such request and some bodies fail in a way of
  their own, and an answer with a status below 400 is taken for the document, whether it is one
  of success or not.

      Closed    — a result is a capability of a sort, or the failure to resolve a name
      Placeable — a name that a request can be made for, if there is anything to look it up at
      Proper    — a reply that a remote deals with as it promises

  Main results:
    * `unresolved_of_readBody_iff` — which bodies are looked into;
    * `closed_answer_iff`          — what comes of a reply is closed exactly if it is proper;
    * `closed_resolve_iff`         — so resolving a name is closed exactly if the name is
                                     placeable and the reply to the request for it, if there is
                                     one, is proper.
-/
import Mandate.Proofs.Capability.Reading
import Mandate.Proofs.Json.Reading
import Mandate.Proofs.Resolver.Faithful

namespace Mandate.Remote

variable {room : Headroom} {known : Registry} {uri : Text} {body : List UInt8}

/-! ## §1. Results. -/

/-- A failure to resolve a name, which says so. -/
def Unresolved (uri : Text) (e : Failure) : Prop :=
  ∃ d, e = .fault (.denial d) ∧ d.kind = .resolution ∧ d.uri? = some uri

/-- A result is a capability of a sort, or the failure to resolve the name. -/
def Closed (uri : Text) (P : Capability → Prop) : Except Failure Capability → Prop
  | .ok c => P c
  | .error e => Unresolved uri e

theorem unresolved_plain {r : Reason} (hkind : r.kind = .resolution) (huri : r.uri? = some uri) :
    Unresolved uri (.denied r) :=
  ⟨.plain r, rfl, hkind, huri⟩

theorem not_unresolved {e : Failure} (h : ∀ f, e ≠ .fault f) : ¬ Unresolved uri e := by
  intro hd
  obtain ⟨d, hd, -⟩ := hd
  exact h _ hd

/-! ## §2. Bodies. -/

/-- A body holds a document that denotes a capability. -/
def Denotes (room : Headroom) (known : Registry) (body : List UInt8) (c : Capability) : Prop :=
  ∃ ps document, Text.decodeBody body = .ok ps ∧
    Json.readPoints room.brackets ps = .ok document ∧ room.bears document = true ∧
    Capability.read known document = .ok c

/-- A body that is not looked into: it is no text, or the first thing wrong with it is that it
goes beyond a limit, or there is no room left for its document. -/
def Unreadable (room : Headroom) (body : List UInt8) : Prop :=
  (∃ u, Text.decodeBody body = .error u) ∨
    ∃ ps, Text.decodeBody body = .ok ps ∧
      ((∃ e, Json.readPoints room.brackets ps = .error e ∧ e.cause.isLimit = true) ∨
        ∃ document, Json.readPoints room.brackets ps = .ok document ∧
          room.bears document = false)

theorem Denotes.readable {c : Capability} (h : Denotes room known body c) :
    ¬ Unreadable room body := by
  obtain ⟨ps, document, hdecode, hread, hbears, -⟩ := h
  simp [Unreadable, hdecode, hread, hbears]

/-- A capability of the name is read from a body exactly if the body denotes it. -/
theorem readBody_eq_ok_iff {c : Capability} :
    readBody room known uri body = .ok c ↔ Denotes room known body c ∧ c.id = uri := by
  constructor
  · intro h
    refine ⟨?_, id_of_readBody h⟩
    unfold readBody at h
    split at h
    next => cases h
    next ps hdecode =>
      split at h
      next => split at h <;> cases h
      next document hread =>
        split at h
        next => cases h
        next => cases h
        next c' hc =>
          split at h
          next =>
            cases h
            obtain ⟨hbears, hc⟩ := Capability.take_eq_ok_iff.mp hc
            exact ⟨ps, document, hdecode, hread, hbears, hc⟩
          next => cases h
  · intro h
    obtain ⟨⟨ps, document, hdecode, hread, hbears, hc⟩, hid⟩ := h
    have htake := Capability.take_eq_ok_iff.mpr ⟨hbears, hc⟩
    unfold readBody
    simp only [hdecode, hread, htake, if_pos hid]

/-- What a body fails with is the failure to resolve the name, unless the body is not looked
into. -/
theorem unresolved_of_readBody_iff {e : Failure} (h : readBody room known uri body = .error e) :
    Unresolved uri e ↔ ¬ Unreadable room body := by
  unfold readBody at h
  split at h
  next u hdecode =>
    cases h
    exact iff_of_false (not_unresolved (by simp)) (not_not.mpr (.inl ⟨u, hdecode⟩))
  next ps hdecode =>
    split at h
    next misread hread =>
      split at h
      next hlimit =>
        cases h
        refine iff_of_false (not_unresolved (by simp)) (not_not.mpr ?_)
        exact .inr ⟨ps, hdecode, .inl ⟨misread, hread, hlimit⟩⟩
      next hlimit =>
        cases h
        refine iff_of_true (unresolved_plain rfl rfl) ?_
        simpa [Unreadable, hdecode, hread] using hlimit
    next document hread =>
      split at h
      next r htake =>
        cases h
        have hbears := (Capability.take_eq_refused_iff.mp htake).1
        refine iff_of_true ⟨.fetchedMalformed uri r, rfl, rfl, rfl⟩ ?_
        simp [Unreadable, hdecode, hread, hbears]
      next htake =>
        cases h
        have hbears := Capability.take_eq_exhausted_iff.mp htake
        refine iff_of_false (not_unresolved (by simp [Failure.exhausted])) (not_not.mpr ?_)
        exact .inr ⟨ps, hdecode, .inr ⟨document, hread, hbears⟩⟩
      next c hc =>
        have hbears := (Capability.take_eq_ok_iff.mp hc).1
        split at h
        next => cases h
        next =>
          cases h
          refine iff_of_true (unresolved_plain rfl rfl) ?_
          simp [Unreadable, hdecode, hread, hbears]

/-! ## §3. Answers. -/

/-- A reply that a remote deals with as it promises: the client takes the request, and if
something comes back with a status that does not refuse, its body is looked into, and only a
status of success lets a capability through. -/
inductive Proper (room : Headroom) (known : Registry) (uri : Text) :
    Except Miss Response → Prop where
  /-- The request fails on its way. -/
  | missed (fault : TransportFault) : Proper room known uri (.error (.transport fault))
  /-- The status refuses. -/
  | refused {response : Response} (h : 400 ≤ response.status) :
      Proper room known uri (.ok response)
  /-- The body is looked into. -/
  | read {response : Response} (readable : ¬ Unreadable room response.body)
      (success : ∀ c, Denotes room known response.body c → c.id = uri →
        200 ≤ response.status ∧ response.status < 300) : Proper room known uri (.ok response)

/-- The capability is that of an answer of success. -/
def Delivered (room : Headroom) (known : Registry) (uri : Text) (reply : Except Miss Response)
    (c : Capability) : Prop :=
  ∃ response, reply = .ok response ∧ 200 ≤ response.status ∧ response.status < 300 ∧
    Denotes room known response.body c ∧ c.id = uri

/-- What comes of a reply is closed exactly if the reply is proper. -/
theorem closed_answer_iff {reply : Except Miss Response} :
    Closed uri (Delivered room known uri reply) (answer room known uri reply) ↔
      Proper room known uri reply := by
  cases reply with
  | error miss =>
      cases miss with
      | transport fault => exact iff_of_true (unresolved_plain rfl rfl) (.missed fault)
      | other name text => exact iff_of_false (not_unresolved (by simp)) nofun
  | ok response =>
      by_cases hstatus : 400 ≤ response.status
      · -- A status that refuses is told, and nothing else is looked at.
        rw [answer, if_pos hstatus]
        exact iff_of_true (unresolved_plain rfl rfl) (.refused hstatus)
      · rw [answer, if_neg hstatus]
        cases hbody : readBody room known uri response.body with
        | error e =>
            have hnone : ∀ c, Denotes room known response.body c → c.id ≠ uri := by
              intro c hc hid
              rw [readBody_eq_ok_iff.mpr ⟨hc, hid⟩] at hbody
              cases hbody
            rw [Closed, unresolved_of_readBody_iff hbody]
            constructor
            · intro hreadable
              exact .read hreadable fun c hc hid => absurd hid (hnone c hc)
            · intro hproper
              cases hproper with
              | refused h => exact absurd h hstatus
              | read readable _ => exact readable
        | ok c =>
            obtain ⟨hc, hid⟩ := readBody_eq_ok_iff.mp hbody
            constructor
            · intro hdelivered
              obtain ⟨_, heq, hlow, hhigh, -⟩ := hdelivered
              cases heq
              exact .read hc.readable fun _ _ _ => ⟨hlow, hhigh⟩
            · intro hproper
              cases hproper with
              | refused h => exact absurd h hstatus
              | read _ success =>
                  obtain ⟨hlow, hhigh⟩ := success c hc hid
                  exact ⟨response, rfl, hlow, hhigh, hc, hid⟩

/-! ## §4. Resolving. -/

/-- A name that a request can be made for, if there is anything to look it up at: it is an
address, or it has no halves, so that it can be put below another address. -/
def Placeable (r : Remote) (uri : Text) : Prop :=
  isAddress uri = true ∨ r.base = none ∨ uri.Whole

/-- There is no request for a name if there is nothing that it could be looked up below, and
this is said of it, or if the name cannot be encoded, and this is not. -/
theorem unresolved_of_request_iff {r : Remote} {e : Failure} (h : r.request uri = .error e) :
    Unresolved uri e ↔ Placeable r uri := by
  have hurl : r.url uri = .error e := by
    unfold request at h
    cases hurl : r.url uri with
    | error e' =>
        rw [hurl] at h
        cases h
        rfl
    | ok url =>
        rw [hurl] at h
        cases h
  unfold Remote.url at hurl
  split at hurl
  next => cases hurl
  next haddress =>
    split at hurl
    next hbase =>
      cases hurl
      exact iff_of_true (unresolved_plain rfl rfl) (.inr (.inl hbase))
    next base hbase =>
      split at hurl
      next => cases hurl
      next u hencoded =>
        cases hurl
        refine iff_of_false (not_unresolved (by simp)) ?_
        simp [Placeable, haddress, hbase, Text.whole_iff_encoded, hencoded]

theorem placeable_of_request {r : Remote} {q : Request} (h : r.request uri = .ok q) :
    Placeable r uri := by
  cases hurl : r.url uri with
  | error e =>
      unfold request at h
      rw [hurl] at h
      cases h
  | ok url =>
      unfold Remote.url at hurl
      split at hurl
      next haddress => exact .inl haddress
      next =>
        split at hurl
        next => cases hurl
        next =>
          split at hurl
          next s hencoded => exact .inr (.inr (Text.whole_iff_encoded.mpr ⟨s, hencoded⟩))
          next => cases hurl

variable {ω : Type}

/-- **WHAT COMES OF A REQUEST.**  Whatever requests are made by and however much room there is,
resolving a name over a remote comes to a capability of this name from an answer of success, or
to the failure to resolve the name, exactly if the name is placeable and the reply to the
request for it, if there is one, is proper. -/
theorem closed_resolve_iff (room : Headroom) (known : Registry) (r : Remote)
    (note : Log.Event → StateM ω Unit) (client : Client (StateM ω)) (uri : Text) (w : ω) :
    Closed uri (fun c => ∃ request, r.request uri = .ok request ∧
        Delivered room known uri ((client request).run w).1 c)
      ((r.resolve room known note client uri).run w).1 ↔
    Placeable r uri ∧ ∀ request, r.request uri = .ok request →
      Proper room known uri ((client request).run w).1 := by
  cases hrequest : r.request uri with
  | error e =>
      rw [resolve, hrequest]
      simp only [reduceCtorEq, false_implies, implies_true, and_true]
      exact unresolved_of_request_iff hrequest
  | ok request =>
      rw [run_resolve_of_request hrequest]
      simp only [Except.ok.injEq, forall_eq', exists_eq_left', and_iff_right
        (placeable_of_request hrequest)]
      exact closed_answer_iff

/-- A resolver below an address, with the headers of every request. -/
def belowCaps : Remote := .ofBase (some (.plain "https://caps.example.com")) []

/-- The body of a document with nothing but a name. -/
def namedBody : List UInt8 :=
  (Json.oneField "id".toList "urn:zcap:root".toList).map fun c => UInt8.ofNat c.toNat

/-- Whoever is asked answers with this status and body. -/
def replying (status : Int) (body : List UInt8) : Client (StateM Unit) :=
  fun _ => pure (.ok ⟨status, body⟩)

/-- A document is taken from an answer that leads elsewhere, and a body that is no text is
neither taken nor reported as a failure to resolve the name. -/
theorem redirect_taken :
    (∃ c, ((belowCaps.resolve .ample .builtIn (fun _ => pure ()) (replying 302 namedBody)
        "urn:zcap:root").run ()).1 = .ok c) ∧
    ¬ Closed "urn:zcap:root" (fun c => ∃ request, belowCaps.request "urn:zcap:root" = .ok request ∧
        Delivered .ample .builtIn "urn:zcap:root" ((replying 302 namedBody request).run ()).1 c)
      ((belowCaps.resolve .ample .builtIn (fun _ => pure ()) (replying 302 namedBody)
        "urn:zcap:root").run ()).1 ∧
    ¬ Closed "urn:zcap:root" (fun c => ∃ request, belowCaps.request "urn:zcap:root" = .ok request ∧
        Delivered .ample .builtIn "urn:zcap:root" ((replying 200 [0xFF] request).run ()).1 c)
      ((belowCaps.resolve .ample .builtIn (fun _ => pure ()) (replying 200 [0xFF])
        "urn:zcap:root").run ()).1 := by
  have hrequest : belowCaps.request "urn:zcap:root" =
      .ok ⟨"https://caps.example.com/urn%3Azcap%3Aroot", [("Accept", "application/json")]⟩ := rfl
  obtain ⟨c, hc, hid⟩ : ∃ c, Denotes .ample .builtIn namedBody c ∧ c.id = "urn:zcap:root" := by
    have hread : Json.readPoints none
        ((Json.oneField "id".toList "urn:zcap:root".toList).map .char)
        = .ok (.object [("id", .text "urn:zcap:root")]) :=
      Json.readPoints_oneField (by simp [Json.IsPlain]) (by simp [Json.IsPlain])
    exact ⟨_, ⟨_, _, rfl, hread, rfl,
      Capability.read_eq_ok_iff.mpr ⟨rfl, Capability.validateChain_of_root rfl⟩⟩, rfl⟩
  have htaken : ((belowCaps.resolve .ample .builtIn (fun _ => pure ()) (replying 302 namedBody)
      "urn:zcap:root").run ()).1 = .ok c := by
    rw [run_resolve_of_request hrequest]
    exact readBody_eq_ok_iff.mpr ⟨hc, hid⟩
  refine ⟨⟨c, htaken⟩, ?_, ?_⟩
  · rw [htaken]
    intro h
    obtain ⟨request, -, response, hreply, -, hsuccess, -⟩ := h
    cases hreply
    exact absurd hsuccess (by decide)
  · rw [run_resolve_of_request hrequest]
    exact not_unresolved (by simp)

end Mandate.Remote
