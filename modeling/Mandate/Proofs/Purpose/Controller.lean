/-
  Mandate.Proofs.Purpose.Controller
  ────────────────────────────────
  **WHO SIGNS FOR A CONTROLLER.**

  Documents of controllers come as values.  Of those with the same name the last one counts,
  and in it the entries under `capabilityInvocation`: a text names a method, an object brings
  one along under its own name.  What is said elsewhere in the document authorizes nobody.

      Lists      — a value lists a method, alone or among others
      LastOf     — the last document of a name
      AnswersFor — who answers for a method

  Main results:
    * `lookup_ofList_iff`     — a directory has the last document of each name;
    * `authorizes_iff`        — a document authorizes what its value lists;
    * `accepts_purpose_iff`   — what a demand over documents comes down to;
    * `controller_law`        — and so an invoker that is met by its controller alone has
                                listed the method.
-/
import Mathlib.Data.List.TakeWhile
import Mandate.Proofs.History
import Mandate.Proofs.Verification.Stateful
import Mandate.Proofs.Verification.Verdicts

namespace Mandate.Purpose

open Json (Value Fields)

/-! ## §1. The last of its kind. -/

section Last

variable {α β : Type}

/-- A member has a property, and none behind it does. -/
def IsLast (p : α → Prop) (as : List α) (a : α) : Prop :=
  ∃ before after, as = before ++ a :: after ∧ p a ∧ ∀ b ∈ after, ¬ p b

/-- To be the last with a property is to have it and to stand. -/
theorem isLast_iff_stands {p : α → Prop} {a : α} {as : List α} :
    IsLast p as a ↔ p a ∧ Stands p as a := by
  constructor
  · rintro ⟨before, after, hsplit, ha, hafter⟩
    exact ⟨ha, after, ⟨before, hsplit⟩, hafter⟩
  · rintro ⟨ha, after, ⟨before, hsplit⟩, hafter⟩
    exact ⟨before, after, hsplit, ha, hafter⟩

theorem IsLast.holds {p : α → Prop} {a : α} {as : List α} (h : IsLast p as a) : p a := by
  obtain ⟨before, after, -, ha, -⟩ := h
  exact ha

theorem isLast_nil {p : α → Prop} {a : α} : ¬ IsLast p [] a := by
  intro h
  obtain ⟨before, after, hsplit, -⟩ := h
  cases before <;> cases hsplit

/-- The last member with a property is the last in the rest, or the first one if the rest has
none. -/
theorem isLast_cons_iff {p : α → Prop} {a b : α} {as : List α} :
    IsLast p (a :: as) b ↔ IsLast p as b ∨ b = a ∧ p a ∧ ∀ c ∈ as, ¬ p c := by
  constructor
  · intro h
    obtain ⟨before, after, hsplit, hb, hafter⟩ := h
    cases before with
    | nil =>
        cases hsplit
        exact .inr ⟨rfl, hb, hafter⟩
    | cons c before =>
        cases hsplit
        exact .inl ⟨before, after, rfl, hb, hafter⟩
  · intro h
    rcases h with ⟨before, after, hsplit, hb, hafter⟩ | ⟨hba, ha, hafter⟩
    · exact ⟨a :: before, after, by rw [hsplit]; rfl, hb, hafter⟩
    · subst hba
      exact ⟨[], as, rfl, ha, hafter⟩

/-- There is one last member at most. -/
theorem IsLast.eq {p : α → Prop} {a b : α} {as : List α} (ha : IsLast p as a)
    (hb : IsLast p as b) : a = b := by
  obtain ⟨hpa, ha⟩ := isLast_iff_stands.mp ha
  obtain ⟨hpb, hb⟩ := isLast_iff_stands.mp hb
  exact ha.eq hb hpa hpb

/-- What is true of all members of a list is so place by place of another list. -/
theorem forall_mem_iff_of_forall₂ {R : α → β → Prop} {P : α → Prop} {Q : β → Prop} {as : List α}
    {bs : List β} (h : List.Forall₂ R as bs) (hPQ : ∀ a b, R a b → (P a ↔ Q b)) :
    (∀ a ∈ as, P a) ↔ ∀ b ∈ bs, Q b := by
  induction h with
  | nil => exact ⟨fun _ => nofun, fun _ => nofun⟩
  | @cons a b as bs hab hrest ih =>
      rw [List.forall_mem_cons, List.forall_mem_cons, ih, hPQ a b hab]

/-- Where two lists correspond place by place, and the properties with them, so do their last
members. -/
theorem exists_isLast_iff {R : α → β → Prop} {p : α → Prop} {q : β → Prop} {as : List α}
    {bs : List β} (h : List.Forall₂ R as bs) (hpq : ∀ a b, R a b → (p a ↔ q b))
    {P : α → Prop} {Q : β → Prop} (hPQ : ∀ a b, R a b → p a → (P a ↔ Q b)) :
    (∃ a, IsLast p as a ∧ P a) ↔ ∃ b, IsLast q bs b ∧ Q b := by
  induction h with
  | nil =>
      exact ⟨fun ⟨a, ha, _⟩ => absurd ha isLast_nil, fun ⟨b, hb, _⟩ => absurd hb isLast_nil⟩
  | @cons a b as bs hab hrest ih =>
      have hnone : (∀ c ∈ as, ¬ p c) ↔ ∀ d ∈ bs, ¬ q d :=
        forall_mem_iff_of_forall₂ hrest fun c d hcd => not_congr (hpq c d hcd)
      simp only [isLast_cons_iff, or_and_right, exists_or, ih, and_assoc, exists_eq_left, hnone,
        hpq a b hab]
      refine or_congr_right (and_congr_right fun hb => and_congr_right fun _ => ?_)
      exact hPQ a b hab ((hpq a b hab).mpr hb)

end Last

/-! ## §2. Documents. -/

/-- An entry names a method: it is the name, or an object under this name. -/
inductive Names (method : Text) : Value → Prop
  | name : Names method (.text method)
  | embedded {fields : Fields} (h : Document.field fields "id" = .text method) :
      Names method (.object fields)

/-- A value lists a method: it is a list with an entry that names it, or itself such an
entry. -/
def Lists (method : Text) : Value → Prop
  | .list vs => ∃ v ∈ vs, Names method v
  | v => Names method v

/-- A value is an object under a name. -/
def HasId (id : Text) (v : Value) : Prop :=
  ∃ fields, v = .object fields ∧ Document.field fields "id" = .text id

/-- The last document of a name. -/
def LastOf (docs : List Value) (id : Text) (fields : Fields) : Prop :=
  IsLast (HasId id) docs (.object fields)

theorem field_id_of_ofFields {fields : Fields} {m : Method} (h : Method.ofFields fields = .ok m) :
    Document.field fields "id" = .text m.id := by
  unfold Method.ofFields at h
  split at h
  next => cases h
  next id hid =>
    split at h
    next =>
      cases h
      exact (Document.properText?_eq_some.mp hid).1
    next => cases h

namespace ControllerDocument

/-- An entry that is read stands for the method that it names. -/
theorem names_iff {v : Value} {e : Entry} (h : readEntry v = .ok e) (method : Text) :
    Names method v ↔ e.id = method := by
  unfold readEntry at h
  split at h
  next fields =>
    obtain ⟨m, hm, he⟩ := map_eq_ok_iff.mp h
    have hid : Document.field fields "id" = .text m.id := field_id_of_ofFields hm
    rw [← he]
    constructor
    · intro hnames
      cases hnames with
      | embedded hmethod =>
          cases hid.symm.trans hmethod
          rfl
    · intro hmethod
      cases hmethod
      exact .embedded hid
  next v _ =>
    split at h
    next id hid =>
      cases h
      obtain ⟨hv, -⟩ := Document.properText?_eq_some.mp hid
      rw [hv]
      constructor
      · intro hnames
        cases hnames
        rfl
      · intro hmethod
        cases hmethod
        exact .name
    next => cases h

theorem exists_mem_one {P : Value → Prop} {v : Value} : (∃ w ∈ [v], P w) ↔ P v := by
  simp

/-- Where entries are read from a value, it lists what they stand for. -/
theorem lists_iff {v : Value} {vs : List Value} {es : List Entry}
    (hvs : Document.readValues "capabilityInvocation" v = .ok vs)
    (hes : vs.mapM readEntry = .ok es) (method : Text) :
    Lists method v ↔ method ∈ es.map (·.id) := by
  have hmem : (∃ w ∈ vs, Names method w) ↔ method ∈ es.map (·.id) := by
    rw [List.mem_map]
    have hnone := forall_mem_iff_of_forall₂ (mapM_eq_ok_iff.mp hes)
      fun w e he => not_congr (names_iff he method)
    simpa using not_congr hnone
  rw [← hmem]
  cases v with
  | list ws =>
      cases hvs
      rfl
  | null =>
      cases hvs
      exact ⟨nofun, fun ⟨w, hw, _⟩ => absurd hw List.not_mem_nil⟩
  | text t =>
      cases hvs
      rw [exists_mem_one]
      rfl
  | object fields =>
      cases hvs
      rw [exists_mem_one]
      rfl
  | _ => cases hvs

/-- A document that is read has its name, and authorizes what its value lists. -/
theorem ofFields_eq_ok {fields : Fields} {d : ControllerDocument} (h : ofFields fields = .ok d) :
    Document.field fields "id" = .text d.id ∧
      ∀ method, d.authorizes method = true ↔
        Lists method (Document.field fields "capabilityInvocation") := by
  unfold ofFields at h
  cases hid : Document.properText? (Document.field fields "id") with
  | none =>
      simp only [hid] at h
      cases h
  | some id =>
      simp only [hid] at h
      obtain ⟨_, hok, h⟩ := Capability.bind_eq_ok.mp h
      cases hok
      obtain ⟨_, -, h⟩ := Capability.bind_eq_ok.mp h
      obtain ⟨_, -, h⟩ := Capability.bind_eq_ok.mp h
      obtain ⟨vs, hvs, h⟩ := Capability.bind_eq_ok.mp h
      obtain ⟨es, hes, h⟩ := Capability.bind_eq_ok.mp h
      cases h
      refine ⟨(Document.properText?_eq_some.mp hid).1, fun method => ?_⟩
      rw [lists_iff hvs hes, authorizes]
      exact List.contains_iff_mem

/-- Only objects are read as documents. -/
theorem exists_of_read {v : Value} {d : ControllerDocument} (h : read v = .ok d) :
    ∃ fields, v = .object fields ∧ ofFields fields = .ok d := by
  cases v with
  | object fields =>
      refine ⟨fields, rfl, ?_⟩
      rw [read] at h
      cases hd : ofFields fields with
      | error f =>
          rw [hd] at h
          cases h
      | ok d' =>
          rw [hd] at h
          cases h
          rfl
  | _ => cases h

theorem hasId_iff {v : Value} {d : ControllerDocument} (h : read v = .ok d) (id : Text) :
    HasId id v ↔ d.id = id := by
  obtain ⟨fields, hv, hd⟩ := exists_of_read h
  have hid := (ofFields_eq_ok hd).1
  constructor
  · intro hhas
    obtain ⟨fields', hv', hid'⟩ := hhas
    cases hv.symm.trans hv'
    cases hid.symm.trans hid'
    rfl
  · intro heq
    subst heq
    exact ⟨fields, hv, hid⟩

end ControllerDocument

/-! ## §3. Directories. -/

namespace Directory

/-- A directory has the last document of each name. -/
theorem lookup_ofList_iff {documents : List ControllerDocument} {id : Text}
    {d : ControllerDocument} :
    (ofList documents).lookup id = some d ↔ IsLast (fun e => e.id = id) documents d := by
  rw [isLast_iff_stands]
  exact lookup_foldl_put_iff

end Directory

/-! ## §4. The demand. -/

/-- Who answers for a method: its controller, and without one what stands in front of the first
`#` of its name. -/
structure AnswersFor (m : Method) (controller : Text) : Prop where
  named : m.controller ≠ "" → controller = m.controller
  pointed : m.controller = "" → .char '#' ∉ controller.points ∧
    (controller = m.id ∨ ∃ rest, m.id.points = controller.points ++ .char '#' :: rest)

/-- What stands in front of the first place of a point, or everything without one. -/
theorem eq_takeWhile_iff {c : Point} {front cs : List Point} :
    front = cs.takeWhile (· != c) ↔
      c ∉ front ∧ (front = cs ∨ ∃ rest, cs = front ++ c :: rest) := by
  constructor
  · intro h
    refine ⟨fun hc => ?_, ?_⟩
    · rw [h] at hc
      simpa using List.mem_takeWhile_imp hc
    · have hsplit : front ++ cs.dropWhile (· != c) = cs := by
        rw [h, List.takeWhile_append_dropWhile]
      cases hrest : cs.dropWhile (· != c) with
      | nil =>
          rw [hrest, List.append_nil] at hsplit
          exact .inl hsplit
      | cons d rest =>
          have hd : d = c := by
            have hhead := List.head_dropWhile_not (· != c) (l := cs) (by simp [hrest])
            simpa [hrest] using hhead
          rw [hrest, hd] at hsplit
          exact .inr ⟨rest, hsplit.symm⟩
  · intro h
    obtain ⟨hnone, hsplit⟩ := h
    have hall : ∀ d ∈ front, (d != c) = true := by
      intro d hd
      have hne : d ≠ c := fun hdc => hnone (hdc ▸ hd)
      simpa using hne
    rcases hsplit with hsplit | ⟨rest, hsplit⟩
    · rw [← hsplit, List.takeWhile_eq_self_iff.mpr hall]
    · rw [hsplit, List.takeWhile_append_of_pos hall, List.takeWhile_cons_of_neg (by simp),
        List.append_nil]

theorem answersFor_iff {m : Method} {controller : Text} :
    AnswersFor m controller ↔ controller = m.principal := by
  unfold Method.principal
  by_cases hm : m.controller = ""
  · rw [if_pos (by simpa using hm), Method.document]
    have hfront : controller = .ofPoints (m.id.points.takeWhile (· != .char '#')) ↔
        .char '#' ∉ controller.points ∧
          (controller = m.id ∨ ∃ rest, m.id.points = controller.points ++ .char '#' :: rest) := by
      rw [← Text.points_inj, Text.points_ofPoints, eq_takeWhile_iff, Text.points_inj]
    rw [hfront]
    exact ⟨fun h => h.pointed hm, fun h => ⟨fun hne => absurd hm hne, fun _ => h⟩⟩
  · rw [if_neg (by simpa using hm)]
    exact ⟨fun h => h.named hm, fun h => ⟨fun _ => h, fun hnone => absurd hnone hm⟩⟩

/-- The demand over a list of documents. -/
def overDocuments {m : Type → Type} [Monad m] (documents : List ControllerDocument) :
    Mandate.Purpose m :=
  controllerPurpose fun name => pure ((Directory.ofList documents).resolve name)

section Demand

theorem checkSigner_eq_ok_iff {proof : Proof} {m : Method} :
    checkSigner proof m = .ok () ↔ proof.method = "" ∨ proof.method = m.id := by
  unfold checkSigner
  rw [guard_eq_ok_iff (by simp)]
  simp [or_iff_not_imp_left]

/-- A demand over a directory is met exactly if the proof names the signer or nobody, and the
document of whoever answers for it authorizes the signer. -/
theorem check_controller_eq_ok_iff {d : Directory} {proof : Proof} {inv : Invocation} :
    (Demand.controller d).check proof inv = .ok () ↔
      (proof.method = "" ∨ proof.method = inv.method.id) ∧
        ∃ document, d.lookup inv.method.principal = some document ∧
          document.id = inv.method.principal ∧ document.authorizes inv.method.id = true := by
  rw [Demand.check, bind_unit_eq_ok_iff, checkSigner_eq_ok_iff, Directory.resolve]
  refine and_congr_right fun _ => ?_
  cases d.lookup inv.method.principal with
  | none =>
      simp only [judgeController, reduceCtorEq, false_and, exists_false, iff_false]
      split <;> simp
  | some document =>
      simp only [judgeController, Option.some.injEq, exists_eq_left']
      rw [guard_eq_ok_iff (by simp), ite_ok_error_iff, not_not]

variable {docs : List Value} {documents : List ControllerDocument}

/-- The document that a directory has for a name authorizes a method exactly if the last value
of this name lists it. -/
theorem exists_authorizing_iff (h : docs.mapM ControllerDocument.read = .ok documents)
    (id method : Text) :
    (∃ d, (Directory.ofList documents).lookup id = some d ∧ d.id = id ∧
        d.authorizes method = true) ↔
      ∃ fields, LastOf docs id fields ∧
        Lists method (Document.field fields "capabilityInvocation") := by
  have hread := mapM_eq_ok_iff.mp h
  have hlast : (∃ v, IsLast (HasId id) docs v ∧ ∃ fields, v = .object fields ∧
      Lists method (Document.field fields "capabilityInvocation")) ↔
      ∃ d, IsLast (fun e => e.id = id) documents d ∧ d.authorizes method = true := by
    refine exists_isLast_iff hread (fun v d hd => ControllerDocument.hasId_iff hd id) ?_
    intro v d hd _
    obtain ⟨fields, hv, hfields⟩ := ControllerDocument.exists_of_read hd
    rw [(ControllerDocument.ofFields_eq_ok hfields).2]
    subst hv
    simp
  simp only [Directory.lookup_ofList_iff]
  constructor
  · intro hd
    obtain ⟨d, hd, -, hauthorizes⟩ := hd
    obtain ⟨v, hv, fields, hfields, hlists⟩ := hlast.mpr ⟨d, hd, hauthorizes⟩
    subst hfields
    exact ⟨fields, hv, hlists⟩
  · intro hfields
    obtain ⟨fields, hfields, hlists⟩ := hfields
    obtain ⟨d, hd, hauthorizes⟩ := hlast.mp ⟨_, hfields, fields, rfl, hlists⟩
    exact ⟨d, hd, hd.holds, hauthorizes⟩

/-- What a demand over documents comes down to. -/
theorem accepts_purpose_iff (h : docs.mapM ControllerDocument.read = .ok documents)
    (proof : Proof) (inv : Invocation) {σ : Type} (s : σ) :
    (((overDocuments documents : Mandate.Purpose (StateM σ)) proof inv).run s).1 = .ok () ↔
      (proof.method = "" ∨ proof.method = inv.method.id) ∧
        ∃ fields, LastOf docs inv.method.principal fields ∧
          Lists inv.method.id (Document.field fields "capabilityInvocation") := by
  rw [← exists_authorizing_iff h, ← check_controller_eq_ok_iff]
  have hpurpose : (overDocuments documents : Mandate.Purpose (StateM σ)) proof inv = _ :=
    Demand.purpose_eq (.controller (.ofList documents)) proof inv
  rw [hpurpose]
  rfl

end Demand

/-- **WHO SIGNS FOR A CONTROLLER.**  Over documents that are read from values, the demand is met
exactly if the proof names the signer or nobody, and the last of the values under the name of
whoever answers for the signer lists it as invoking.  So whatever a verifier with this demand
accepts has its signer listed there, and where the signer is no invoker by its own name, its
controller is an invoker and lists it. -/
theorem controller_law {docs : List Value} {documents : List ControllerDocument}
    (h : docs.mapM ControllerDocument.read = .ok documents) (proof : Proof) (inv : Invocation)
    (controller : Text) (hcontroller : AnswersFor inv.method controller) {σ : Type} (s : σ) :
    ((((overDocuments documents : Mandate.Purpose (StateM σ)) proof inv).run s).1 = .ok () ↔
      (proof.method = "" ∨ proof.method = inv.method.id) ∧
        ∃ fields, LastOf docs controller fields ∧
          Lists inv.method.id (Document.field fields "capabilityInvocation")) ∧
    ∀ v : Verifier (StateM σ), overDocuments documents ∈ v.purposes →
      ((v.verify proof inv).run s).1 = .ok () →
      ∃ c names, proof.capability = some c ∧ c.invokers = .ok names ∧
        (∃ fields, LastOf docs controller fields ∧
          Lists inv.method.id (Document.field fields "capabilityInvocation")) ∧
        (inv.method.id ∉ names → inv.method.controller ≠ "" ∧
          inv.method.controller ∈ names ∧ controller = inv.method.controller) := by
  have hprincipal : controller = inv.method.principal := answersFor_iff.mp hcontroller
  have haccepts : ∀ t : σ, _ := fun t => accepts_purpose_iff h proof inv t
  rw [← hprincipal] at haccepts
  refine ⟨haccepts s, fun v hv hverify => ?_⟩
  rw [Verifier.run_verify, Verifier.run_examine_eq_ok_iff] at hverify
  obtain ⟨c, uri, root, hc, -, -, -, hsigner, hmeet⟩ := hverify
  obtain ⟨t, ht⟩ := Verification.exists_met_of_meet hmeet _ hv
  obtain ⟨names, hnames, hlisted⟩ := Capability.empowers_iff_invokers.mp hsigner
  refine ⟨c, names, hc, hnames, ((haccepts t).mp ht).2, fun hunlisted => ?_⟩
  obtain ⟨hne, hmem⟩ := hlisted.resolve_left hunlisted
  exact ⟨hne, hmem, hcontroller.named hne⟩

/-- A document with a new method that brings along the old one as well, but does not list it as
invoking any more. -/
def rolledOver : Fields :=
  [("id", .text "did:example:org"),
    ("verificationMethod", .list [.object [("id", .text "did:example:org#old")]]),
    ("capabilityInvocation", .list [.object [("id", .text "did:example:org#new")]])]

/-- The document of an organization, and one that takes its place. -/
def orgDocs : List Value :=
  [.object [("id", .text "did:example:org"),
    ("capabilityInvocation", .text "did:example:org#old")], .object rolledOver]

/-- The same documents, as they are read. -/
def orgDocuments : List ControllerDocument :=
  [⟨"did:example:org", [], ["did:example:org#old"]⟩,
    ⟨"did:example:org", [⟨"did:example:org#old", "", ""⟩, ⟨"did:example:org#new", "", ""⟩],
      ["did:example:org#new"]⟩]

/-- A verifier that knows a root of the organization and holds signers to its documents. -/
def orgVerifier : Verifier (StateM Unit) where
  known := .builtIn
  resolve := fun uri =>
    pure ((Store.ofList [Verification.rootHeldBy "did:example:org"]).resolve uri)
  purposes := [overDocuments orgDocuments]
  now := Verification.dawn
  note := fun _ => pure ()

/-- Reading, signed by a method of the organization. -/
def orgReads (method : Text) : Invocation :=
  { action := "read", method := ⟨method, "did:example:org", ""⟩, target := "", root := "" }

/-- The new method is accepted, since the organization is an invoker and lists it.  The old one,
which stands in the first document and under another heading in the second, is not. -/
theorem rolled_over_method_refused :
    orgDocs.mapM ControllerDocument.read = .ok orgDocuments ∧
    ((orgVerifier.verify (Verification.submitted (Verification.rootHeldBy "did:example:org"))
      (orgReads "did:example:org#new")).run ()).1 = .ok () ∧
    LastOf orgDocs "did:example:org" rolledOver ∧
    Lists "did:example:org#new" (Document.field rolledOver "capabilityInvocation") ∧
    ((orgVerifier.verify (Verification.submitted (Verification.rootHeldBy "did:example:org"))
      (orgReads "did:example:org#old")).run ()).1 ≠ .ok () := by
  have hread : orgDocs.mapM ControllerDocument.read = .ok orgDocuments := rfl
  have hanswers : ∀ method, AnswersFor (orgReads method).method "did:example:org" :=
    fun method => ⟨fun _ => rfl,
      fun hnone => absurd hnone (show ("did:example:org" : Text) ≠ "" by decide)⟩
  have hlast : LastOf orgDocs "did:example:org" rolledOver :=
    ⟨[_], [], rfl, ⟨_, rfl, rfl⟩, nofun⟩
  have hlists : Lists "did:example:org#new" (Document.field rolledOver "capabilityInvocation") :=
    ⟨_, .head _, .embedded rfl⟩
  obtain ⟨hmet, -⟩ := controller_law hread
    (Verification.submitted (Verification.rootHeldBy "did:example:org"))
    (orgReads "did:example:org#new") "did:example:org" (hanswers _) ()
  obtain ⟨-, hrefused⟩ := controller_law hread
    (Verification.submitted (Verification.rootHeldBy "did:example:org"))
    (orgReads "did:example:org#old") "did:example:org" (hanswers _) ()
  refine ⟨hread, ?_, hlast, hlists, fun hold => ?_⟩
  · have hanchor : Verification.anchor orgVerifier.known
        (Verification.rootHeldBy "did:example:org") "read" (orgReads "did:example:org#new")
          = .ok "urn:zcap:root" :=
      Verification.anchor_eq_ok_iff.mpr ⟨by decide, rfl, (Verification.leadsTo_nil rfl).mpr rfl⟩
    rw [Verifier.run_verify, Verifier.run_examine_eq_ok_iff]
    refine ⟨_, _, _, rfl, hanchor, rfl, rfl, by decide, ?_⟩
    have hnew := hmet.mpr ⟨.inl rfl, _, hlast, hlists⟩
    rw [orgVerifier, Verification.run_meet_of_ok (Prod.ext hnew rfl)]
    rfl
  · obtain ⟨c, names, -, -, ⟨fields, hfields, hlisted⟩, -⟩ := hrefused orgVerifier (.head _) hold
    cases hlast.eq hfields
    obtain ⟨w, hw, hnames⟩ := hlisted
    cases List.mem_singleton.mp hw
    cases hnames with
    | embedded hid => exact absurd hid (by decide)

end Mandate.Purpose
