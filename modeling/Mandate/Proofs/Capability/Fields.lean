/-
  Mandate.Proofs.Capability.Fields
  ────────────────────────────────
  **WHICH FIELDS CAN BE READ.**

  Reading goes through the fields of a document one after the other and ends at the first
  that is not what it may be.  Here every field is described by itself, without an order
  and without a word about failures: names, times, targets, caveats, and the proofs.

      Plain  — every field but the proofs is what it may be

  Main results:
    * `exists_readTime?_iff`, `exists_readNames_iff`  — times and names;
    * `Target.exists_read_iff`                        — targets;
    * `Caveat.exists_read_iff`                        — caveats of the built-in types;
    * `proofList_eq_ok_iff`                           — lists of proofs;
    * `exists_says_iff`                               — all the fields of a document.
-/
import Mandate.Proofs.Capability.Reading

namespace Mandate

open Json (Value Fields)

/-! ## §1. Values. -/

namespace Document

/-- A name: a text that is not empty. -/
def IsName (v : Value) : Prop := ∃ s : Text, v = .text s ∧ s ≠ ""

/-- A time: a text in ISO 8601. -/
def IsTime (v : Value) : Prop := ∃ s m, v = .text s ∧ Time.Iso.moment? s = some m

/-- Names: one text, or a list of texts. -/
def IsNames (v : Value) : Prop := (∃ s, v = .text s) ∨ ∃ ss, v = .texts ss

variable {v : Value} {name : String}

theorem exists_properText?_iff : (∃ s, properText? v = some s) ↔ IsName v := by
  simp only [properText?_eq_some, Text.isEmpty_eq_false_iff, IsName, ne_eq]

theorem exists_readTime_iff (name : String) :
    (∃ t, readTime name v = .ok (some t)) ↔ IsTime v := by
  unfold IsTime
  cases v with
  | text s =>
      rw [readTime]
      cases hs : Time.Iso.moment? s <;> simp [hs]
  | _ => simp [readTime]

theorem readTime_eq_none_iff (name : String) : readTime name v = .ok none ↔ v = .null := by
  cases v with
  | text s =>
      rw [readTime]
      cases Time.Iso.moment? s <;> simp
  | _ => simp [readTime]

/-- A field for a time is left out, null, or a time. -/
theorem exists_readTime?_iff : (∃ t, readTime name v = .ok t) ↔ v = .null ∨ IsTime v := by
  rw [← exists_readTime_iff name, ← readTime_eq_none_iff name]
  constructor
  · intro h
    obtain ⟨t, ht⟩ := h
    cases t with
    | none => exact .inl ht
    | some t => exact .inr ⟨t, ht⟩
  · intro h
    rcases h with hnone | ⟨t, ht⟩
    · exact ⟨none, hnone⟩
    · exact ⟨some t, ht⟩

theorem eq_of_readTexts {vs : List Value} {ss : List Text} (h : readTexts name vs = .ok ss) :
    vs = ss.map .text := by
  induction vs generalizing ss with
  | nil =>
      cases h
      rfl
  | cons v vs ih =>
      cases v with
      | text s =>
          obtain ⟨rest, hrest, rfl⟩ := map_eq_ok_iff.mp h
          rw [List.map_cons, ← ih hrest]
      | _ => cases h

theorem readNames_eq_ok_iff {ss : List Text} :
    readNames name v = .ok ss ↔
      (v = .null ∧ ss = []) ∨ (∃ s, v = .text s ∧ ss = [s]) ∨ v = .texts ss := by
  cases v with
  | null => simp [readNames, Value.texts, eq_comm]
  | text s => simp [readNames, Value.texts, eq_comm]
  | list vs =>
      constructor
      · intro h
        exact .inr (.inr (congrArg Value.list (eq_of_readTexts h)))
      · intro hnames
        rcases hnames with ⟨h, -⟩ | ⟨s, h, -⟩ | h
        · cases h
        · cases h
        · cases h
          exact readTexts_texts name ss
  | _ => simp [readNames, Value.texts]

/-- A field of names is left out, null, or names. -/
theorem exists_readNames_iff (name : String) :
    (∃ ss, readNames name v = .ok ss) ↔ v = .null ∨ IsNames v := by
  simp only [readNames_eq_ok_iff]
  constructor
  · intro h
    rcases h with ⟨ss, ⟨hnull, -⟩ | ⟨s, htext, -⟩ | hlist⟩
    · exact .inl hnull
    · exact .inr (.inl ⟨s, htext⟩)
    · exact .inr (.inr ⟨ss, hlist⟩)
  · intro h
    rcases h with hnull | ⟨s, htext⟩ | ⟨ss, hlist⟩
    · exact ⟨[], .inl ⟨hnull, rfl⟩⟩
    · exact ⟨[s], .inr (.inl ⟨s, htext, rfl⟩)⟩
    · exact ⟨ss, .inr (.inr hlist)⟩

/-- Some names, one at least, are names other than an empty list. -/
theorem exists_readNames_ne_nil_iff (name : String) :
    (∃ ss, readNames name v = .ok ss ∧ ss ≠ []) ↔ IsNames v ∧ v ≠ .texts [] := by
  simp only [readNames_eq_ok_iff]
  constructor
  · intro h
    rcases h with ⟨ss, ⟨-, hnil⟩ | ⟨s, rfl, -⟩ | rfl, hne⟩
    · exact absurd hnil hne
    · exact ⟨.inl ⟨s, rfl⟩, nofun⟩
    · refine ⟨.inr ⟨ss, rfl⟩, fun hempty => ?_⟩
      simp only [Value.texts, List.map_nil, Value.list.injEq, List.map_eq_nil_iff] at hempty
      exact hne hempty
  · intro h
    rcases h with ⟨⟨s, rfl⟩ | ⟨ss, rfl⟩, hne⟩
    · exact ⟨[s], .inr (.inl ⟨s, rfl, rfl⟩), by simp⟩
    · refine ⟨ss, .inr (.inr rfl), ?_⟩
      intro h
      subst h
      exact hne rfl

end Document

open Document (IsName IsTime IsNames)

/-! ## §2. Targets and caveats. -/

/-- A target: a name, or an object with a name whose type, if it has one, is a text. -/
def IsTarget (v : Value) : Prop :=
  IsName v ∨ ∃ fields, v = .object fields ∧ IsName (Document.field fields "id") ∧
    ∀ t, fields.lookup (.plain "type") = some t → ∃ s, t = .text s

theorem Target.exists_read_iff {v : Value} : (∃ t, Target.read v = .ok t) ↔ IsTarget v := by
  cases v with
  | object fields =>
      have hobject : IsTarget (.object fields) ↔ IsName (Document.field fields "id") ∧
          ∀ t, fields.lookup (.plain "type") = some t → ∃ s, t = .text s := by
        simp [IsTarget, IsName]
      rw [hobject, ← Document.exists_properText?_iff, Target.read]
      cases hid : Document.properText? (Document.field fields "id") with
      | none => simp
      | some id =>
          cases fields.lookup (.plain "type") with
          | none => simp [Value.text?]
          | some t => cases t <;> simp [Value.text?]
  | text s =>
      have hname : IsTarget (.text s) ↔ ∃ t, Document.properText? (.text s) = some t := by
        rw [Document.exists_properText?_iff]
        simp [IsTarget]
      rw [hname, Target.read]
      · cases Document.properText? (.text s) <;> simp
      · intro fields hfields
        cases hfields
  | _ => simp [IsTarget, IsName, Target.read, Document.properText?]

/-- A caveat: an object of one of the three types, with what the type asks for. -/
inductive IsCaveat : Value → Prop
  | expiration {fields : Fields}
      (type : Document.field fields "type" = .text "ExpirationCaveat")
      (expires : IsTime (Document.field fields "expires")) : IsCaveat (.object fields)
  | allowedAction {fields : Fields}
      (type : Document.field fields "type" = .text "AllowedActionCaveat")
      (actions : IsNames (Document.field fields "allowedAction"))
      (some : Document.field fields "allowedAction" ≠ .texts []) : IsCaveat (.object fields)
  | invocationTarget {fields : Fields}
      (type : Document.field fields "type" = .text "InvocationTargetCaveat")
      (target : IsName (Document.field fields "invocationTarget")) : IsCaveat (.object fields)

namespace CaveatKind

variable {type : Text} {fields : Fields}

theorem exists_read_expiration_iff :
    (∃ k, CaveatKind.expiration.read type fields = .ok k) ↔
      IsTime (Document.field fields "expires") := by
  rw [← Document.exists_readTime_iff "caveat.expires", read]
  constructor
  · intro h
    obtain ⟨k, hk⟩ := h
    obtain ⟨t, ht, hk⟩ := Capability.bind_eq_ok.mp hk
    cases t with
    | none => cases hk
    | some t => exact ⟨t, ht⟩
  · intro h
    obtain ⟨t, ht⟩ := h
    exact ⟨.expiration t, Capability.bind_eq_ok.mpr ⟨some t, ht, rfl⟩⟩

theorem exists_read_allowedAction_iff :
    (∃ k, CaveatKind.allowedAction.read type fields = .ok k) ↔
      IsNames (Document.field fields "allowedAction") ∧
        Document.field fields "allowedAction" ≠ .texts [] := by
  rw [← Document.exists_readNames_ne_nil_iff "caveat.allowedAction", read]
  constructor
  · intro h
    obtain ⟨k, hk⟩ := h
    obtain ⟨ss, hss, hk⟩ := Capability.bind_eq_ok.mp hk
    refine ⟨ss, hss, ?_⟩
    intro h
    subst h
    cases hk
  · intro h
    obtain ⟨ss, hss, hne⟩ := h
    refine ⟨.allowedAction ss, Capability.bind_eq_ok.mpr ⟨ss, hss, ?_⟩⟩
    rw [if_neg (by simpa using hne)]

theorem exists_read_invocationTarget_iff :
    (∃ k, CaveatKind.invocationTarget.read type fields = .ok k) ↔
      IsName (Document.field fields "invocationTarget") := by
  rw [← Document.exists_properText?_iff, read]
  cases Document.properText? (Document.field fields "invocationTarget") <;> simp

end CaveatKind

theorem Caveat.exists_read_iff {v : Value} :
    (∃ k, Caveat.read .builtIn v = .ok k) ↔ IsCaveat v := by
  simp only [Caveat.read_eq_ok_iff]
  constructor
  · intro hread
    obtain ⟨k, fields, type, kind, rfl, htype, hlookup, hk⟩ := hread
    -- The table of known types has one row for each of the three.
    simp only [Registry.builtIn, Table.lookup_entry] at hlookup
    split at hlookup
    next heq =>
      subst heq
      cases hlookup
      exact .expiration htype (CaveatKind.exists_read_expiration_iff.mp ⟨k, hk⟩)
    next =>
      split at hlookup
      next heq =>
        subst heq
        cases hlookup
        obtain ⟨hnames, hne⟩ := CaveatKind.exists_read_allowedAction_iff.mp ⟨k, hk⟩
        exact .allowedAction htype hnames hne
      next =>
        split at hlookup
        next heq =>
          subst heq
          cases hlookup
          exact .invocationTarget htype (CaveatKind.exists_read_invocationTarget_iff.mp ⟨k, hk⟩)
        next => cases hlookup
  · intro h
    cases h with
    | expiration htype hexpires =>
        obtain ⟨k, hk⟩ := CaveatKind.exists_read_expiration_iff.mpr hexpires
        exact ⟨k, _, _, .expiration, rfl, htype, rfl, hk⟩
    | allowedAction htype hnames hne =>
        obtain ⟨k, hk⟩ := CaveatKind.exists_read_allowedAction_iff.mpr ⟨hnames, hne⟩
        exact ⟨k, _, _, .allowedAction, rfl, htype, rfl, hk⟩
    | invocationTarget htype htarget =>
        obtain ⟨k, hk⟩ := CaveatKind.exists_read_invocationTarget_iff.mpr htarget
        exact ⟨k, _, _, .invocationTarget, rfl, htype, rfl, hk⟩

/-- Caveats: one, or a list of them. -/
def IsCaveats (v : Value) : Prop :=
  IsCaveat v ∨ ∃ vs, v = .list vs ∧ ∀ k ∈ vs, IsCaveat k

namespace Capability

variable {fields : Fields}

theorem exists_caveats_iff :
    (∃ docs, caveatDocuments fields = .ok docs ∧
        ∃ ks, docs.mapM (Caveat.read .builtIn) = .ok ks) ↔
      ∀ v, fields.lookup (.plain "caveat") = some v → IsCaveats v := by
  simp only [exists_mapM_iff, Caveat.exists_read_iff, caveatDocuments]
  cases hfield : fields.lookup (.plain "caveat") with
  | none => simp
  | some v =>
      have hone : ∀ {v}, (∀ fs, v ≠ .object fs) → ¬ IsCaveat v := by
        intro v hv hk
        cases hk <;> exact hv _ rfl
      cases v with
      | object fs => simp [IsCaveats]
      | list vs => simp [IsCaveats, hone]
      | _ => simp [IsCaveats, hone]

/-! ## §3. Fields. -/

/-- Every field but the proofs is what it may be. -/
structure Plain (fields : Fields) : Prop where
  id : IsName (Document.field fields "id")
  target : ∀ v, fields.lookup (.plain "invocationTarget") = some v → IsTarget v
  parent : Document.field fields "parentCapability" = .null ∨
    ∃ s, Document.field fields "parentCapability" = .text s
  names : ∀ name ∈ ["allowedAction", "controller", "invoker", "delegator"],
    Document.field fields name = .null ∨ IsNames (Document.field fields name)
  expires : Document.field fields "expires" = .null ∨ IsTime (Document.field fields "expires")
  caveats : ∀ v, fields.lookup (.plain "caveat") = some v → IsCaveats v

/-- The proofs that a value lists: none, one object, or a list of objects. -/
def ListsProofs (v : Value) (ps : List Fields) : Prop :=
  (v = .null ∧ ps = []) ∨ (∃ p, v = .object p ∧ ps = [p]) ∨ v = .list (ps.map .object)

theorem exists_map_object {vs : List Value} (h : vs.all isObject = true) :
    ∃ ps : List Fields, vs = ps.map .object := by
  induction vs with
  | nil => exact ⟨[], rfl⟩
  | cons v vs ih =>
      rw [List.all_cons, Bool.and_eq_true] at h
      obtain ⟨ps, hps⟩ := ih h.2
      cases v with
      | object p => exact ⟨p :: ps, by rw [hps, List.map_cons]⟩
      | _ => exact absurd h.1 (by simp [isObject])

theorem all_isObject_map (ps : List Fields) : (ps.map Value.object).all isObject = true := by
  simp [isObject]

theorem proofList_eq_ok_iff {v : Value} {vs : List Value} :
    proofList v = .ok vs ↔ ∃ ps, ListsProofs v ps ∧ vs = ps.map .object := by
  cases v with
  | list ws =>
      rw [proofList]
      constructor
      · intro h
        split at h
        next hall =>
          cases h
          obtain ⟨ps, rfl⟩ := exists_map_object hall
          exact ⟨ps, .inr (.inr rfl), rfl⟩
        next => cases h
      · intro hlists
        rcases hlists with ⟨ps, ⟨h, -⟩ | ⟨p, h, -⟩ | h, rfl⟩
        · cases h
        · cases h
        · cases h
          rw [if_pos (all_isObject_map ps)]
  | _ => simp [proofList, ListsProofs, eq_comm]

theorem exists_readId_iff :
    (∃ id, readId fields = .ok id) ↔ IsName (Document.field fields "id") := by
  simp only [readId_eq_ok_iff, Text.isEmpty_eq_false_iff, IsName, ne_eq]

theorem readParent_eq_ok_iff {parent : Option Text} :
    readParent fields = .ok parent ↔
      Document.field fields "parentCapability" = Value.ofText? parent := by
  rw [readParent]
  cases Document.field fields "parentCapability" <;> cases parent <;> simp [Value.ofText?]

/-- A document can be read on its own, with these proofs, exactly if its fields are what
they may be. -/
theorem exists_says_iff {vs : List Value} :
    (∃ c, Says .builtIn fields c ∧ c.proof = vs) ↔
      Plain fields ∧ proofList (Document.field fields "proof") = .ok vs := by
  have hnames : ∀ name, (∃ ws, Names fields name ws) ↔
      Document.field fields name = .null ∨ IsNames (Document.field fields name) := by
    intro name
    rw [← Document.exists_readNames_iff name]
    exact ⟨fun ⟨_, ss, hss, _⟩ => ⟨ss, hss⟩, fun ⟨ss, hss⟩ => ⟨_, ss, hss, rfl⟩⟩
  constructor
  · intro hsays
    obtain ⟨c, h, rfl⟩ := hsays
    refine ⟨⟨exists_readId_iff.mp ⟨_, h.id⟩, fun v hv => ?_, ?_, ?_,
      Document.exists_readTime?_iff.mp ⟨_, h.expires⟩, exists_caveats_iff.mp ?_⟩, h.proof⟩
    · have htarget := h.target
      rw [hv, Option.getD_some] at htarget
      exact Target.exists_read_iff.mp ⟨_, htarget⟩
    · have hparent := readParent_eq_ok_iff.mp h.parent
      cases hc : c.parent with
      | none => exact .inl (by rw [hparent, hc]; rfl)
      | some s => exact .inr ⟨s, by rw [hparent, hc]; rfl⟩
    · simp only [List.forall_mem_cons, List.not_mem_nil, false_implies, implies_true, and_true,
        ← hnames]
      exact ⟨⟨_, h.allowedAction⟩, ⟨_, h.controller⟩, ⟨_, h.invoker⟩, ⟨_, h.delegator⟩⟩
    · obtain ⟨docs, hdocs, hks⟩ := h.caveats
      exact ⟨docs, hdocs, _, hks⟩
  · intro hplain
    obtain ⟨h, hproof⟩ := hplain
    obtain ⟨id, hid⟩ := exists_readId_iff.mpr h.id
    -- Without a target of its own, the document has its name for one.
    have htarget : ∃ t,
        Target.read ((fields.lookup (.plain "invocationTarget")).getD (.text id)) = .ok t := by
      rw [Target.exists_read_iff]
      cases hfield : fields.lookup (.plain "invocationTarget") with
      | some v => exact h.target v hfield
      | none =>
          obtain ⟨-, hne⟩ := readId_eq_ok_iff.mp hid
          exact .inl ⟨id, rfl, by simpa using hne⟩
    obtain ⟨target, htarget⟩ := htarget
    have hparent : ∃ parent, readParent fields = .ok parent := by
      simp only [readParent_eq_ok_iff]
      rcases h.parent with hnull | ⟨s, htext⟩
      · exact ⟨none, hnull⟩
      · exact ⟨some s, htext⟩
    obtain ⟨parent, hparent⟩ := hparent
    have hfields := h.names
    simp only [List.forall_mem_cons, List.not_mem_nil, false_implies, implies_true, and_true,
      ← hnames] at hfields
    obtain ⟨⟨allowedAction, hactions⟩, ⟨controller, hcontroller⟩, ⟨invoker, hinvoker⟩,
      ⟨delegator, hdelegator⟩⟩ := hfields
    obtain ⟨expires, hexpires⟩ := Document.exists_readTime?_iff.mpr h.expires
    obtain ⟨docs, hdocs, caveats, hcaveats⟩ := exists_caveats_iff.mpr h.caveats
    let c : Capability :=
      { id := id, target, allowedAction, controller, invoker, delegator, parent, expires, caveats,
        chain := [], proof := vs }
    exact ⟨c, ⟨hid, hparent, ⟨docs, hdocs, hcaveats⟩, hproof, htarget, hactions, hcontroller,
      hinvoker, hdelegator, hexpires, rfl⟩, rfl⟩

end Capability

end Mandate
