/-
  Mandate.Proofs.Capability.RoundTrip
  ────────────────────────────────
  **WRITTEN CAPABILITIES ARE READ BACK.**

  A capability is written with its fields in a fixed order, and what is empty is
  left out.  Reading tells an absent field from an empty one in one place only: a
  parent without a name is left out, and read as no parent.  Times come back in UTC,
  and everything else comes back as it was.

      Keeps       — the built-in types of caveats are known as what they are
      Worded      — what a capability says of itself can be said in a document
      WellFormed  — the shape that every capability read from a document has
      Datable     — every time has a year in UTC, so that it can be written
      reread      — what comes back

  Main results:
    * `read_of_worded`        — whatever is worded, carries its chain, and is datable is
                                read back;
    * `read_toJson`           — so is whatever is well formed and datable;
    * `wellFormed_of_read`    — what is read is well formed;
    * `reread_alike_iff`      — what comes back is the same grant, unless the parent
                                has no name;
    * `round_trip_law`        — reading undoes writing, unless the parent has no name.
-/
import Mandate.Capability.Writer
import Mandate.Proofs.Capability.Reading
import Mandate.Proofs.Time.Written

namespace Mandate

open Json (Value Fields)
open Time (Stamp)

/-! ## §1. Caveats. -/

namespace Registry

/-- Each of the built-in types is known, and as what it is. -/
def Keeps (known : Registry) : Prop :=
  ∀ row ∈ builtIn, known.lookup row.1 = some row.2

theorem keeps_builtIn : builtIn.Keeps := by
  simp only [Keeps, builtIn, List.forall_mem_cons, List.not_mem_nil, false_implies, implies_true,
    and_true]
  exact ⟨rfl, rfl, rfl⟩

/-- A declaration under a name of its own leaves the built-in types as they are. -/
theorem Keeps.declare {known : Registry} (h : known.Keeps) {type : Text}
    (htype : type ∉ builtIn.map (·.1)) (text : Option Text) :
    (known.declare type text).Keeps := by
  intro row hrow
  have hne : row.1 ≠ type := by
    intro heq
    exact htype (List.mem_map.mpr ⟨row, hrow, heq⟩)
  show List.lookup row.1 ((type, .declared text) :: known) = some row.2
  rw [Table.lookup_entry, if_neg hne]
  exact h row hrow

end Registry

namespace Caveat

variable {known : Registry}

/-- The caveats that documents of the built-in types denote. -/
def Proper : Caveat → Prop
  | .expiration _ => True
  | .allowedAction actions => actions ≠ []
  | .invocationTarget target => target ≠ ""
  | .declared _ _ => False

/-- The time of the caveat, if it has one, has a year in UTC. -/
def Datable : Caveat → Prop
  | .expiration t => t.inUtc? ≠ none
  | _ => True

/-- The caveat with its time in UTC. -/
def inUtc : Caveat → Caveat
  | .expiration t => .expiration t.utc
  | k => k

/-- A caveat of a built-in kind is proper once it is read. -/
theorem proper_of_kind {kind : CaveatKind} {type : Text} {fields : Fields} {k : Caveat}
    (h : kind.read type fields = .ok k) (hkind : ∀ text, kind ≠ .declared text) : k.Proper := by
  cases kind with
  | expiration =>
      obtain ⟨t, -, hk⟩ := Capability.bind_eq_ok.mp h
      split at hk
      · cases hk
        exact trivial
      · cases hk
  | allowedAction =>
      obtain ⟨actions, -, hk⟩ := Capability.bind_eq_ok.mp h
      split at hk
      next => cases hk
      next hne =>
        cases hk
        simpa [Proper] using hne
  | invocationTarget =>
      simp only [CaveatKind.read] at h
      split at h
      next target htarget =>
        cases h
        simpa [Proper] using (Document.properText?_eq_some.mp htarget).2
      next => cases h
  | declared text => exact absurd rfl (hkind text)

/-- Whatever is read is proper or of a declared type. -/
theorem proper_or_declared_of_read {v : Value} {k : Caveat} (h : read known v = .ok k) :
    k.Proper ∨ ∃ type text, k = .declared type text := by
  obtain ⟨fields, type, kind, -, -, -, hkind⟩ := read_eq_ok_iff.mp h
  cases kind with
  | declared text =>
      cases hkind
      exact .inr ⟨type, text, rfl⟩
  | _ => exact .inl (proper_of_kind hkind nofun)

theorem ne_declared_of_builtIn {name : Text} {kind : CaveatKind}
    (h : Registry.builtIn.lookup name = some kind) (text : Option Text) :
    kind ≠ .declared text := by
  obtain ⟨before, after, hsplit, -⟩ := List.lookup_eq_some_iff.mp h
  have hmem : (name, kind) ∈ Registry.builtIn := by simp [hsplit]
  rintro rfl
  simp [Registry.builtIn] at hmem

theorem proper_of_read {v : Value} {k : Caveat} (h : read .builtIn v = .ok k) : k.Proper := by
  obtain ⟨fields, type, kind, -, -, hlookup, hkind⟩ := read_eq_ok_iff.mp h
  exact proper_of_kind hkind (ne_declared_of_builtIn hlookup)

/-- A proper caveat is written, and read back with its time in UTC. -/
theorem exists_toJson (hknown : known.Keeps) {k : Caveat} (hk : k.Proper) (ht : k.Datable) :
    ∃ v, k.toJson = .ok v ∧ read known v = .ok k.inUtc := by
  cases k with
  | expiration t =>
      have hrow := hknown ("ExpirationCaveat", .expiration) (by simp [Registry.builtIn])
      obtain ⟨text, htext, hread⟩ := Time.exists_timeText ht
      refine ⟨.object [("type", .text "ExpirationCaveat"), ("expires", .text text)], ?_,
        read_eq_ok_iff.mpr ⟨_, _, .expiration, rfl, rfl, hrow, ?_⟩⟩
      · rw [toJson, htext]
        rfl
      · have hfield := hread "caveat.expires"
        simp [CaveatKind.read, Document.field, List.lookup_cons, hfield, bind, Except.bind, inUtc]
  | allowedAction actions =>
      have hrow := hknown ("AllowedActionCaveat", .allowedAction) (by simp [Registry.builtIn])
      refine ⟨_, rfl, read_eq_ok_iff.mpr ⟨_, _, .allowedAction, rfl, rfl, hrow, ?_⟩⟩
      have hfield : Document.readNames "caveat.allowedAction" (.texts actions) = .ok actions :=
        Document.readTexts_texts _ actions
      have hne : actions ≠ [] := hk
      simp [CaveatKind.read, Document.field, List.lookup_cons, hfield, bind, Except.bind, hne,
        inUtc]
  | invocationTarget target =>
      have hrow := hknown ("InvocationTargetCaveat", .invocationTarget) (by simp [Registry.builtIn])
      refine ⟨_, rfl, read_eq_ok_iff.mpr ⟨_, _, .invocationTarget, rfl, rfl, hrow, ?_⟩⟩
      have hne : target ≠ "" := hk
      have hfield : Document.properText? (.text target) = some target :=
        Document.properText?_eq_some.mpr ⟨rfl, by simpa using hne⟩
      simp [CaveatKind.read, Document.field, List.lookup_cons, hfield, inUtc]
  | declared type text => exact absurd hk id

/-- A caveat is written exactly if UTC has a year for its time. -/
theorem exists_toJson_iff {k : Caveat} : (∃ v, k.toJson = .ok v) ↔ k.Datable := by
  cases k with
  | expiration t =>
      constructor
      · rintro ⟨v, hv⟩
        obtain ⟨text, htext, -⟩ := Capability.bind_eq_ok.mp hv
        exact Time.inUtc?_ne_none_of_timeText htext
      · intro ht
        obtain ⟨v, hv, -⟩ := exists_toJson Registry.keeps_builtIn (k := .expiration t) trivial ht
        exact ⟨v, hv⟩
  | _ => exact iff_of_true ⟨_, rfl⟩ trivial

theorem inUtc_alike (k : Caveat) : k.inUtc.alike k = true := by
  cases k <;> simp [inUtc, alike, Stamp.instant_utc]

end Caveat

namespace Capability

variable {known : Registry} {fields : Fields} {doc : Value} {c : Capability}

/-! ## §2. The fields of a written document. -/

/-- Every field is written under its own name. -/
def Under (name : String) (fields : Fields) : Prop := ∀ f ∈ fields, f.1 = name

theorem under_singleton (name : String) (v : Value) : Under name [(name, v)] := by
  simp [Under]

theorem Under.lookup_ne {name other : String} (h : Under name fields) (hne : other ≠ name) :
    fields.lookup (.plain other) = none := by
  rw [List.lookup_eq_none_iff]
  intro f hf
  rw [h f hf, bne_iff_ne, Ne, Text.plain.injEq]
  exact hne

/-- Where each piece of a document holds the fields of one name and no two are of the
same name, a name leads into its own piece. -/
theorem lookup_pieces {pieces : List (String × Fields)} (hunder : ∀ p ∈ pieces, Under p.1 p.2)
    (hnames : (pieces.map (·.1)).Nodup) {name : String} {piece : Fields}
    (hmem : (name, piece) ∈ pieces) :
    List.lookup (.plain name) (pieces.flatMap (·.2)) = piece.lookup (.plain name) := by
  induction pieces with
  | nil => exact absurd hmem List.not_mem_nil
  | cons p pieces ih =>
      rw [List.map_cons, List.nodup_cons] at hnames
      obtain ⟨hfirst, hmore⟩ := List.forall_mem_cons.mp hunder
      rw [List.flatMap_cons, List.lookup_append]
      rcases List.mem_cons.mp hmem with rfl | hlater
      · -- No other piece has the name.
        have hnone : List.lookup (.plain name) (pieces.flatMap (·.2)) = none := by
          rw [List.lookup_eq_none_iff]
          intro f hf
          obtain ⟨q, hq, hfq⟩ := List.mem_flatMap.mp hf
          rw [hmore q hq f hfq, bne_iff_ne]
          rintro ⟨⟩
          exact hnames.1 (List.mem_map.mpr ⟨q, hq, rfl⟩)
        rw [hnone, Option.or_none]
      · have hne : name ≠ p.1 := by
          rintro rfl
          exact hnames.1 (List.mem_map.mpr ⟨_, hlater, rfl⟩)
        rw [hfirst.lookup_ne hne, Option.none_or, ih hmore hnames.2 hlater]

/-- The pieces of a written document, each with its name, given those of its times. -/
def pieces (c : Capability) (expires : Fields) (caveats : List Value) : List (String × Fields) :=
  [("@context", [("@context", .text context)]), ("id", [("id", .text c.id)]),
    ("invocationTarget", [("invocationTarget", c.target.toJson)]),
    ("parentCapability", c.parentField), ("controller", namesField "controller" c.controller),
    ("invoker", namesField "invoker" c.invoker),
    ("delegator", namesField "delegator" c.delegator), ("allowedAction", c.actionsField),
    ("expires", expires), ("caveat", caveatField caveats), ("proof", c.proofField)]

theorem toJson_eq_ok_iff :
    c.toJson = .ok doc ↔ ∃ expires caveats, c.expiresField = .ok expires ∧
      c.caveatValues = .ok caveats ∧ doc = .object ((c.pieces expires caveats).flatMap (·.2)) := by
  simp only [toJson, bind_eq_ok]
  constructor
  · rintro ⟨expires, hexpires, caveats, hcaveats, hdoc⟩
    cases hdoc
    exact ⟨expires, caveats, hexpires, hcaveats, by simp [pieces]⟩
  · rintro ⟨expires, caveats, hexpires, hcaveats, rfl⟩
    exact ⟨expires, hexpires, caveats, hcaveats, by simp [pieces, pure, Except.pure]⟩

theorem under_expiresField {expires : Fields} (h : c.expiresField = .ok expires) :
    Under "expires" expires := by
  unfold expiresField at h
  split at h
  · cases h
    simp [Under]
  · obtain ⟨text, -, hfields⟩ := bind_eq_ok.mp h
    cases hfields
    simp [Under]

theorem under_of_mem_pieces {expires : Fields} (h : c.expiresField = .ok expires)
    (caveats : List Value) : ∀ p ∈ c.pieces expires caveats, Under p.1 p.2 := by
  have hparent : Under "parentCapability" c.parentField := by
    unfold parentField
    split
    · split <;> simp [Under]
    · simp [Under]
  have hnames : ∀ name vs, Under name (namesField name vs) := by
    intro name vs
    unfold namesField
    split <;> simp [Under]
  have hactions : Under "allowedAction" c.actionsField := by
    unfold actionsField
    split <;> simp [Under]
  have hcaveats : Under "caveat" (caveatField caveats) := by
    unfold caveatField
    split <;> simp [Under]
  have hproof : Under "proof" c.proofField := by
    unfold proofField
    split
    · simp [Under]
    · split <;> simp [Under]
  simp only [pieces, List.forall_mem_cons, under_singleton, hparent, hnames, hactions, hcaveats,
    hproof, under_expiresField h, List.not_mem_nil, false_implies, implies_true, and_self]

/-- A name leads into its own piece of a written document. -/
theorem lookup_written {expires : Fields} (h : c.expiresField = .ok expires)
    {caveats : List Value} {name : String} {piece : Fields}
    (hmem : (name, piece) ∈ c.pieces expires caveats) :
    List.lookup (.plain name) ((c.pieces expires caveats).flatMap (·.2))
      = piece.lookup (.plain name) :=
  lookup_pieces (under_of_mem_pieces h caveats) (by simp [pieces]) hmem

/-! ## §3. Reading what is written. -/

/-- The proofs of a written document. -/
def writtenProof (c : Capability) : List Value :=
  if !c.proof.isEmpty then c.proof else if !c.chain.isEmpty then [chainProof c.chain] else []

/-- What a capability says of itself can be said in a document: it and its target have
names, lists of names hold texts, and caveats are proper. -/
structure Worded (c : Capability) : Prop where
  id : c.id ≠ ""
  target : c.target.id ≠ ""
  allowedAction : ∃ ss : List Text, ss.map .text = c.allowedAction
  controller : ∃ ss : List Text, ss.map .text = c.controller
  invoker : ∃ ss : List Text, ss.map .text = c.invoker
  delegator : ∃ ss : List Text, ss.map .text = c.delegator
  caveats : ∀ k ∈ c.caveats, k.Proper

/-- The shape of a capability that documents can denote: what it says of itself can be
said in one, and the chain is the one that its proofs carry and of a supported shape. -/
structure WellFormed (c : Capability) : Prop extends c.Worded where
  proof : c.writtenProof.all isObject = true
  carried : delegationChain c.writtenProof = .ok c.chain
  shape : c.validateChain .builtIn = .ok ()

/-- Every time has a year in UTC. -/
def Datable (c : Capability) : Prop :=
  (∀ t, c.expires = some t → t.inUtc? ≠ none) ∧ ∀ k ∈ c.caveats, k.Datable

/-- What is read once a capability is written. -/
def reread (c : Capability) : Capability :=
  { c with
    parent := c.parent.filter (!·.isEmpty)
    expires := c.expires.map (·.utc)
    caveats := c.caveats.map (·.inUtc)
    proof := c.writtenProof }

section Pieces

variable {piece : Fields} {name : String} {ss : List Text}

theorem Names.congr {vs : List Value} 
    (h : List.lookup (.plain name) fields = List.lookup (.plain name) piece)
    (hnames : Names piece name vs) : Names fields name vs := by
  rwa [Names, Document.field, h]

theorem names_namesField (name : String) (ss : List Text) :
    Names (namesField name (ss.map .text)) name (ss.map .text) := by
  have hfield : Document.field (namesField name (ss.map .text)) name
      = Document.compact (ss.map .text) := by
    unfold namesField Document.field
    split
    next hnull => simp [hnull]
    next => simp
  refine ⟨ss, ?_, rfl⟩
  rw [hfield, Document.readNames_compact]

theorem names_actionsField (h : ss.map .text = c.allowedAction) :
    Names c.actionsField "allowedAction" c.allowedAction := by
  refine ⟨ss, ?_, h⟩
  unfold actionsField Document.field
  split
  next hempty =>
    have hnil : ss = [] := by simpa [← h] using hempty
    rw [hnil]
    rfl
  next =>
    rw [← h]
    simp [Document.readNames, Document.readTexts_texts]

theorem readParent_parentField (c : Capability) :
    readParent c.parentField = .ok (c.parent.filter (!·.isEmpty)) := by
  unfold readParent parentField
  cases c.parent with
  | none => rfl
  | some p => by_cases hp : p.isEmpty <;> simp [hp, Document.field, Option.filter]

theorem readTime_expiresField (ht : ∀ t, c.expires = some t → t.inUtc? ≠ none) :
    ∃ expires, c.expiresField = .ok expires ∧
      Document.readTime "expires" (Document.field expires "expires")
        = .ok (c.expires.map (·.utc)) := by
  unfold expiresField
  cases hexpires : c.expires with
  | none => exact ⟨[], rfl, rfl⟩
  | some t =>
      obtain ⟨text, htext, hread⟩ := Time.exists_timeText (ht t hexpires)
      refine ⟨[("expires", .text text)], ?_, ?_⟩
      · simp [htext, bind, Except.bind, pure, Except.pure]
      · simpa [Document.field] using hread "expires"

theorem caveatDocuments_caveatField (values : List Value) :
    caveatDocuments (caveatField values) = .ok values := by
  cases values <;> simp [caveatDocuments, caveatField]

/-- The caveats of a capability are written, and read back with their times in UTC. -/
theorem exists_caveatValues (hknown : known.Keeps) {ks : List Caveat} (hproper : ∀ k ∈ ks, k.Proper)
    (hdatable : ∀ k ∈ ks, k.Datable) :
    ∃ values, ks.mapM Caveat.toJson = .ok values ∧
      values.mapM (Caveat.read known) = .ok (ks.map (·.inUtc)) := by
  simp only [mapM_eq_ok_iff]
  induction ks with
  | nil => exact ⟨[], .nil, .nil⟩
  | cons k ks ih =>
      rw [List.forall_mem_cons] at hproper hdatable
      obtain ⟨v, hv, hread⟩ := Caveat.exists_toJson hknown hproper.1 hdatable.1
      obtain ⟨vs, hvs, hreads⟩ := ih hproper.2 hdatable.2
      exact ⟨v :: vs, .cons hv hvs, .cons hread hreads⟩

theorem proofList_proofField (h : c.writtenProof.all isObject = true) :
    proofList (Document.field c.proofField "proof") = .ok c.writtenProof := by
  unfold writtenProof at h ⊢
  unfold proofField Document.field
  split
  next hproof =>
    rw [if_pos hproof] at h
    simp [proofList, h]
  next =>
    split
    · simp [proofList, isObject, chainProof]
    · rfl

end Pieces

/-- The parent that a written document names. -/
theorem readParent_written {expires : Fields} (h : c.expiresField = .ok expires)
    (caveats : List Value) :
    readParent ((c.pieces expires caveats).flatMap (·.2))
      = .ok (c.parent.filter (!·.isEmpty)) := by
  have hlookup := lookup_written h
    (show ("parentCapability", c.parentField) ∈ c.pieces expires caveats by simp [pieces])
  rw [readParent, Document.field, hlookup]
  exact readParent_parentField c

/-- The proofs of a written document, read again. -/
theorem proofList_written {expires : Fields} (h : c.expiresField = .ok expires)
    (caveats : List Value) (hproof : c.writtenProof.all isObject = true) :
    proofList (Document.field ((c.pieces expires caveats).flatMap (·.2)) "proof")
      = .ok c.writtenProof := by
  have hlookup := lookup_written h
    (show ("proof", c.proofField) ∈ c.pieces expires caveats by simp [pieces])
  rw [Document.field, hlookup]
  exact proofList_proofField hproof

/-- A chain of a supported shape is one also for a capability without a parent. -/
theorem checkChain_none {parent : Option Text} {es : List ChainEntry}
    (h : checkChain parent es = .ok ()) : checkChain none es = .ok () := by
  unfold checkChain at h ⊢
  split at h
  · rfl
  · cases h
  · obtain ⟨hreferences, -⟩ := bind_unit_eq_ok_iff.mp h
    exact bind_unit_eq_ok_iff.mpr ⟨hreferences, rfl⟩

theorem validateChain_reread (h : c.validateChain known = .ok ()) :
    c.reread.validateChain known = .ok () := by
  obtain ⟨es, hes, hshape⟩ := validateChain_eq_ok_iff.mp h
  refine validateChain_eq_ok_iff.mpr ⟨es, hes, ?_⟩
  show checkChain (c.parent.filter (!·.isEmpty)) es = .ok ()
  cases hparent : c.parent with
  | none => rwa [hparent] at hshape
  | some p =>
      rw [hparent] at hshape
      by_cases hp : p.isEmpty
      · simpa [Option.filter, hp] using checkChain_none hshape
      · simpa [Option.filter, hp] using hshape

/-- The fields of a written document say what was written. -/
theorem says_written (hc : c.Worded) (hproof : c.writtenProof.all isObject = true)
    {expires : Fields} {caveats : List Value}
    (hexpires : c.expiresField = .ok expires)
    (htime : Document.readTime "expires" (Document.field expires "expires")
      = .ok (c.expires.map (·.utc)))
    (hcaveats : caveats.mapM (Caveat.read known) = .ok (c.caveats.map (·.inUtc))) :
    Says known ((c.pieces expires caveats).flatMap (·.2)) { c.reread with chain := [] } := by
  let written : Fields := (c.pieces expires caveats).flatMap (·.2)
  have hlookup : ∀ {name piece}, (name, piece) ∈ c.pieces expires caveats →
      List.lookup (.plain name) written = piece.lookup (.plain name) := lookup_written hexpires
  have hfield : ∀ {name piece}, (name, piece) ∈ c.pieces expires caveats →
      Document.field written name = Document.field piece name := by
    intro name piece hmem
    rw [Document.field, Document.field, hlookup hmem]
  have hnames : ∀ {name vs}, (name, namesField name vs) ∈ c.pieces expires caveats →
      (∃ ss : List Text, ss.map .text = vs) → Names written name vs := by
    rintro name vs hmem ⟨ss, rfl⟩
    exact (names_namesField name ss).congr (hlookup hmem)
  constructor
  case id =>
    refine readId_eq_ok_iff.mpr ⟨?_, by simpa [reread] using hc.id⟩
    rw [hfield (show ("id", [(.plain "id", .text c.id)]) ∈ _ by simp [pieces])]
    rfl
  case parent => exact readParent_written hexpires caveats
  case caveats =>
    refine ⟨caveats, ?_, hcaveats⟩
    have hdocs := caveatDocuments_caveatField caveats
    rw [caveatDocuments] at hdocs ⊢
    rwa [hlookup (show ("caveat", caveatField caveats) ∈ _ by simp [pieces])]
  case proof => exact proofList_written hexpires caveats hproof
  case target =>
    rw [hlookup (show ("invocationTarget", [(.plain "invocationTarget", c.target.toJson)]) ∈ _ by
      simp [pieces])]
    simpa [reread] using c.target.read_toJson (by simpa using hc.target)
  case allowedAction =>
    obtain ⟨ss, hss⟩ := hc.allowedAction
    exact (names_actionsField hss).congr (hlookup (by simp [pieces]))
  case controller => exact hnames (by simp [pieces, reread]) hc.controller
  case invoker => exact hnames (by simp [pieces, reread]) hc.invoker
  case delegator => exact hnames (by simp [pieces, reread]) hc.delegator
  case expires =>
    rw [hfield (show ("expires", expires) ∈ _ by simp [pieces])]
    exact htime
  case chain => rfl

/-- **WRITTEN CAPABILITIES ARE READ BACK.**  What a capability says of itself comes back
under every registry that keeps the built-in types, with the chain that its proofs carry. -/
theorem read_of_worded (hknown : known.Keeps) (hc : c.Worded)
    (hproof : c.writtenProof.all isObject = true)
    (hcarried : delegationChain c.writtenProof = .ok c.chain)
    (hshape : c.validateChain known = .ok ()) (ht : c.Datable) :
    ∃ doc, c.toJson = .ok doc ∧ read known doc = .ok c.reread := by
  obtain ⟨expires, hexpires, htime⟩ := readTime_expiresField ht.1
  obtain ⟨caveats, hcaveats, hread⟩ := exists_caveatValues hknown hc.caveats ht.2
  refine ⟨_, toJson_eq_ok_iff.mpr ⟨expires, caveats, hexpires, hcaveats, rfl⟩, ?_⟩
  have hsays := readOwn_eq_ok_iff.mpr (says_written hc hproof hexpires htime hread)
  have hdraft := draft_eq_ok_iff.mpr ⟨_, _, c.chain, rfl, hsays, hcarried, rfl⟩
  exact read_eq_ok_iff.mpr ⟨hdraft, validateChain_reread hshape⟩

theorem read_toJson (hc : c.WellFormed) (ht : c.Datable) :
    ∃ doc, c.toJson = .ok doc ∧ read .builtIn doc = .ok c.reread :=
  read_of_worded Registry.keeps_builtIn hc.toWorded hc.proof hc.carried hc.shape ht

/-- What can be written has a year in UTC for each of its times. -/
theorem datable_of_toJson (h : c.toJson = .ok doc) : c.Datable := by
  obtain ⟨expires, caveats, hexpires, hcaveats, -⟩ := toJson_eq_ok_iff.mp h
  refine ⟨fun t ht => ?_, fun k hk => ?_⟩
  · rw [expiresField, ht] at hexpires
    obtain ⟨text, htext, -⟩ := bind_eq_ok.mp hexpires
    exact Time.inUtc?_ne_none_of_timeText htext
  · exact Caveat.exists_toJson_iff.mp (exists_mapM_iff.mp ⟨caveats, hcaveats⟩ k hk)

/-! ## §4. Writing what is read. -/

theorem Names.texts {name : String} {vs : List Value} (h : Names fields name vs) :
    ∃ ss : List Text, ss.map .text = vs := by
  obtain ⟨ss, -, hss⟩ := h
  exact ⟨ss, hss⟩

theorem id_ne_of_readTarget {v : Value} {t : Target} (h : Target.read v = .ok t) : t.id ≠ "" := by
  unfold Target.read at h
  split at h
  next fields =>
    split at h
    next id type hid htype =>
      cases h
      simpa using (Document.properText?_eq_some.mp hid).2
    next => cases h
  next =>
    split at h
    next id hid =>
      cases h
      simpa using (Document.properText?_eq_some.mp hid).2
    next => cases h

theorem objects_of_proofList {v : Value} {ps : List Value} (h : proofList v = .ok ps) :
    ps.all isObject = true := by
  unfold proofList at h
  split at h
  · cases h
    rfl
  · cases h
    rfl
  · split at h
    next hall =>
      cases h
      exact hall
    next => cases h
  · cases h

/-- A capability that takes its chain from its proofs is written with these proofs. -/
theorem writtenProof_eq (h : delegationChain c.proof = .ok c.chain) :
    c.writtenProof = c.proof := by
  unfold writtenProof
  split
  next => rfl
  next hproof =>
    have hnil : c.proof = [] := by simpa using hproof
    have hchain : [] = c.chain := by simpa [hnil, delegationChain] using h
    simp [← hchain, hnil]

/-- Whatever is read is well formed. -/
theorem wellFormed_of_read (h : read .builtIn doc = .ok c) : c.WellFormed := by
  obtain ⟨hdraft, hshape⟩ := read_eq_ok_iff.mp h
  obtain ⟨fields, own, chain, rfl, hown, hchain, rfl⟩ := draft_eq_ok_iff.mp hdraft
  have hsays := readOwn_eq_ok_iff.mp hown
  obtain ⟨docs, -, hcaveats⟩ := hsays.caveats
  have hwritten : writtenProof { own with chain } = own.proof := writtenProof_eq hchain
  constructor
  case toWorded =>
    constructor
    case id => exact id_ne_of_read h
    case target => exact id_ne_of_readTarget hsays.target
    case allowedAction => exact hsays.allowedAction.texts
    case controller => exact hsays.controller.texts
    case invoker => exact hsays.invoker.texts
    case delegator => exact hsays.delegator.texts
    case caveats =>
      intro k hk
      obtain ⟨v, -, hread⟩ := exists_of_mem_mapM hcaveats hk
      exact Caveat.proper_of_read hread
  case proof =>
    rw [hwritten]
    exact objects_of_proofList hsays.proof
  case carried => rwa [hwritten]
  case shape => exact hshape

/-! ## §5. What comes back. -/

theorem alikeCaveats_cons (a b : Caveat) (as bs : List Caveat) :
    alikeCaveats (a :: as) (b :: bs) = (a.alike b && alikeCaveats as bs) := by
  simp [alikeCaveats, Bool.and_left_comm]

theorem alikeCaveats_inUtc (ks : List Caveat) :
    alikeCaveats (ks.map (·.inUtc)) ks = true := by
  induction ks with
  | nil => rfl
  | cons k ks ih => rw [List.map_cons, alikeCaveats_cons, k.inUtc_alike, ih, Bool.and_self]

/-- What comes back is the same grant, unless its parent has no name. -/
theorem reread_alike_iff (c : Capability) :
    c.reread.alike c = true ↔ c.parent ≠ some (.plain "") := by
  have htimes : alikeTimes (c.expires.map (·.utc)) c.expires = true := by
    cases c.expires <;> simp [alikeTimes, Stamp.instant_utc]
  have hparent : c.parent.all (!·.isEmpty) = true ↔ c.parent ≠ some (.plain "") := by
    cases c.parent <;> simp
  simp [reread, alike, Value.alikeAll_refl, htimes, alikeCaveats_inUtc, hparent]

/-- **READING UNDOES WRITING, UNLESS THE PARENT HAS NO NAME.**  A capability that was
read from a document, and whose times have a year in UTC, is written as a document that
is read again.  What is read then is the same grant, except where the parent is there
but has no name. -/
theorem round_trip_law (h : read .builtIn doc = .ok c) (ht : c.Datable) :
    ∃ doc' c', c.toJson = .ok doc' ∧ read .builtIn doc' = .ok c' ∧
      (c'.alike c = true ↔ c.parent ≠ some (.plain "")) := by
  obtain ⟨doc', hwrite, hread⟩ := read_toJson (wellFormed_of_read h) ht
  exact ⟨doc', c.reread, hwrite, hread, reread_alike_iff c⟩

/-- A root that ends with the year 2026 of a place two hours ahead of UTC. -/
def yearDocument : Value :=
  .object [("id", .text "urn:zcap:root"), ("expires", .text "2027-01-01T00:00:00+02:00")]

/-- The same root as a capability. -/
def yearGrant : Capability :=
  { bare "urn:zcap:root" ⟨"urn:zcap:root", ""⟩ with
    expires := some ⟨⟨739981 * Time.day, by decide⟩, ⟨2 * 3600 * Time.second, by decide⟩⟩ }

/-- It comes back as the same grant. -/
theorem year_comes_back :
    read .builtIn yearDocument = .ok yearGrant ∧ yearGrant.Datable ∧
    ∃ doc c, yearGrant.toJson = .ok doc ∧ read .builtIn doc = .ok c ∧
      c.alike yearGrant = true := by
  have hread : read .builtIn yearDocument = .ok yearGrant :=
    read_eq_ok_iff.mpr ⟨rfl, validateChain_of_root rfl⟩
  have ht : yearGrant.Datable := by
    refine ⟨fun t ht => ?_, nofun⟩
    cases ht
    decide
  obtain ⟨doc, c, hwrite, hagain, hsame⟩ := round_trip_law hread ht
  exact ⟨hread, ht, doc, c, hwrite, hagain, hsame.mpr (by decide)⟩

/-- A root with a parent that has no name. -/
def namelessParent : Value :=
  .object [("id", .text "urn:zcap:root"), ("parentCapability", .text "")]

/-- It is read and written, and comes back without a parent, as another grant. -/
theorem nameless_parent_lost :
    ∃ c doc c', read .builtIn namelessParent = .ok c ∧ c.Datable ∧ c.toJson = .ok doc ∧
      read .builtIn doc = .ok c' ∧ c.parent = some (.plain "") ∧ c'.parent = none ∧
      c'.alike c = false := by
  let c : Capability :=
    { bare "urn:zcap:root" ⟨"urn:zcap:root", ""⟩ with parent := some (.plain "") }
  have hread : read .builtIn namelessParent = .ok c :=
    read_eq_ok_iff.mpr ⟨rfl, validateChain_of_root rfl⟩
  have ht : c.Datable := ⟨nofun, nofun⟩
  obtain ⟨doc, hwrite, hagain⟩ := read_toJson (wellFormed_of_read hread) ht
  exact ⟨c, doc, c.reread, hread, ht, hwrite, hagain, rfl, rfl, by decide⟩

end Capability

end Mandate
