/-
  Mandate.Proofs.Capability.Rezoned
  ────────────────────────────────
  **THE SAME TIMES BY OTHER CLOCKS.**

  A time may be written by the clocks of any place, and one without an offset is in UTC.
  Two capabilities are rezoned if their times are the same instants, written in whatever
  way, and everything else about them is equal.

  What is reported of a time is its form in UTC, so a denial uses the same words for a time
  and for another way of writing it, and where UTC has no year for the time it fails for
  both of them.

  Main results:
    * `Caveat.Rezoned.check` — a caveat holds, or denies with these words, either way;
    * `Retimed.read`         — documents that write the same times denote rezoned
                               capabilities.
-/
import Mandate.Proofs.Capability.Reading
import Mandate.Proofs.Time.Written

namespace Mandate

open Json (Value Fields)
open Time (Stamp)

/-! ## §1. Times. -/

/-- Two values of a field for a time: the same one, or two texts for the same instant. -/
inductive SameTime : Value → Value → Prop
  | same (v : Value) : SameTime v v
  | texts {s s' : Text} {m m' : Time.Moment} (hs : Time.Iso.moment? s = some m)
      (hs' : Time.Iso.moment? s' = some m') (h : m'.stamp.instant = m.stamp.instant) :
      SameTime (.text s) (.text s')

theorem SameTime.readTime {v v' : Value} (h : SameTime v v') {name : String} {t : Option Stamp}
    (hread : Document.readTime name v = .ok t) :
    ∃ t', Document.readTime name v' = .ok t' ∧ t'.map (·.instant) = t.map (·.instant) := by
  cases h with
  | same v => exact ⟨t, hread, rfl⟩
  | @texts s s' m m' hs hs' hinstant =>
      rw [Document.readTime, hs] at hread
      cases hread
      refine ⟨some m'.stamp, ?_, congrArg some hinstant⟩
      rw [Document.readTime, hs']

/-! ## §2. Caveats. -/

/-- The same occasion by another clock. -/
structure Occasion.Rezoned (o o' : Occasion) : Prop where
  now : o'.now.instant = o.now.instant
  action : o'.action = o.action
  target : o'.target = o.target

theorem Occasion.Rezoned.reached {o o' : Occasion} (h : o.Rezoned o') {t t' : Stamp}
    (ht : t'.instant = t.instant) : o'.reached t' = o.reached t := by
  unfold Occasion.reached
  rw [ht, h.now]

/-- The same restriction, an expiration by another clock. -/
inductive Caveat.Rezoned : Caveat → Caveat → Prop
  | same (k : Caveat) : Rezoned k k
  | expiration {t t' : Stamp} (h : t'.instant = t.instant) :
      Rezoned (.expiration t) (.expiration t')

/-- A caveat holds, or denies with these words, no matter by which clocks it is written and
looked at. -/
theorem Caveat.Rezoned.check {k k' : Caveat} (h : k.Rezoned k') {o o' : Occasion}
    (ho : o.Rezoned o') : k'.check o' = k.check o := by
  cases h with
  | expiration ht =>
      unfold Caveat.check
      simp only [ho.reached ht, Time.timeText_congr ht]
  | same k =>
      cases k with
      | expiration t =>
          unfold Caveat.check
          simp only [ho.reached rfl]
      | allowedAction actions =>
          unfold Caveat.check
          rw [ho.action]
      | invocationTarget target =>
          unfold Caveat.check
          rw [ho.target]
      | declared type text => cases text <;> rfl

/-- Two documents of a caveat that write the same time. -/
inductive Caveat.Retimed : Value → Value → Prop
  | same (v : Value) : Retimed v v
  | object {fields fields' : Fields}
      (expires : SameTime (Document.field fields "expires") (Document.field fields' "expires"))
      (rest : ∀ name, name ≠ "expires" →
        Document.field fields' name = Document.field fields name) :
      Retimed (.object fields) (.object fields')

/-- Only one kind of caveats looks at the field for a time. -/
theorem CaveatKind.read_retimed {kind : CaveatKind} {type : Text} {fields fields' : Fields}
    (hexpires : SameTime (Document.field fields "expires") (Document.field fields' "expires"))
    (hrest : ∀ name, name ≠ "expires" →
      Document.field fields' name = Document.field fields name)
    {k : Caveat} (hread : kind.read type fields = .ok k) :
    ∃ k', kind.read type fields' = .ok k' ∧ k.Rezoned k' := by
  cases kind with
  | expiration =>
      obtain ⟨t, ht, hk⟩ := Capability.bind_eq_ok.mp hread
      obtain ⟨t', ht', hsame⟩ := hexpires.readTime ht
      unfold CaveatKind.read
      rw [ht']
      cases t with
      | none => cases hk
      | some t =>
          cases hk
          obtain ⟨u, hu, hinstant⟩ := Option.map_eq_some_iff.mp hsame
          subst hu
          exact ⟨_, rfl, .expiration hinstant⟩
  | allowedAction =>
      refine ⟨k, ?_, .same k⟩
      unfold CaveatKind.read at hread ⊢
      rw [hrest "allowedAction" (by decide)]
      exact hread
  | invocationTarget =>
      refine ⟨k, ?_, .same k⟩
      unfold CaveatKind.read at hread ⊢
      rw [hrest "invocationTarget" (by decide)]
      exact hread
  | declared text => exact ⟨k, hread, .same k⟩

theorem Caveat.Retimed.read {known : Registry} {v v' : Value} (h : Caveat.Retimed v v')
    {k : Caveat} (hread : Caveat.read known v = .ok k) :
    ∃ k', Caveat.read known v' = .ok k' ∧ k.Rezoned k' := by
  cases h with
  | same v => exact ⟨k, hread, .same k⟩
  | @object fields fields' hexpires hrest =>
      obtain ⟨_, type, kind, hv, htype, hkind, hk⟩ := Caveat.read_eq_ok_iff.mp hread
      cases hv
      have htype' : Document.field fields' "type" = .text type := by
        rw [hrest "type" (by decide), htype]
      obtain ⟨k', hk', hsame⟩ := CaveatKind.read_retimed hexpires hrest hk
      exact ⟨k', Caveat.read_eq_ok_iff.mpr ⟨fields', type, kind, rfl, htype', hkind, hk'⟩, hsame⟩

/-! ## §3. Capabilities. -/

namespace Capability

variable {known : Registry} {c c' : Capability}

/-- The same capability with its times by other clocks: its end of validity and those of its
caveats are the same instants, and everything else is equal. -/
structure Rezoned (c c' : Capability) : Prop where
  expires : c'.expires.map (·.instant) = c.expires.map (·.instant)
  caveats : List.Forall₂ Caveat.Rezoned c.caveats c'.caveats
  rest : c' = { c with expires := c'.expires, caveats := c'.caveats }

namespace Rezoned

theorem id (h : c.Rezoned c') : c'.id = c.id := by rw [h.rest]

theorem target (h : c.Rezoned c') : c'.target = c.target := by rw [h.rest]

theorem allowedAction (h : c.Rezoned c') : c'.allowedAction = c.allowedAction := by
  rw [h.rest]

theorem chain (h : c.Rezoned c') : c'.chain = c.chain := by rw [h.rest]

theorem parent (h : c.Rezoned c') : c'.parent = c.parent := by rw [h.rest]

theorem invokerEntries (h : c.Rezoned c') : c'.invokerEntries = c.invokerEntries := by
  rw [h.rest]
  rfl

theorem proof (h : c.Rezoned c') : c'.proof = c.proof := by rw [h.rest]

theorem withChain (h : c.Rezoned c') (chain : List Value) :
    ({ c with chain } : Capability).Rezoned { c' with chain } where
  expires := h.expires
  caveats := h.caveats
  rest := by rw [h.rest]

/-- The shape of a chain has nothing to do with times. -/
theorem validateChain (h : c.Rezoned c') : c'.validateChain known = c.validateChain known :=
  validateChain_congr h.chain h.parent

theorem refl (c : Capability) : c.Rezoned c where
  expires := rfl
  caveats := List.forall₂_same.mpr fun k _ => .same k
  rest := rfl

end Rezoned

/-! ## §4. Documents. -/

/-- Two documents of a capability that write the same times, and are equal in every other
field. -/
structure Retimed (fields fields' : Fields) : Prop where
  expires : SameTime (Document.field fields "expires") (Document.field fields' "expires")
  /-- The caveats stand in the same places. -/
  caveats : ∀ docs, caveatDocuments fields = .ok docs →
    ∃ docs', caveatDocuments fields' = .ok docs' ∧ List.Forall₂ Caveat.Retimed docs docs'
  rest : ∀ name : Text, name ≠ "expires" → name ≠ "caveat" →
    fields'.lookup name = fields.lookup name

theorem exists_caveats_of_retimed {docs docs' : List Value}
    (h : List.Forall₂ Caveat.Retimed docs docs') {ks : List Caveat}
    (hread : docs.mapM (Caveat.read known) = .ok ks) :
    ∃ ks', docs'.mapM (Caveat.read known) = .ok ks' ∧ List.Forall₂ Caveat.Rezoned ks ks' := by
  simp only [mapM_eq_ok_iff] at hread ⊢
  induction h generalizing ks with
  | nil =>
      cases hread
      exact ⟨[], .nil, .nil⟩
  | cons hdoc hdocs ih =>
      cases hread with
      | cons hk hks =>
          obtain ⟨k', hk', hsame⟩ := hdoc.read hk
          obtain ⟨ks', hks', hsames⟩ := ih hks
          exact ⟨k' :: ks', .cons hk' hks', .cons hsame hsames⟩

/-- A document that writes the same times says the same, with its own way of writing them. -/
theorem Retimed.tells {fields fields' : Fields} (h : Retimed fields fields')
    (htold : Says known fields c) : ∃ c', Says known fields' c' ∧ c.Rezoned c' := by
  have hfield : ∀ name : String, (name : Text) ≠ "expires" → (name : Text) ≠ "caveat" →
      Document.field fields' name = Document.field fields name := by
    intro name hexpires hcaveat
    unfold Document.field
    rw [h.rest _ hexpires hcaveat]
  have hnames : ∀ {name : String} {vs : List Value},
      (name : Text) ≠ "expires" → (name : Text) ≠ "caveat" → Names fields name vs →
        Names fields' name vs := by
    intro name vs hexpires hcaveat hvs
    unfold Names
    rw [hfield name hexpires hcaveat]
    exact hvs
  obtain ⟨t', ht', hinstant⟩ := h.expires.readTime htold.expires
  obtain ⟨docs, hdocs, hks⟩ := htold.caveats
  obtain ⟨docs', hdocs', hretimed⟩ := h.caveats docs hdocs
  obtain ⟨ks', hks', hrezoned⟩ := exists_caveats_of_retimed hretimed hks
  refine ⟨{ c with expires := t', caveats := ks' }, ?_, hinstant, hrezoned, rfl⟩
  constructor
  case id =>
    unfold readId
    rw [hfield _ (by decide) (by decide)]
    exact htold.id
  case parent =>
    unfold readParent
    rw [hfield _ (by decide) (by decide)]
    exact htold.parent
  case caveats => exact ⟨docs', hdocs', hks'⟩
  case proof =>
    rw [hfield _ (by decide) (by decide)]
    exact htold.proof
  case target =>
    rw [h.rest _ (by decide) (by decide)]
    exact htold.target
  case allowedAction => exact hnames (by decide) (by decide) htold.allowedAction
  case controller => exact hnames (by decide) (by decide) htold.controller
  case invoker => exact hnames (by decide) (by decide) htold.invoker
  case delegator => exact hnames (by decide) (by decide) htold.delegator
  case expires => exact ht'
  case chain => exact htold.chain

/-- Documents that write the same times denote rezoned capabilities. -/
theorem Retimed.read {fields fields' : Fields} (h : Retimed fields fields')
    (hread : Capability.read known (.object fields) = .ok c) :
    ∃ c', Capability.read known (.object fields') = .ok c' ∧ c.Rezoned c' := by
  obtain ⟨hdraft, hshape⟩ := read_eq_ok_iff.mp hread
  obtain ⟨_, own, chain, hfields, hown, hchain, hc⟩ := draft_eq_ok_iff.mp hdraft
  cases hfields
  subst hc
  obtain ⟨own', htold', hsame⟩ := h.tells (readOwn_eq_ok_iff.mp hown)
  have hrezoned := hsame.withChain chain
  -- The chain comes from the proofs, which are the same.
  have hchain' : delegationChain own'.proof = .ok chain := by
    rw [hsame.proof, hchain]
  refine ⟨{ own' with chain }, read_eq_ok_iff.mpr ⟨draft_eq_ok_iff.mpr ?_, ?_⟩, hrezoned⟩
  · exact ⟨fields', own', chain, rfl, readOwn_eq_ok_iff.mpr htold', hchain', rfl⟩
  · rw [hrezoned.validateChain, hshape]

end Capability

end Mandate
