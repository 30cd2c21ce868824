/-
  Mandate.Proofs.Verification.Rewriting
  ────────────────────────────────
  **WRITTEN GRANTS ARE JUDGED THE SAME.**

  A capability that is written and read again is not the same value: its times are in UTC,
  and a parent without a name is gone.  No check can tell.  Times count by their instants
  and are told in UTC anyway, and a parent without a name only stands in a capability
  without a chain, where no check looks at it.

  Main results:
    * `rezoned_inUtc`             — times in UTC are the same times by another clock;
    * `anchor_reread`             — the chain leads to the same root, or to the same denial;
    * `judge_reread`              — the root is judged the same;
    * `check_of_replaces`         — so a whole check gives the same verdict and events;
    * `rewriting_law`             — whatever is read and can be written is judged the same
                                    once it has been.
-/
import Mandate.Proofs.Capability.Chains
import Mandate.Proofs.Capability.RoundTrip
import Mandate.Proofs.Purpose.BuiltIn
import Mandate.Proofs.Resolver.Store
import Mandate.Proofs.Verification.Delegation
import Mandate.Proofs.Verification.Record
import Mandate.Proofs.Verification.Rezoned

namespace Mandate

open Json (Value)
open Time (Stamp)

/-! ## §1. Times. -/

/-- A caveat with its time in UTC is the same by another clock. -/
theorem Caveat.rezoned_inUtc (k : Caveat) : k.Rezoned k.inUtc := by
  cases k with
  | expiration t => exact .expiration t.instant_utc
  | _ => exact .same _

/-- A capability with its times in UTC.  Once it is written and read again, it may have lost its
parent and the form of its proofs besides. -/
def Capability.inUtc (c : Capability) : Capability :=
  { c with expires := c.expires.map (·.utc), caveats := c.caveats.map (·.inUtc) }

theorem Capability.rezoned_inUtc (c : Capability) : c.Rezoned c.inUtc where
  expires := by
    show (c.expires.map (·.utc)).map (·.instant) = c.expires.map (·.instant)
    rw [Option.map_map]
    exact congrArg (c.expires.map ·) (funext Stamp.instant_utc)
  caveats := by
    show List.Forall₂ Caveat.Rezoned c.caveats (c.caveats.map (·.inUtc))
    rw [List.forall₂_map_right_iff, List.forall₂_same]
    exact fun k _ => k.rezoned_inUtc
  rest := rfl

/-! ## §2. The parent. -/

namespace Capability

variable {known : Registry} {doc : Value} {c : Capability}

/-- What may stand in a chain does not stand for the empty name. -/
theorem not_standsFor_empty {v : Value}
    (h : Document.IsName v ∨ ∃ d, read known v = .ok d) : ¬ StandsFor v "" := by
  rcases h with ⟨s, rfl, hs⟩ | ⟨d, hd⟩
  · simp [StandsFor, hs]
  · rw [(ReadsAs.embedded hd).standsFor_iff]
    exact id_ne_of_read hd

/-- Where there is a chain, the parent has a name. -/
theorem parent_ne_of_read (h : read known doc = .ok c) (hchain : c.chain ≠ []) :
    c.parent ≠ some (.plain "") := by
  obtain ⟨-, hshape⟩ := read_eq_ok_iff.mp h
  obtain ⟨first, later, hsplit⟩ := List.exists_cons_of_ne_nil hchain
  obtain ⟨hfirst, hlater, hparent⟩ := (validateChain_cons_iff hsplit).mp hshape
  intro hempty
  have hlast : Document.IsName ((first :: later).getLast (by simp)) ∨
      ∃ d, read known ((first :: later).getLast (by simp)) = .ok d := by
    rcases List.mem_cons.mp (List.getLast_mem (List.cons_ne_nil first later)) with heq | hmem
    · rw [heq]
      exact hfirst
    · exact .inr (hlater _ hmem)
  exact not_standsFor_empty hlast (hparent "" hempty)

/-- So reading a capability again leaves its parent, unless there is no chain. -/
theorem parent_reread (h : read known doc = .ok c) (hchain : c.chain ≠ []) :
    c.reread.parent = c.parent := by
  have hne := parent_ne_of_read h hchain
  show c.parent.filter (!·.isEmpty) = c.parent
  cases hparent : c.parent with
  | none => rfl
  | some p =>
      have hp : p.isEmpty = false := by
        rw [Text.isEmpty_eq_false_iff]
        intro hempty
        subst hempty
        exact hne hparent
      simp [Option.filter, hp]

/-! ## §3. What can be written. -/

/-- What is read and can be written is read again. -/
theorem read_written {doc' : Value} (h : read .builtIn doc = .ok c) (hwrite : c.toJson = .ok doc') :
    read .builtIn doc' = .ok c.reread := by
  obtain ⟨_, hwrite', hread⟩ := read_toJson (wellFormed_of_read h) (datable_of_toJson hwrite)
  cases hwrite.symm.trans hwrite'
  exact hread

end Capability

/-! ## §4. The phases of a check. -/

namespace Verification

variable {known : Registry} {doc : Value} {c : Capability}

theorem anchor_reread (h : Capability.read .builtIn doc = .ok c) (action : Text)
    (inv : Invocation) : anchor known c.reread action inv = anchor known c action inv := by
  -- The parent is only looked at behind a chain that has entries.
  have hshape : ∀ es, c.entries known = .ok es →
      Capability.checkChain c.reread.parent es = Capability.checkChain c.parent es := by
    intro es hes
    by_cases hchain : c.chain = []
    · rw [Capability.entries, hchain, Capability.readEntries] at hes
      cases hes
      rfl
    · rw [Capability.parent_reread h hchain]
  have hname : ∀ es, rootName c.reread es = rootName c es := by
    intro es
    cases es with
    | nil => rfl
    | cons e es => cases e <;> rfl
  have hexcludes : c.reread.excludes action = c.excludes action := rfl
  have hallowed : c.reread.allowedAction = c.allowedAction := rfl
  have hentries : c.reread.entries known = c.entries known := rfl
  rw [anchor, anchor, hexcludes, hallowed, hentries]
  cases hes : c.entries known with
  | error f => rfl
  | ok es => simp only [hshape es hes, hname]

/-- A root is judged the same, and so is what stands under it, once it is read again. -/
theorem judge_reread (now : Stamp) (c : Capability) (action : Text) (inv : Invocation)
    {root root' : Capability} (hroot : root' = root ∨ root' = root.reread) :
    judge now c.reread action inv root' = judge now c action inv root := by
  rcases hroot with hsame | hreread
  · subst hsame
    have hutc : judge now c.inUtc action inv root' = judge now c action inv root' :=
      judge_rezoned rfl c.rezoned_inUtc (.refl root') action inv
    exact hutc
  · subst hreread
    have hutc : judge now c.inUtc action inv root.inUtc = judge now c action inv root :=
      judge_rezoned rfl c.rezoned_inUtc root.rezoned_inUtc action inv
    exact hutc

/-- Answers in which a root stands in the place of another. -/
def Swaps (r r' : Capability) (f : Except Failure Capability → Except Failure Capability) : Prop :=
  ∀ a, f a = a ∨ a = .ok r ∧ f a = .ok r'

theorem assess_reread {r : Capability} {f : Except Failure Capability → Except Failure Capability}
    (hf : Swaps r r.reread f) (now : Stamp) (c : Capability) (action : Text) (inv : Invocation)
    (uri : Text) (answer : Except Failure Capability) :
    assess now c.reread action inv uri (f answer) = assess now c action inv uri answer := by
  have hjudge : judgeAnswer now c.reread action inv uri (f answer)
      = judgeAnswer now c action inv uri answer := by
    cases answer with
    | error e =>
        rcases hf (.error e) with hsame | ⟨hroot, -⟩
        · rw [hsame]
          rfl
        · cases hroot
    | ok root =>
        rcases hf (.ok root) with hsame | ⟨hroot, hswapped⟩
        · rw [hsame]
          exact judge_reread now c action inv (.inl rfl)
        · cases hroot
          rw [hswapped]
          exact judge_reread now c action inv (.inr rfl)
  rw [assess, hjudge]
  rfl

end Verification

/-! ## §5. A whole check. -/

namespace Verifier

open Verification

variable {m : Type → Type} [Monad m]

/-- A verifier that differs from another in one root that its resolver answers with. -/
structure Replaces (r r' : Capability) (v v' : Verifier m) : Prop where
  known : v'.known = v.known
  purposes : v'.purposes = v.purposes
  now : v'.now = v.now
  note : v'.note = v.note
  resolve : ∀ uri, ∃ f, Swaps r r' f ∧ v'.resolve uri = f <$> v.resolve uri

variable [LawfulMonad m] {v v' : Verifier m} {proof : Proof} {inv : Invocation}
  {doc : Value} {c r : Capability}

theorem examine_of_replaces (hread : Capability.read .builtIn doc = .ok c)
    (hc : proof.capability = some c) (hdemands : ∀ p ∈ v.purposes, Purpose.BuiltIn p)
    (h : Replaces r r.reread v v') :
    v'.examine { proof with capability := some c.reread } inv = v.examine proof inv := by
  have hmeet : meet { proof with capability := some c.reread } inv v.purposes
      = meet proof inv v.purposes := Purpose.meet_congr hdemands ⟨rfl, rfl, rfl⟩
  simp only [examine, hc, h.known, h.purposes, h.now, anchor_reread hread, hmeet]
  -- Both checks ask for the same root, or for none.
  cases anchor v.known c proof.action inv with
  | error d => rfl
  | ok uri =>
      obtain ⟨f, hf, hresolve⟩ := h.resolve uri
      simp only [hresolve, bind_map_left, assess_reread hf]

/-- Of the capability, a verdict and its event only have the name. -/
theorem check_of_replaces (hread : Capability.read .builtIn doc = .ok c)
    (hc : proof.capability = some c) (hdemands : ∀ p ∈ v.purposes, Purpose.BuiltIn p)
    (h : Replaces r r.reread v v') :
    v'.check { proof with capability := some c.reread } inv = v.check proof inv := by
  have hname : capabilityName { proof with capability := some c.reread }
      = capabilityName proof := by
    unfold capabilityName
    rw [hc]
    rfl
  exact check_congr h.now h.note hname rfl (examine_of_replaces hread hc hdemands h)

/-- **WRITTEN GRANTS ARE JUDGED THE SAME.**  Whatever two documents denote, and whatever is
read once it has been written, a check under the two built-in kinds of demands does the
same with the one and the other, in any monad: it gives the same verdict, or the same
failure, and takes down the same events. -/
theorem rewriting_law {leaf root leaf' root' : Value}
    (hc : Capability.read .builtIn leaf = .ok c) (hr : Capability.read .builtIn root = .ok r)
    (hcwrite : c.toJson = .ok leaf') (hrwrite : r.toJson = .ok root') :
    ∃ c' r', Capability.read .builtIn leaf' = .ok c' ∧ Capability.read .builtIn root' = .ok r' ∧
      ∀ (m : Type → Type) [Monad m] [LawfulMonad m] (v v' : Verifier m) (proof : Proof)
        (inv : Invocation), proof.capability = some c → (∀ p ∈ v.purposes, Purpose.BuiltIn p) →
        Replaces r r' v v' →
        v'.check { proof with capability := some c' } inv = v.check proof inv := by
  refine ⟨c.reread, r.reread, Capability.read_written hc hcwrite,
    Capability.read_written hr hrwrite, ?_⟩
  intro m _ _ v v' proof inv hproof hdemands hreplaces
  exact check_of_replaces hc hproof hdemands hreplaces

/-- In a store, a root is replaced by taking up another one of its name. -/
theorem replaces_add (s : Store) (known : Registry) (purposes : List (Mandate.Purpose Id))
    (now : Stamp) {r r' : Capability} (hid : r'.id = r.id) :
    Replaces r r' (overStore (s.add r) known purposes now)
      (overStore (s.add r') known purposes now) := by
  refine ⟨rfl, rfl, rfl, rfl, fun uri => ?_⟩
  show ∃ f, Swaps r r' f ∧ (s.add r').resolve uri = f ((s.add r).resolve uri)
  by_cases huri : uri = r.id
  · have hold : (s.add r).resolve uri = .ok r := by
      rw [Store.resolve_eq_ok_iff, Store.add, Table.lookup_put, if_pos huri]
    have hnew : (s.add r').resolve uri = .ok r' := by
      rw [Store.resolve_eq_ok_iff, Store.add, Table.lookup_put, if_pos (huri.trans hid.symm)]
    classical
    refine ⟨fun a => if a = .ok r then .ok r' else a, fun a => ?_, ?_⟩
    · by_cases ha : a = .ok r
      · exact .inr ⟨ha, if_pos ha⟩
      · exact .inl (if_neg ha)
    · rw [hnew, hold]
      exact (if_pos rfl).symm
  · refine ⟨id, fun a => .inl rfl, ?_⟩
    rw [Store.resolve, Store.add, Table.lookup_put, if_neg (hid ▸ huri), id, Store.resolve,
      Store.add, Table.lookup_put, if_neg huri]

/-- A delegation that ends with the year 2026 of a place two hours ahead of UTC. -/
def yearDelegationDocument : Value :=
  .object [("id", .text "urn:zcap:leaf"), ("invoker", .text "did:example:carol"),
    ("expires", .text "2027-01-01T00:00:00+02:00"), ("proof", delegationProof "urn:zcap:root")]

/-- The same delegation as a capability. -/
def yearDelegation : Capability :=
  { delegated "urn:zcap:leaf" "did:example:carol" "urn:zcap:root" with
    expires := Capability.yearGrant.expires }

/-- Under a root that ends at the same time, the delegation is judged the same at every time
and in every invocation, with the root and itself as they were or with both of them written
and read again. -/
theorem year_delegation_judged_same :
    Capability.read .builtIn yearDelegationDocument = .ok yearDelegation ∧
    Capability.read .builtIn Capability.yearDocument = .ok Capability.yearGrant ∧
    ∃ leaf' root' c' r', yearDelegation.toJson = .ok leaf' ∧
      Capability.yearGrant.toJson = .ok root' ∧ Capability.read .builtIn leaf' = .ok c' ∧
      Capability.read .builtIn root' = .ok r' ∧ ∀ (w : Purpose.Window) (now : Stamp) inv,
        (overStore (Store.ofList [r']) .builtIn [w.purpose] now).check (submitted c') inv =
          (overStore (Store.ofList [Capability.yearGrant]) .builtIn [w.purpose] now).check
            (submitted yearDelegation) inv := by
  have hleaf : Capability.read .builtIn yearDelegationDocument = .ok yearDelegation := by
    have hshape : yearDelegation.validateChain .builtIn = .ok () :=
      (Capability.validateChain_cons_iff rfl).mpr ⟨.inl ⟨_, rfl, by decide⟩, nofun, nofun⟩
    exact Capability.read_eq_ok_iff.mpr ⟨rfl, hshape⟩
  have hroot : Capability.read .builtIn Capability.yearDocument = .ok Capability.yearGrant :=
    Capability.read_eq_ok_iff.mpr ⟨rfl, Capability.validateChain_of_root rfl⟩
  have hleafTimes : yearDelegation.Datable := by
    refine ⟨fun t ht => ?_, nofun⟩
    cases ht
    decide
  have hrootTimes : Capability.yearGrant.Datable := by
    refine ⟨fun t ht => ?_, nofun⟩
    cases ht
    decide
  obtain ⟨leaf', hleafWritten, -⟩ :=
    Capability.read_toJson (Capability.wellFormed_of_read hleaf) hleafTimes
  obtain ⟨root', hrootWritten, hrootRead⟩ :=
    Capability.read_toJson (Capability.wellFormed_of_read hroot) hrootTimes
  obtain ⟨c', r', hc', hr', hsame⟩ := rewriting_law hleaf hroot hleafWritten hrootWritten
  refine ⟨hleaf, hroot, leaf', root', c', r', hleafWritten, hrootWritten, hc', hr', ?_⟩
  intro w now inv
  have hid : r'.id = Capability.yearGrant.id := by
    cases hrootRead.symm.trans hr'
    rfl
  have hdemands : ∀ p ∈ [w.purpose (m := Id)], Purpose.BuiltIn p := by
    intro p hp
    rw [List.mem_singleton.mp hp]
    exact .created w
  exact hsame Id _ _ (submitted yearDelegation) inv rfl hdemands
    (replaces_add [] .builtIn _ now hid)

end Verifier

end Mandate
