/-
  Mandate.Proofs.Verification.Attenuation
  ────────────────────────────────
  **RESTRICTIONS ONLY ATTENUATE.**

  Whatever a grant or an invocation states besides names, chains and targets takes
  authority away: a caveat, an end of validity, a list of permitted actions, an expected
  target, a demand on the proof.  So an accepted invocation stays accepted when any of
  these are dropped or made wider, and when the clock is set back.

      Relaxes  — a grant that differs from another by weaker restrictions only
      Admits   — besides, further names behind those of the invokers
      Eases    — a check with an earlier clock, fewer demands and relaxed roots

  Main results:
    * `Relaxes.unrestricted`  — what restricts the weaker grant restricts the other one;
    * `Admits.empowers`       — whoever may invoke the one may invoke the other;
    * `attenuation_law`       — an accepted invocation stays accepted.
-/
import Mandate.Proofs.Purpose.BuiltIn
import Mandate.Proofs.Verification.Delegation
import Mandate.Proofs.Verification.Verdicts

namespace Mandate

open Time (Stamp)

/-! ## §1. Occasions. -/

/-- A caveat that holds at a time holds at any earlier one. -/
theorem Caveat.Holds.earlier {k : Caveat} {now now' : Stamp} {action target : Text}
    (h : k.Holds { now, action, target }) (hnow : now'.instant ≤ now.instant) :
    k.Holds { now := now', action, target } := by
  cases k with
  | expiration expires =>
      have hahead : now.instant < expires.instant := h
      show now'.instant < expires.instant
      omega
  | _ => exact h

/-! ## §2. Weaker grants. -/

namespace Capability

/-- A grant that differs from another by weaker restrictions only: caveats are dropped, the
end of validity is dropped or put off, and a list of permitted actions is dropped or
made longer. -/
structure Relaxes (weak c : Capability) : Prop where
  id : weak.id = c.id
  target : weak.target = c.target
  chain : weak.chain = c.chain
  parent : weak.parent = c.parent
  caveats : weak.caveats ⊆ c.caveats
  expires : ∀ t', weak.expires = some t' → ∃ t, c.expires = some t ∧ t.instant ≤ t'.instant
  allowedAction : weak.allowedAction = [] ∨
    c.allowedAction ≠ [] ∧ c.allowedAction ⊆ weak.allowedAction

/-- Besides, there may be further names behind those that may invoke the grant. -/
structure Admits (weak c : Capability) : Prop extends Relaxes weak c where
  invokers : ∃ more : List Text, ("" : Text) ∉ more ∧
    weak.invokerEntries = c.invokerEntries ++ more.map .text

variable {weak c : Capability}

theorem Relaxes.permits (h : weak.Relaxes c) {action : Text} (hc : c.Permits action) :
    weak.Permits action := by
  rcases h.allowedAction with hnone | ⟨hsome, hmore⟩
  · exact .inl hnone
  · -- An empty list would permit everything, so it matters that this one has entries.
    rcases hc with hnil | hempty | hmem
    · exact absurd hnil hsome
    · exact .inr (.inl hempty)
    · exact .inr (.inr (hmore hmem))

theorem Relaxes.unrestricted (h : weak.Relaxes c) {now now' : Stamp} {action target : Text}
    (hnow : now'.instant ≤ now.instant)
    (hc : Verification.Unrestricted { now, action, target } c) :
    Verification.Unrestricted { now := now', action, target } weak := by
  refine ⟨fun k hk => ?_, fun t' ht' => ?_⟩
  · exact (hc.caveats k (h.caveats hk)).earlier hnow
  · obtain ⟨t, ht, hle⟩ := h.expires t' ht'
    have hahead : now.instant < t.instant := hc.current t ht
    show now'.instant < t'.instant
    omega

theorem Relaxes.rootedAt (h : weak.Relaxes c) {uri : Text}
    (hc : Verification.RootedAt c uri) : Verification.RootedAt weak uri := by
  rw [Verification.RootedAt, h.chain, h.parent, h.id]
  exact hc

theorem Relaxes.isExpected (h : weak.Relaxes c) {inv inv' : Invocation}
    (hroot : inv'.root = inv.root) (hc : Verification.IsExpected inv c) :
    Verification.IsExpected inv' weak := by
  rw [Verification.IsExpected, hroot, h.id, h.target]
  exact hc

theorem Admits.empowers (h : weak.Admits c) {m : Method} (hc : c.Empowers m) :
    weak.Empowers m := by
  obtain ⟨names, hnames, hproper, hm⟩ := hc
  obtain ⟨more, hmore, hentries⟩ := h.invokers
  refine ⟨names ++ more, ?_, ?_, ?_⟩
  · rw [hentries, hnames, List.map_append]
  · rw [List.mem_append]
    exact not_or.mpr ⟨hproper, hmore⟩
  · exact hm.imp (List.mem_append_left more) (And.imp_right (List.mem_append_left more))

end Capability

/-! ## §3. Weaker checks. -/

namespace Verification

/-- A check of weaker grants: the clock is earlier, demands are dropped, and every root that
is found is found again, with weaker restrictions at most. -/
structure Eases (weak v : Verifier Id) : Prop where
  now : weak.now.instant ≤ v.now.instant
  purposes : weak.purposes ⊆ v.purposes
  roots : ∀ uri root, v.resolve uri = .ok root →
    ∃ root', weak.resolve uri = .ok root' ∧ root'.Relaxes root

/-- What an invocation expects, with or without its target. -/
def Forgets (inv inv' : Invocation) : Prop := inv' = inv ∨ inv' = { inv with target := "" }

/-- **RESTRICTIONS ONLY ATTENUATE.**  An invocation that is accepted under the two built-in
kinds of demands is also accepted with any of its restrictions weakened, together or
alone: with an earlier clock, with fewer demands, without the expected target, with
weaker restrictions of the root and of the capability, and with more invokers.  So no
restriction that is added ever turns a denial into an acceptance. -/
theorem attenuation_law {v weak : Verifier Id} {proof : Proof} {inv inv' : Invocation}
    {c c' : Capability} (hc : proof.capability = some c)
    (hdemands : ∀ p ∈ v.purposes, Purpose.BuiltIn p) (hcheck : Eases weak v)
    (hgrant : c'.Admits c) (hinv : Forgets inv inv') (h : v.Accepts proof inv) :
    weak.Accepts { proof with capability := some c' } inv' := by
  obtain ⟨uri, root, hauth⟩ := exists_authorized_of_capability h hc
  obtain ⟨root', hresolved, hroot⟩ := hcheck.roots uri root hauth.resolved
  -- Forgetting the target leaves everything else that is expected.
  have hkept : inv'.action = inv.action ∧ inv'.method = inv.method ∧ inv'.root = inv.root ∧
      (inv'.target = "" ∨ inv'.target = root'.target.id) := by
    rcases hinv with rfl | rfl
    · exact ⟨rfl, rfl, rfl, by rw [hroot.target]; exact hauth.target⟩
    · exact ⟨rfl, rfl, rfl, .inl rfl⟩
  obtain ⟨haction, hmethod, hexpects, htarget⟩ := hkept
  -- Either way restrictions are held against the target of the root.
  have hnow := hcheck.now
  have hbefore : ∀ d, Unrestricted (occasion v.now proof.action inv root) d →
      Unrestricted { now := v.now, action := proof.action, target := root'.target.id } d := by
    intro d hd
    rwa [hroot.target, ← occasion_eq hauth.target]
  have hafter : occasion weak.now proof.action inv' root' =
      { now := weak.now, action := proof.action, target := root'.target.id } :=
    occasion_eq htarget
  refine accepts_of_authorized rfl ⟨⟨hgrant.permits hauth.permits, haction.trans hauth.action,
    hgrant.rootedAt hauth.rooted, hresolved, hroot.permits hauth.rootPermits, htarget, ?_⟩,
    hroot.isExpected hexpects hauth.expected, ?_, ?_, ?_⟩
  · rw [hafter]
    exact hroot.unrestricted hnow (hbefore root hauth.rootUnrestricted)
  · rw [hafter, hgrant.chain]
    exact hauth.unrestricted.imp_right fun hown => hgrant.unrestricted hnow (hbefore c hown)
  · rw [hmethod]
    exact hgrant.empowers hauth.signer
  · intro p hp
    have hmet := hauth.purposes p (hcheck.purposes hp)
    have hagree : Purpose.Agree proof { proof with capability := some c' } inv inv' :=
      ⟨rfl, rfl, hmethod⟩
    rw [(hdemands p (hcheck.purposes hp)).congr hagree]
    exact hmet

/-- The start of the last day of 2026, in UTC. -/
def lastDay : Stamp := ⟨⟨739980 * Time.day, by decide⟩, .utc⟩

/-- A root that is for reading itself until the last day of the year. -/
def yearRoot : Capability :=
  { rootHeldBy "did:example:alice" with
    allowedAction := [.text "read"], caveats := [.invocationTarget "urn:zcap:root"],
    expires := some lastDay }

/-- A delegation for reading that root until the last day of the year. -/
def yearLeaf : Capability :=
  { delegated "urn:zcap:leaf" "did:example:carol" "urn:zcap:root" with
    allowedAction := [.text "read"], expires := some lastDay,
    caveats := [.expiration lastDay, .invocationTarget "urn:zcap:root"] }

/-- The same delegation, for two actions and a second invoker, with one caveat left. -/
def looseLeaf : Capability :=
  { delegated "urn:zcap:leaf" "did:example:carol" "urn:zcap:root" with
    invoker := [.text "did:example:carol", .text "did:example:dave"],
    allowedAction := [.text "read", .text "write"],
    caveats := [.invocationTarget "urn:zcap:root"] }

/-- A check at noon that asks for a proof of the same minute. -/
def noonCheck : Verifier Id :=
  overStore (Store.ofList [yearRoot]) .builtIn
    [(⟨juneNoon, ⟨60 * Time.second⟩⟩ : Purpose.Window).purpose] juneNoon

/-- A submission of the delegation at noon. -/
def noonProof : Proof := { submitted yearLeaf with created := some ⟨juneNoon.civil, none⟩ }

/-- The delegation is used at noon.  The use stays accepted with the clock set back, without
a demand on the proof and an expected target, and with the root and the delegation
loosened. -/
theorem noon_use_attenuates :
    noonProof.capability = some yearLeaf ∧
    (∀ p ∈ noonCheck.purposes, Purpose.BuiltIn p) ∧
    Eases (knowing (rootHeldBy "did:example:alice")) noonCheck ∧
    looseLeaf.Admits yearLeaf ∧
    Forgets (readBy "did:example:carol" "urn:zcap:root" "urn:zcap:root")
      (readBy "did:example:carol" "" "urn:zcap:root") ∧
    noonCheck.Accepts noonProof (readBy "did:example:carol" "urn:zcap:root" "urn:zcap:root") ∧
    (knowing (rootHeldBy "did:example:alice")).Accepts
      { noonProof with capability := some looseLeaf }
      (readBy "did:example:carol" "" "urn:zcap:root") := by
  have hdemands : ∀ p ∈ noonCheck.purposes, Purpose.BuiltIn p := by
    intro p hp
    rw [List.mem_singleton.mp hp]
    exact .created _
  have hroot : (rootHeldBy "did:example:alice").Relaxes yearRoot :=
    ⟨rfl, rfl, rfl, rfl, List.nil_subset _, nofun, .inl rfl⟩
  have hcheck : Eases (knowing (rootHeldBy "did:example:alice")) noonCheck := by
    refine ⟨by decide, List.nil_subset _, fun uri root hresolved => ?_⟩
    have hkeeps : (Store.ofList [yearRoot]).Keeps (· = yearRoot) :=
      Store.keeps_ofList fun c hc => List.mem_singleton.mp hc
    obtain ⟨rfl, rfl⟩ := hkeeps uri root hresolved
    exact ⟨rootHeldBy "did:example:alice", rfl, hroot⟩
  have hgrant : looseLeaf.Admits yearLeaf := by
    refine ⟨⟨rfl, rfl, rfl, rfl, List.subset_cons_self _ _, nofun, .inr ⟨by simp [yearLeaf], ?_⟩⟩,
      ["did:example:dave"], by decide, rfl⟩
    exact List.cons_subset_cons _ (List.nil_subset _)
  have haccepts : noonCheck.Accepts noonProof
      (readBy "did:example:carol" "urn:zcap:root" "urn:zcap:root") := by
    have hauth : Authorized noonCheck noonProof
        (readBy "did:example:carol" "urn:zcap:root" "urn:zcap:root") yearLeaf "urn:zcap:root"
        yearRoot := by
      refine ⟨⟨by decide, rfl, by decide, rfl, by decide, .inr rfl, by decide⟩, by decide,
        .inr (by decide), by decide, fun p hp => ?_⟩
      rw [List.mem_singleton.mp hp]
      rfl
    exact accepts_of_authorized rfl hauth
  exact ⟨rfl, hdemands, hcheck, hgrant, .inr rfl, haccepts,
    attenuation_law rfl hdemands hcheck hgrant (.inr rfl) haccepts⟩

end Verification

end Mandate
