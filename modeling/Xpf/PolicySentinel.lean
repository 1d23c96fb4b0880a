/-
Fragments whose protocol is not known.

The shim reports protocol 255 for them, and a reader has to take it for any real protocol.
Two walks are compared again (`permits_of_covers`): a deny that takes some real packet ends
the walk of the fragment, whatever protocol its terms name. A permit ends it in two ways. An
`application any` takes every packet. A term that names protocol 255 takes the fragment and
no real packet: the configuration accepts it, and there the fragment passes on its own
(`sentinel_term_passes_fragment`).
-/
import Xpf.PolicyFragments

set_option autoImplicit false

namespace Xpf.Policies

open Xpf.Tables
open Xpf.Filters (shimProtoFragmentNoL4 protoTcp)

/-- The fragment of a packet of which only the addresses are known. -/
def PolicyQuery.unknownFragment (q : PolicyQuery) : PolicyQuery :=
  { q with protocol := shimProtoFragmentNoL4, packetIcmp := none, l4Present := false }

/-- Where the fragment is permitted, every real packet with its addresses is. -/
def FailsClosed (st : PolicyState) (q : PolicyQuery) : Prop :=
  (evaluatePolicyResultCounted st q.unknownFragment).action = .permit →
    ∀ protocol : UInt8, protocol ≠ shimProtoFragmentNoL4 → ∀ (srcPort dstPort : UInt16)
      (packetIcmp : Option (UInt8 × UInt8)),
      (evaluatePolicyResultCounted st (q.whole protocol srcPort dstPort packetIcmp)).action = .permit

/-- The rules a transit packet tries. -/
def transitRules (st : PolicyState) (q : PolicyQuery) : List (ℕ × PolicyRule) :=
  rulesAt st (visitOrder st q)

/-- The first rule that ends the walk of the fragment is a permit with application terms: one
of them names protocol 255. -/
def endsAtSentinelTerm (st : PolicyState) (q : PolicyQuery) : Bool :=
  ((transitRules st q).find? (decisive st q.unknownFragment (st.schedulerRulesExpiredAt q.nowNs))).any
    fun ir => ir.2.action = .permit && !ir.2.compiledApps.matchAny

/-- The first rule that takes the packet permits it, or none does and the default permits. -/
def firstTakenPermits (st : PolicyState) (q : PolicyQuery) : Bool :=
  ((transitRules st q).find? (takes st q (st.schedulerRulesExpiredAt q.nowNs))).elim
    (decide (st.defaultAction = .permit)) fun ir => decide (ir.2.action = .permit)

section

variable {st : PolicyState} {q : PolicyQuery} {protocol : UInt8} {srcPort dstPort : UInt16}
  {packetIcmp : Option (UInt8 × UInt8)} {rule : PolicyRule}

/-- A rule that takes a packet takes the fragment, or it is remembered for it. -/
theorem appMatch_unknownFragment
    (h : (appMatch (q.whole protocol srcPort dstPort packetIcmp) rule).isSome = true) :
    (appMatch q.unknownFragment rule).isSome = true
      ∨ rule.l4Skipped shimProtoFragmentNoL4 none = true := by
  cases hany : rule.compiledApps.matchAny with
  | true => exact .inl (appMatch_of_matchAny hany _)
  | false =>
    obtain ⟨terms, hterms, hbest⟩ := (CompiledApplications.matches_isSome hany).mp h
    change rule.compiledApps.byProtocol.lookup protocol = some terms at hterms
    refine .inr ?_
    -- a term for the protocol alone counts under the sentinel as well
    have honly : (∃ t ∈ terms.rangeTerms, t.protocolOnly = true) →
        rule.l4Skipped shimProtoFragmentNoL4 none = true := by
      rintro ⟨t, ht, honly⟩
      have hterm : rule.compiledApps.hasAnyProtocolTerm = true := by
        rw [CompiledApplications.hasAnyProtocolTerm, hany]
        have hany' : terms.rangeTerms.any RangeTerm.protocolOnly = true :=
          List.any_eq_true.mpr ⟨t, ht, honly⟩
        exact anyValue_of_lookup (p := fun terms => terms.rangeTerms.any RangeTerm.protocolOnly) hterms hany'
      rw [PolicyRule.l4Skipped, hterm]
      simp
    have hcases : (∃ t ∈ terms.rangeTerms, t.protocolOnly = true)
        ∨ (terms.best 0 0 none false).isSome = true ∨ terms.hasL4Constraints none = true :=
      ProtoTerms.best_whole (.inl rfl) hbest
    rcases hcases with hrange | hflowless | hskip
    · exact honly hrange
    · rcases ProtoTerms.best_isSome.mp hflowless with ⟨hl4, -⟩ | ⟨t, ht, hmatch⟩ | ⟨packet, hpacket, -⟩
      · cases hl4
      · rw [RangeTerm.matches_flowless] at hmatch
        exact honly ⟨t, ht, hmatch⟩
      · cases hpacket
    · have hterm : rule.compiledApps.hasL4ConstrainedTerm shimProtoFragmentNoL4 none = true := by
        rw [CompiledApplications.hasL4ConstrainedTerm, if_neg (by rw [hany]; exact Bool.false_ne_true),
          if_pos rfl]
        exact anyValue_of_lookup hterms hskip
      rw [PolicyRule.l4Skipped, hterm]
      rfl

theorem permits_of_no_sentinelTerm (hends : endsAtSentinelTerm st q = false)
    (h : (transitWalk st q.unknownFragment).permits (st.defaultAction = .permit) = true) :
    (transitWalk st (q.whole protocol srcPort dstPort packetIcmp)).permits (st.defaultAction = .permit)
      = true := by
  refine permits_of_covers rfl rfl (transitRules st q) ?_ ?_ h
  · intro ir _ haction htakes
    rw [takes, Bool.and_eq_true] at htakes
    have hlive : live st q.unknownFragment (st.schedulerRulesExpiredAt q.nowNs) ir.2 = true := htakes.1
    change decisive st q.unknownFragment (st.schedulerRulesExpiredAt q.nowNs) ir = true
    rw [decisive, hlive, Bool.true_and, Bool.or_eq_true]
    refine (appMatch_unknownFragment htakes.2).imp id fun hskip => ?_
    rw [Bool.and_eq_true, decide_eq_true_eq]
    exact ⟨haction, hskip⟩
  · intro ir hir haction
    have hlive : live st (q.whole protocol srcPort dstPort packetIcmp)
        (st.schedulerRulesExpiredAt q.nowNs) ir.2 = true :=
      (Bool.and_eq_true _ _ ▸ List.find?_some hir).1
    -- the permit is not one of protocol 255, so it has no terms
    have hany : ir.2.compiledApps.matchAny = true := by
      have hir' : (transitRules st q).find? (decisive st q.unknownFragment
        (st.schedulerRulesExpiredAt q.nowNs)) = some ir := hir
      rw [endsAtSentinelTerm, hir', Option.any_some, haction] at hends
      simpa using hends
    change takes st (q.whole protocol srcPort dstPort packetIcmp)
      (st.schedulerRulesExpiredAt q.nowNs) ir = true
    rw [takes, hlive, Bool.true_and]
    exact appMatch_of_matchAny hany _

theorem transitWalk_whole_permits :
    (transitWalk st (q.whole protocol srcPort dstPort packetIcmp)).permits (st.defaultAction = .permit)
      = firstTakenPermits st (q.whole protocol srcPort dstPort packetIcmp) := by
  rw [transitWalk, permits_whole rfl]
  rfl

theorem transitWalk_fragment_permits (hends : endsAtSentinelTerm st q = true) :
    (transitWalk st q.unknownFragment).permits (st.defaultAction = .permit) = true := by
  rw [endsAtSentinelTerm, Option.any_eq_true] at hends
  obtain ⟨ir, hir, hpermit⟩ := hends
  have hir' : (rulesAt st (visitOrder st q.unknownFragment)).find?
      (decisive st q.unknownFragment (st.schedulerRulesExpiredAt q.unknownFragment.nowNs)) = some ir := hir
  rw [transitWalk, permits_fragment rfl, hir']
  exact (Bool.and_eq_true _ _ ▸ hpermit).1

end

/-- **The sentinel fails closed**, exactly when the fragment is not permitted through a term
that names protocol 255, or the rules permit every real packet with its addresses. -/
theorem failsClosed_iff (st : PolicyState) (q : PolicyQuery) :
    FailsClosed st q
      ↔ (admitted st q = true → endsAtSentinelTerm st q = true →
          ∀ protocol : UInt8, protocol ≠ shimProtoFragmentNoL4 → ∀ (srcPort dstPort : UInt16)
            (packetIcmp : Option (UInt8 × UInt8)),
            firstTakenPermits st (q.whole protocol srcPort dstPort packetIcmp) = true) := by
  rw [FailsClosed]
  simp only [evaluate_permit_iff, transitWalk_whole_permits]
  constructor
  · intro h hadmitted hends protocol hprotocol srcPort dstPort packetIcmp
    exact (h ⟨hadmitted, transitWalk_fragment_permits hends⟩ protocol hprotocol srcPort dstPort packetIcmp).2
  · rintro h ⟨hadmitted, hwalk⟩ protocol hprotocol srcPort dstPort packetIcmp
    refine ⟨hadmitted, ?_⟩
    cases hends : endsAtSentinelTerm st q
    · rw [← transitWalk_whole_permits]
      exact permits_of_no_sentinelTerm hends hwalk
    · exact h hadmitted hends protocol hprotocol srcPort dstPort packetIcmp

/-- A permit for an application of protocol 255. -/
def sentinelPermitted : Except SnapshotIntegrityError PolicyState :=
  parsePolicyState noAddresses "deny"
    [zoneRule "reserved" "trust" "untrust" "permit" [⟨"reserved", "255", "", "", none, none, none⟩]]
    twoZones [] []

/-- **The fragment passes on its own.** The rule permits it, and TCP to port 80 is denied. -/
theorem sentinel_term_passes_fragment :
    ∃ st, sentinelPermitted = .ok st ∧ ¬ FailsClosed st (packetOf shimProtoFragmentNoL4) := by
  have hverdicts : ∀ st ∈ sentinelPermitted.toOption,
      (evaluatePolicyResultCounted st (packetOf shimProtoFragmentNoL4).unknownFragment).action = .permit
      ∧ (evaluatePolicyResultCounted st ((packetOf shimProtoFragmentNoL4).whole protoTcp 1024 80 none)).action
        = .deny := by decide +kernel
  obtain ⟨st, hst, hpermit, hdeny⟩ := exists_ok (by decide +kernel) hverdicts
  refine ⟨st, hst, fun hclosed => ?_⟩
  have hwhole := hclosed hpermit protoTcp (by decide) 1024 80 none
  rw [hdeny] at hwhole
  cases hwhole

end Xpf.Policies
