/-
Fragments without a transport header against the packet they belong to.

A later fragment is judged by its addresses and its protocol alone. Where that permits it,
the whole packet has to be permitted too, whatever its ports and its ICMP type are. One
rule is enough to see why: a permit that takes the fragment takes the packet, and a deny
that takes the packet takes the fragment or is remembered. Along the rules it is an
induction in which the two walks run side by side until one of them ends
(`permits_of_covers`).

The sentinel protocol 255 stands for a fragment whose protocol is not known. The same two
conditions hold for it, but for a permit that names protocol 255 itself.
-/
import Xpf.PolicyParse

set_option autoImplicit false

namespace Xpf.Policies

open Xpf.Tables
open Xpf.Filters (shimProtoFragmentNoL4 protoUdp)

/-! ## Application terms -/

theorem keepFirst_isSome (best hit : Option (ℕ × Option UInt32)) :
    (keepFirst best hit).isSome = (best.isSome || hit.isSome) := by
  cases hit with
  | none => simp [keepFirst]
  | some c =>
    cases best with
    | none => rfl
    | some b =>
      rw [keepFirst]
      split_ifs <;> rfl

theorem ProtoTerms.best_isSome {terms : ProtoTerms} {srcPort dstPort : UInt16}
    {packetIcmp : Option (UInt8 × UInt8)} {l4Present : Bool} :
    (terms.best srcPort dstPort packetIcmp l4Present).isSome = true
      ↔ (l4Present = true ∧ (terms.exactDstPorts.lookup dstPort).isSome = true)
        ∨ (∃ t ∈ terms.rangeTerms, t.matches srcPort dstPort l4Present = true)
        ∨ ∃ packet ∈ packetIcmp, ∃ t ∈ terms.icmpConstraints, t.matches packet = true := by
  rw [best, keepFirst_isSome, keepFirst_isSome, Option.isSome_map, Option.isSome_map, Bool.or_eq_true,
    Bool.or_eq_true, List.find?_isSome, or_assoc]
  refine or_congr ?_ (or_congr Iff.rfl ?_)
  · cases l4Present <;> simp
  · cases packetIcmp with
    | none => simp
    | some packet => simp [List.find?_isSome]

theorem RangeTerm.matches_of_protocolOnly {t : RangeTerm} (h : t.protocolOnly = true)
    (srcPort dstPort : UInt16) (l4Present : Bool) : t.matches srcPort dstPort l4Present = true := by
  rw [RangeTerm.matches, if_pos h]

theorem RangeTerm.matches_flowless {t : RangeTerm} {srcPort dstPort : UInt16} :
    t.matches srcPort dstPort false = t.protocolOnly := by
  rw [RangeTerm.matches]
  split_ifs with h
  · exact h.symm
  · rw [Bool.eq_false_iff.mpr h]
    rfl

section Terms

variable {srcPort dstPort srcPort' dstPort' : UInt16} {known full : Option (UInt8 × UInt8)}

/-- A term that takes a packet without its transport header takes it with any. -/
theorem ProtoTerms.best_flowless {terms : ProtoTerms} (hicmp : known = none ∨ full = known)
    (h : (terms.best srcPort dstPort known false).isSome = true) :
    (terms.best srcPort' dstPort' full true).isSome = true := by
  rcases best_isSome.mp h with ⟨hl4, -⟩ | ⟨t, ht, hmatch⟩ | ⟨packet, hpacket, hterm⟩
  · cases hl4
  · rw [RangeTerm.matches_flowless] at hmatch
    exact best_isSome.mpr (.inr (.inl ⟨t, ht, t.matches_of_protocolOnly hmatch _ _ _⟩))
  · rcases hicmp with rfl | rfl
    · cases hpacket
    · exact best_isSome.mpr (.inr (.inr ⟨packet, hpacket, hterm⟩))

/-- A term that takes the whole packet takes it without its transport header, or it is one
that the header decides. -/
theorem ProtoTerms.best_whole {terms : ProtoTerms} (hicmp : known = none ∨ full = known)
    (h : (terms.best srcPort' dstPort' full true).isSome = true) :
    (∃ t ∈ terms.rangeTerms, t.protocolOnly = true)
      ∨ (terms.best srcPort dstPort known false).isSome = true
      ∨ terms.hasL4Constraints known = true := by
  rcases best_isSome.mp h with ⟨-, hexact⟩ | ⟨t, ht, -⟩ | ⟨packet, hpacket, t, ht, hmatch⟩
  · refine .inr (.inr ?_)
    have hnonempty : isEmpty terms.exactDstPorts = false := by
      rw [Bool.eq_false_iff]
      intro hempty
      rw [lookup_isEmpty hempty] at hexact
      cases hexact
    rw [hasL4Constraints, hnonempty]
    rfl
  · cases honly : t.protocolOnly
    · refine .inr (.inr ?_)
      have hany : terms.rangeTerms.any (fun t => !t.protocolOnly) = true :=
        List.any_eq_true.mpr ⟨t, ht, by rw [honly]; rfl⟩
      rw [hasL4Constraints, hany, Bool.or_true]
      rfl
    · exact .inl ⟨t, ht, honly⟩
  · rcases hicmp with rfl | rfl
    · refine .inr (.inr ?_)
      have hnonempty : terms.icmpConstraints.isEmpty = false := by
        rw [List.isEmpty_eq_false_iff]
        exact List.ne_nil_of_mem ht
      rw [hasL4Constraints, hnonempty]
      simp
    · exact .inr (.inl (best_isSome.mpr (.inr (.inr ⟨packet, hpacket, t, ht, hmatch⟩))))

theorem CompiledApplications.matches_isSome {apps : CompiledApplications} {protocol : UInt8}
    {l4Present : Bool} (hany : apps.matchAny = false) :
    (apps.matches protocol srcPort dstPort known l4Present).isSome = true
      ↔ ∃ terms, apps.byProtocol.lookup protocol = some terms
          ∧ (terms.best srcPort dstPort known l4Present).isSome = true := by
  rw [CompiledApplications.matches, if_neg (by rw [hany]; exact Bool.false_ne_true)]
  cases apps.byProtocol.lookup protocol with
  | none => simp
  | some terms =>
    cases hbest : terms.best srcPort dstPort known l4Present <;> simp [hbest]

end Terms

/-! ## The walk -/

/-- A walk that comes to a permit; `fallthrough` says what the end of the rules means. -/
def Walk.permits (fallthrough : Bool) : Walk → Bool
  | .error result => result.action = .permit
  | .ok none => fallthrough
  | .ok (some _) => false

section Walks

variable {st : PolicyState} {q frag whole : PolicyQuery} {expired fallthrough : Bool}

/-- The rule ends the walk of a fragment as far as a permit goes: its terms match, or it is a
deny that is remembered. -/
def decisive (st : PolicyState) (frag : PolicyQuery) (expired : Bool) (ir : ℕ × PolicyRule) : Bool :=
  live st frag expired ir.2 && ((appMatch frag ir.2).isSome
    || ir.2.action ≠ .permit && ir.2.l4Skipped frag.protocol frag.packetIcmp)

/-- The rule takes a packet that has its transport header. -/
def takes (st : PolicyState) (q : PolicyQuery) (expired : Bool) (ir : ℕ × PolicyRule) : Bool :=
  live st q expired ir.2 && (appMatch q ir.2).isSome

/-- A walk that remembers a deny does not permit. -/
theorem walkRules_skipped {deny : SkippedFragDeny} (hdeny : deny.action ≠ .permit) :
    ∀ l : List (ℕ × PolicyRule), (walkRules st q expired (some deny) l).permits fallthrough = false
  | [] => rfl
  | (idx, rule) :: rest => by
    rw [walkRules]
    cases live st q expired rule
    · exact walkRules_skipped hdeny rest
    · rw [if_pos rfl]
      cases appMatch q rule with
      | some timeout =>
        simp only [Walk.permits, applyFragDenyOverride]
        split_ifs with haction
        · exact decide_eq_false hdeny
        · exact decide_eq_false haction
      | none =>
        simp only [Option.isNone_some, Bool.and_false, Bool.false_and, Bool.false_eq_true, if_false]
        exact walkRules_skipped hdeny rest

theorem permits_whole_cons (hl4 : q.l4Present = true) (ir : ℕ × PolicyRule)
    (rest : List (ℕ × PolicyRule)) :
    (walkRules st q expired none (ir :: rest)).permits fallthrough
      = if takes st q expired ir then decide (ir.2.action = .permit)
        else (walkRules st q expired none rest).permits fallthrough := by
  obtain ⟨idx, rule⟩ := ir
  rw [walkRules, takes]
  cases live st q expired rule
  · rfl
  · cases appMatch q rule with
    | some timeout => rfl
    | none => simp [hl4]

theorem permits_fragment_cons (hl4 : q.l4Present = false) (ir : ℕ × PolicyRule)
    (rest : List (ℕ × PolicyRule)) :
    (walkRules st q expired none (ir :: rest)).permits fallthrough
      = if decisive st q expired ir then decide (ir.2.action = .permit)
        else (walkRules st q expired none rest).permits fallthrough := by
  obtain ⟨idx, rule⟩ := ir
  rw [walkRules, decisive]
  cases live st q expired rule
  · rfl
  · cases appMatch q rule with
    | some timeout => rfl
    | none =>
      simp only [hl4, Bool.not_false, Option.isNone_none, Bool.and_true, Bool.true_and, if_true,
        Option.isSome_none, Bool.false_or]
      split_ifs with hskip
      · rw [Bool.and_eq_true, decide_eq_true_eq] at hskip
        rw [walkRules_skipped hskip.1 rest, decide_eq_false hskip.1]
      · rfl

theorem permits_fragment (hl4 : q.l4Present = false) (l : List (ℕ × PolicyRule)) :
    (walkRules st q expired none l).permits fallthrough
      = (l.find? (decisive st q expired)).elim fallthrough fun ir => decide (ir.2.action = .permit) := by
  induction l with
  | nil => rfl
  | cons ir rest ih =>
    rw [permits_fragment_cons hl4, ih, List.find?_cons]
    cases decisive st q expired ir <;> rfl

theorem permits_whole (hl4 : q.l4Present = true) (l : List (ℕ × PolicyRule)) :
    (walkRules st q expired none l).permits fallthrough
      = (l.find? (takes st q expired)).elim fallthrough fun ir => decide (ir.2.action = .permit) := by
  induction l with
  | nil => rfl
  | cons ir rest ih =>
    rw [permits_whole_cons hl4, ih, List.find?_cons]
    cases takes st q expired ir <;> rfl

/-- **Along the rules.** A deny that takes the packet has to end the walk of the fragment, and
a permit that ends the walk of the fragment has to take the packet; then a permit of the
fragment is one of the packet. -/
theorem permits_of_covers (hfrag : frag.l4Present = false) (hwhole : whole.l4Present = true) :
    ∀ l : List (ℕ × PolicyRule),
      (∀ ir ∈ l, ir.2.action ≠ .permit → takes st whole expired ir = true →
        decisive st frag expired ir = true) →
      (∀ ir ∈ l.find? (decisive st frag expired), ir.2.action = .permit →
        takes st whole expired ir = true) →
      (walkRules st frag expired none l).permits fallthrough = true →
      (walkRules st whole expired none l).permits fallthrough = true
  | [], _, _, h => h
  | ir :: rest, hdeny, hpermit, h => by
    have ih := permits_of_covers hfrag hwhole rest
      (fun ir' hir' => hdeny ir' (List.mem_cons_of_mem _ hir'))
    rw [permits_fragment_cons hfrag] at h
    rw [permits_whole_cons hwhole]
    cases hends : decisive st frag expired ir
    · -- the fragment goes on: if the rule takes the packet, it is no deny
      rw [hends, if_neg Bool.false_ne_true] at h
      rw [List.find?_cons_of_neg (by rw [hends]; exact Bool.false_ne_true)] at hpermit
      split_ifs with htakes
      · rw [decide_eq_true_eq]
        by_contra haction
        exact Bool.false_ne_true (hends ▸ hdeny ir List.mem_cons_self haction htakes)
      · exact ih hpermit h
    · rw [hends, if_pos rfl, decide_eq_true_eq] at h
      rw [List.find?_cons_of_pos hends] at hpermit
      rw [if_pos (hpermit ir rfl h), decide_eq_true h]

/-- A remembered deny is a deny. -/
theorem walkRules_denies : ∀ (l : List (ℕ × PolicyRule)) (skipped : Option SkippedFragDeny),
    (∀ deny ∈ skipped, deny.action ≠ .permit) → ∀ {deny : SkippedFragDeny},
    walkRules st q expired skipped l = .ok (some deny) → deny.action ≠ .permit
  | [], skipped, hskipped, deny, h => hskipped deny (Except.ok.inj h)
  | (idx, rule) :: rest, skipped, hskipped, deny, h => by
    rw [walkRules] at h
    split at h
    · split at h
      · cases h
      · refine walkRules_denies rest _ ?_ h
        split
        · rename_i hskip
          simp only [Bool.and_eq_true, decide_eq_true_eq] at hskip
          rintro _ ⟨⟩
          exact hskip.1.2
        · exact hskipped
    · exact walkRules_denies rest skipped hskipped h

end Walks

/-! ## Evaluation -/

/-- The gates around the walk: no functional zone, an ingress zone, and an egress zone
unless there is no route. -/
def admitted (st : PolicyState) (q : PolicyQuery) : Bool :=
  !(st.functionalZoneIds.contains q.fromId || st.functionalZoneIds.contains q.toId)
    && q.fromId ≠ 0 && (q.toId ≠ 0 || !q.egressResolved)

/-- The walk of a transit packet. -/
def transitWalk (st : PolicyState) (q : PolicyQuery) : Walk :=
  walkRules st q (st.schedulerRulesExpiredAt q.nowNs) none (rulesAt st (visitOrder st q))

/-- The walk of a packet to the firewall itself. -/
def hostWalk (st : PolicyState) (q : PolicyQuery) : Walk :=
  walkRules st q (st.schedulerRulesExpiredAt q.nowNs) none (rulesAt st (hostOrder st q))

theorem evaluate_permit_iff (st : PolicyState) (q : PolicyQuery) :
    (evaluatePolicyResultCounted st q).action = .permit
      ↔ admitted st q = true ∧ (transitWalk st q).permits (st.defaultAction = .permit) = true := by
  rw [evaluatePolicyResultCounted, evaluateTiers_eq, ← transitWalk, admitted]
  cases hfunctional : st.functionalZoneIds.contains q.fromId || st.functionalZoneIds.contains q.toId
  swap
  · simp [PolicyEvaluationResult.unattributed]
  -- behind a closed gate nothing was visited
  have hclosed : visitOrder st q = [] → transitWalk st q = .ok none := by
    intro horder
    rw [transitWalk, horder]
    rfl
  by_cases hfrom : q.fromId = 0
  · rw [hclosed (by simp [visitOrder, hfrom])]
    simp [hfrom, PolicyEvaluationResult.unattributed]
  by_cases hto : q.egressResolved = true ∧ q.toId = 0
  · rw [hclosed (by simp [visitOrder, PolicyQuery.unresolvedEgress, hto.1, hto.2])]
    simp [hfrom, hto.1, hto.2, PolicyEvaluationResult.unattributed]
  have hopen : (decide (q.toId ≠ 0) || !q.egressResolved) = true := by
    by_cases htoId : q.toId = 0
    · have : q.egressResolved = false := Bool.eq_false_iff.mpr fun h => hto ⟨h, htoId⟩
      simp [this]
    · simp [htoId]
  have hgate : (q.egressResolved && decide (q.toId = 0)) = false := by
    rw [Bool.eq_false_iff, Ne, Bool.and_eq_true, decide_eq_true_eq]
    exact hto
  simp only [Bool.false_eq_true, if_false, Bool.not_false, hfrom, hgate, hopen, ne_eq, not_false_eq_true,
    decide_true, Bool.and_self, true_and]
  cases hwalk : transitWalk st q with
  | error result => simp [Walk.permits]
  | ok skipped =>
    cases skipped with
    | none => simp [Walk.permits, applyFragDenyOverride]
    | some deny =>
      have hdeny := walkRules_denies _ none (fun _ h => by cases h) hwalk
      simp only [applyFragDenyOverride, Walk.permits, Bool.false_eq_true, iff_false]
      split_ifs with hdefault
      · exact hdeny
      · exact hdefault

/-- A packet to the firewall is not denied: no rule decides, or a permit does. -/
theorem host_not_denied_iff (st : PolicyState) (q : PolicyQuery) :
    (evaluateJunosHostPolicy st q).all (fun result => result.action = .permit) = true
      ↔ st.hasJunosHostRules = false ∨ (hostWalk st q).permits true = true := by
  rw [evaluateJunosHostPolicy_eq, ← hostWalk]
  cases st.hasJunosHostRules
  · simp
  · simp only [Bool.not_true, Bool.false_eq_true, if_false, Bool.true_eq_false, false_or]
    cases hwalk : hostWalk st q with
    | error result => simp [Walk.permits]
    | ok skipped =>
      cases skipped with
      | none => simp [Walk.permits]
      | some deny =>
        have hdeny := walkRules_denies _ none (fun _ h => by cases h) hwalk
        simp [Walk.permits, fragAssociatedDenyResult, hdeny]

/-- The packet without its transport header. -/
def PolicyQuery.fragment (q : PolicyQuery) : PolicyQuery := { q with l4Present := false }

/-- The same packet with a transport header. -/
def PolicyQuery.whole (q : PolicyQuery) (protocol : UInt8) (srcPort dstPort : UInt16)
    (packetIcmp : Option (UInt8 × UInt8)) : PolicyQuery :=
  { q with
    protocol := protocol
    srcPort := srcPort
    dstPort := dstPort
    packetIcmp := packetIcmp
    l4Present := true }

section Protocol

variable {q : PolicyQuery} {srcPort dstPort : UInt16} {packetIcmp : Option (UInt8 × UInt8)}
  {rule : PolicyRule}

theorem appMatch_of_matchAny (hany : rule.compiledApps.matchAny = true) (p : PolicyQuery) :
    (appMatch p rule).isSome = true := by
  rw [appMatch, CompiledApplications.matches, if_pos hany]
  rfl

/-- A rule that takes the fragment takes the packet. -/
theorem appMatch_whole (hicmp : q.packetIcmp = none ∨ packetIcmp = q.packetIcmp)
    (h : (appMatch q.fragment rule).isSome = true) :
    (appMatch (q.whole q.protocol srcPort dstPort packetIcmp) rule).isSome = true := by
  cases hany : rule.compiledApps.matchAny with
  | true => exact appMatch_of_matchAny hany _
  | false =>
    obtain ⟨terms, hterms, hbest⟩ := (CompiledApplications.matches_isSome hany).mp h
    exact (CompiledApplications.matches_isSome hany).mpr
      ⟨terms, hterms, ProtoTerms.best_flowless hicmp hbest⟩

/-- A rule that takes the packet takes the fragment, or its terms need the header. -/
theorem appMatch_fragment (hprotocol : q.protocol ≠ shimProtoFragmentNoL4)
    (hicmp : q.packetIcmp = none ∨ packetIcmp = q.packetIcmp)
    (h : (appMatch (q.whole q.protocol srcPort dstPort packetIcmp) rule).isSome = true) :
    (appMatch q.fragment rule).isSome = true ∨ rule.l4Skipped q.protocol q.packetIcmp = true := by
  cases hany : rule.compiledApps.matchAny with
  | true => exact .inl (appMatch_of_matchAny hany _)
  | false =>
    obtain ⟨terms, hterms, hbest⟩ := (CompiledApplications.matches_isSome hany).mp h
    rcases ProtoTerms.best_whole hicmp hbest with ⟨t, ht, honly⟩ | hflowless | hskip
    · exact .inl ((CompiledApplications.matches_isSome hany).mpr ⟨terms, hterms,
        ProtoTerms.best_isSome.mpr (.inr (.inl ⟨t, ht, t.matches_of_protocolOnly honly _ _ _⟩))⟩)
    · exact .inl ((CompiledApplications.matches_isSome hany).mpr ⟨terms, hterms, hflowless⟩)
    · refine .inr ?_
      change rule.compiledApps.byProtocol.lookup q.protocol = some terms at hterms
      rw [PolicyRule.l4Skipped, CompiledApplications.hasL4ConstrainedTerm,
        if_neg (by rw [hany]; exact Bool.false_ne_true), if_neg hprotocol, hterms, Option.any_some, hskip]
      rfl

/-- The walk of a fragment next to that of its packet, over any rules. -/
theorem permits_of_protocol (st : PolicyState) (expired fallthrough : Bool)
    (hprotocol : q.protocol ≠ shimProtoFragmentNoL4)
    (hicmp : q.packetIcmp = none ∨ packetIcmp = q.packetIcmp) (l : List (ℕ × PolicyRule))
    (h : (walkRules st q.fragment expired none l).permits fallthrough = true) :
    (walkRules st (q.whole q.protocol srcPort dstPort packetIcmp) expired none l).permits fallthrough
      = true := by
  refine permits_of_covers rfl rfl l ?_ ?_ h
  · intro ir _ haction htakes
    rw [takes, Bool.and_eq_true] at htakes
    have hlive : live st q.fragment expired ir.2 = true := htakes.1
    rw [decisive, hlive, Bool.true_and, Bool.or_eq_true]
    refine (appMatch_fragment hprotocol hicmp htakes.2).imp id fun hskip => ?_
    rw [Bool.and_eq_true, decide_eq_true_eq]
    exact ⟨haction, hskip⟩
  · intro ir hir haction
    have hends := List.find?_some hir
    rw [decisive, Bool.and_eq_true] at hends
    have hlive : live st (q.whole q.protocol srcPort dstPort packetIcmp) expired ir.2 = true := hends.1
    have hfrag : (appMatch q.fragment ir.2).isSome = true := by
      simpa [haction] using hends.2
    rw [takes, hlive, Bool.true_and]
    exact appMatch_whole hicmp hfrag

end Protocol

/-- **A fragment passes only where its packet does.** `q.packetIcmp` is what is known of the
ICMP type without the header: nothing, or the type itself. -/
theorem fragment_permit_packet_permit (st : PolicyState) (q : PolicyQuery) (srcPort dstPort : UInt16)
    (packetIcmp : Option (UInt8 × UInt8)) (hprotocol : q.protocol ≠ shimProtoFragmentNoL4)
    (hicmp : q.packetIcmp = none ∨ packetIcmp = q.packetIcmp) :
    ((evaluatePolicyResultCounted st q.fragment).action = .permit →
        (evaluatePolicyResultCounted st (q.whole q.protocol srcPort dstPort packetIcmp)).action = .permit)
      ∧ ((evaluateJunosHostPolicy st q.fragment).all (fun result => result.action = .permit) = true →
        (evaluateJunosHostPolicy st (q.whole q.protocol srcPort dstPort packetIcmp)).all
          (fun result => result.action = .permit) = true) := by
  constructor
  · rw [evaluate_permit_iff, evaluate_permit_iff]
    rintro ⟨hadmitted, hwalk⟩
    exact ⟨hadmitted, permits_of_protocol st _ _ hprotocol hicmp _ hwalk⟩
  · rw [host_not_denied_iff, host_not_denied_iff]
    refine Or.imp id fun hwalk => ?_
    exact permits_of_protocol st _ _ hprotocol hicmp _ hwalk

/-- A rule between two zones for any address. -/
def zoneRule (name fromZone toZone action : String) (terms : List PolicyApplicationSnapshot) :
    PolicyRuleSnapshot where
  ruleId := name
  policyId := 0
  name := name
  fromZone := fromZone
  toZone := toZone
  schedulerName := ""
  inactive := false
  sourceAddresses := ["any"]
  destinationAddresses := ["any"]
  sourceBookIds := []
  destinationBookIds := []
  sourceLiterals := []
  destinationLiterals := []
  applicationTerms := terms
  action := action
  sourceAddressExcluded := false
  destinationAddressExcluded := false
  logSessionInit := false
  logSessionClose := false
  matchFromZone := ""
  matchToZone := ""
  matchFromZones := []
  matchToZones := []

/-- Two zones. -/
def twoZones (name : String) : Option UInt32 :=
  if name = "trust" then some 1 else if name = "untrust" then some 2 else none

/-- Address texts of which none is an address. -/
def noAddresses : AddrParsers := ⟨fun _ => none, fun _ => none, fun _ => none⟩

/-- A deny of web traffic in front of a permit of everything. -/
def webDenied : Except SnapshotIntegrityError PolicyState :=
  parsePolicyState noAddresses "deny"
    [zoneRule "no-web" "trust" "untrust" "deny" [⟨"http", "tcp", "", "http", none, none, none⟩],
      zoneRule "rest" "trust" "untrust" "permit" []] twoZones [] []

/-- A packet from 10.0.0.1 to 10.0.0.2. -/
def packetOf (protocol : UInt8) : PolicyQuery :=
  ⟨1, 2, .v4 0x0A000001, .v4 0x0A000002, protocol, 0, 0, none, true, true, 0⟩

/-- A computation that succeeds, with what was checked of its value. -/
theorem exists_ok {ε α : Type} {e : Except ε α} {p : α → Prop} (hok : e.toOption.isSome = true)
    (hp : ∀ a ∈ e.toOption, p a) : ∃ a, e = .ok a ∧ p a := by
  cases e with
  | error e => cases hok
  | ok a => exact ⟨a, rfl, hp a rfl⟩

theorem fragment_permit_packet_permit_webDenied :
    ∃ st, webDenied = .ok st
      ∧ (evaluatePolicyResultCounted st (packetOf protoUdp).fragment).action = .permit
      ∧ (evaluatePolicyResultCounted st ((packetOf protoUdp).whole protoUdp 1024 53 none)).action
        = .permit := by
  have hfragment : ∀ st ∈ webDenied.toOption,
      (evaluatePolicyResultCounted st (packetOf protoUdp).fragment).action = .permit := by decide +kernel
  obtain ⟨st, hst, hpermit⟩ := exists_ok (by decide +kernel) hfragment
  exact ⟨st, hst, hpermit,
    (fragment_permit_packet_permit st (packetOf protoUdp) 1024 53 none (by decide) (.inl rfl)).1 hpermit⟩

/-- A TCP fragment gives way to the deny it cannot match. -/
example : ∀ st ∈ webDenied.toOption,
    (evaluatePolicyResultCounted st (packetOf 6).fragment).action = .deny := by decide +kernel

end Xpf.Policies
