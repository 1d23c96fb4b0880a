/-
Security policies and their evaluation: `userspace-dp/src/policy.rs`.

The rules are one list in configuration order. Tables by zone say which of them a packet
has to try, tier after tier, and the first one that matches decides. A packet without a
transport header cannot match a term that names ports: a deny it skipped for that reason is
remembered, and a permit further on then gives way to it.

A walk ends in `.error` with the result that decides, or goes on in `.ok` with the deny it
remembers; an index beyond the rules, where the source would panic, is passed over. The hit
counters, which no verdict reads, are left out.
-/
import Xpf.PolicyTerms

set_option autoImplicit false

namespace Xpf.Policies

open Xpf.Tables Xpf.PrefixSets
open Xpf.Filters (IpAddr)

/-! ## Rules and the state -/

/-- `PolicyAction`. -/
inductive PolicyAction where
  | permit
  | deny
  | reject
deriving DecidableEq

/-- `JUNOS_HOST_ZONE_ID`. -/
def junosHostZoneId : UInt32 := 0xFFFFFFFE

/-- `DEFAULT_POLICY_SENTINEL_ID`. -/
def defaultPolicySentinelId : UInt32 := 0xFFFFFFFF

/-- `UNATTRIBUTED_POLICY_ID`. -/
def unattributedPolicyId : UInt32 := 0

/-- `DEFAULT_POLICY_COUNTER_IDX`. -/
def defaultPolicyCounterIdx : UInt32 := 0xFFFFFFFF

/-- `GlobalZoneScope`. -/
inductive GlobalZoneScope where
  | any
  | zones (ids : List UInt32)
deriving DecidableEq

/-- `GlobalZoneScope::matches`. -/
def GlobalZoneScope.matches (scope : GlobalZoneScope) (id : UInt32) : Bool :=
  match scope with
  | .any => true
  | .zones ids => ids.contains id

/-- `is_host_scope`. -/
def GlobalZoneScope.isHostScope (scope : GlobalZoneScope) : Bool :=
  match scope with
  | .any => false
  | .zones ids => ids = [junosHostZoneId]

/-- `PolicyRule`, without its hit counter and the terms before they are compiled. -/
structure PolicyRule where
  ruleId : String
  policyId : UInt32
  fromZone : String
  toZone : String
  globalFromZone : GlobalZoneScope
  globalToZone : GlobalZoneScope
  schedulerName : String
  inactive : Bool
  sourceLiteralV4 : PrefixSet 32
  sourceLiteralV6 : PrefixSet 128
  destinationLiteralV4 : PrefixSet 32
  destinationLiteralV6 : PrefixSet 128
  sourceBookIdxs : List ℕ
  destinationBookIdxs : List ℕ
  sourceV4MatchAny : Bool
  sourceV6MatchAny : Bool
  destinationV4MatchAny : Bool
  destinationV6MatchAny : Bool
  sourceExcluded : Bool
  destinationExcluded : Bool
  sourceV4Empty : Bool
  sourceV6Empty : Bool
  destinationV4Empty : Bool
  destinationV6Empty : Bool
  compiledApps : CompiledApplications
  action : PolicyAction
  logSessionInit : Bool
  logSessionClose : Bool

/-- `BookEntry`. -/
structure BookEntry where
  v4 : PrefixSet 32
  v6 : PrefixSet 128

/-- `SchedulerHeartbeatLease`, without the flag of the last snapshot. -/
structure SchedulerHeartbeatLease where
  version : UInt64
  receivedAtNs : UInt64

/-- `SCHEDULER_HEARTBEAT_LEASE_NS`. -/
def schedulerHeartbeatLeaseNs : UInt64 := 300000000000

/-- `expired_at`. -/
def SchedulerHeartbeatLease.expiredAt (lease : SchedulerHeartbeatLease) (nowNs : UInt64) : Bool :=
  if lease.version = 0 then false
  else lease.receivedAtNs ≤ nowNs && schedulerHeartbeatLeaseNs < nowNs - lease.receivedAtNs

/-- `zone_pair_key`. -/
def zonePairKey (fromId toId : UInt32) : UInt64 := fromId.toUInt64 <<< 32 ||| toId.toUInt64

/-- `PolicyState`: what an evaluation reads of it. -/
structure PolicyState where
  defaultAction : PolicyAction
  rules : List PolicyRule
  zonePairIndex : Table UInt64 (List ℕ)
  exactPairDenyByFrom : Table UInt32 (List ℕ)
  fromAnyIndex : Table UInt32 (List ℕ)
  toAnyIndex : Table UInt32 (List ℕ)
  bothAnyIndices : List ℕ
  globalIndices : List ℕ
  functionalZoneIds : List UInt32
  books : List BookEntry
  bookIdToIdx : Table UInt32 ℕ
  hasJunosHostRules : Bool
  hasScheduledRules : Bool
  schedulerLease : SchedulerHeartbeatLease
  defaultLogSessionInit : Bool
  defaultLogSessionClose : Bool

/-- `scheduler_rules_expired_at`. -/
def PolicyState.schedulerRulesExpiredAt (st : PolicyState) (nowNs : UInt64) : Bool :=
  st.hasScheduledRules && st.schedulerLease.expiredAt nowNs

/-- `PolicyQuery`, without what only the counters read. -/
structure PolicyQuery where
  fromId : UInt32
  toId : UInt32
  srcIp : IpAddr
  dstIp : IpAddr
  protocol : UInt8
  srcPort : UInt16
  dstPort : UInt16
  packetIcmp : Option (UInt8 × UInt8)
  l4Present : Bool
  egressResolved : Bool
  nowNs : UInt64

/-- `PolicyEvaluationResult`. -/
structure PolicyEvaluationResult where
  action : PolicyAction
  policyId : UInt32
  logSessionInit : Bool
  logSessionClose : Bool
  inactivityTimeout : Option UInt32
  policyCounterIdx : UInt32
deriving DecidableEq

/-- The result of the gates in front of and behind the walk: a deny of no rule. -/
def PolicyEvaluationResult.unattributed : PolicyEvaluationResult :=
  ⟨.deny, unattributedPolicyId, false, false, none, 0⟩

/-! ## One rule -/

section OneRule

variable {w : ℕ}

/-- One side of `rule_l3_matches` at the family of its address. -/
def sideMatches (excluded v4Empty v6Empty matchAny : Bool) (literal : PrefixSet w)
    (books : List (PrefixSet w)) (ip : BitVec w) : Bool :=
  if excluded then
    !(v4Empty && v6Empty) && !(literal.contains ip || books.any fun book => book.contains ip)
  else matchAny || literal.contains ip || books.any fun book => book.contains ip

end OneRule

/-- The books of a rule's side. -/
def PolicyState.booksAt (st : PolicyState) (idxs : List ℕ) : List BookEntry :=
  idxs.filterMap fun i => st.books[i]?

section Sides

variable (rule : PolicyRule) (st : PolicyState)

/-- `src_ok` of an IPv4 source. -/
def sourceV4Matches (src : BitVec 32) : Bool :=
  sideMatches rule.sourceExcluded rule.sourceV4Empty rule.sourceV6Empty rule.sourceV4MatchAny
    rule.sourceLiteralV4 ((st.booksAt rule.sourceBookIdxs).map (·.v4)) src

/-- `src_ok` of an IPv6 source. -/
def sourceV6Matches (src : BitVec 128) : Bool :=
  sideMatches rule.sourceExcluded rule.sourceV4Empty rule.sourceV6Empty rule.sourceV6MatchAny
    rule.sourceLiteralV6 ((st.booksAt rule.sourceBookIdxs).map (·.v6)) src

/-- `dst_ok` of an IPv4 destination. -/
def destinationV4Matches (dst : BitVec 32) : Bool :=
  sideMatches rule.destinationExcluded rule.destinationV4Empty rule.destinationV6Empty
    rule.destinationV4MatchAny rule.destinationLiteralV4
    ((st.booksAt rule.destinationBookIdxs).map (·.v4)) dst

/-- `dst_ok` of an IPv6 destination. -/
def destinationV6Matches (dst : BitVec 128) : Bool :=
  sideMatches rule.destinationExcluded rule.destinationV4Empty rule.destinationV6Empty
    rule.destinationV6MatchAny rule.destinationLiteralV6
    ((st.booksAt rule.destinationBookIdxs).map (·.v6)) dst

/-- `rule_l3_matches`. An IPv6 source with an IPv4 destination is a NAT64 flow; the opposite
pair matches nothing. -/
def ruleL3Matches (srcIp dstIp : IpAddr) : Bool :=
  match srcIp, dstIp with
  | .v4 src, .v4 dst => sourceV4Matches rule st src && destinationV4Matches rule st dst
  | .v6 src, .v6 dst => sourceV6Matches rule st src && destinationV6Matches rule st dst
  | .v6 src, .v4 dst => sourceV6Matches rule st src && destinationV4Matches rule st dst
  | .v4 _, .v6 _ => false

end Sides

/-- `SkippedFragDeny`. -/
structure SkippedFragDeny where
  action : PolicyAction
  policyId : UInt32
  logSessionInit : Bool
  logSessionClose : Bool
  policyCounterIdx : UInt32

/-- `RuleMissReason`. -/
inductive RuleMissReason where
  | inactive
  | applicationNoMatch
  | addressNoMatch
  | fragmentDenyOverlap
deriving DecidableEq

/-- `RuleMatchOutcome`. -/
inductive RuleMatchOutcome where
  | matched (result : PolicyEvaluationResult)
  | miss (reason : RuleMissReason)

/-- The first guard of `try_match_rule`: once the scheduler's lease has run out, a scheduled
permit is off and a scheduled deny is on. -/
def PolicyRule.off (rule : PolicyRule) (schedulerExpired : Bool) : Bool :=
  let schedulerUnknown := schedulerExpired && !rule.schedulerName.isEmpty
  schedulerUnknown && rule.action = .permit || !schedulerUnknown && rule.inactive

/-- The application half of the test for `FragmentDenyOverlap`. -/
def PolicyRule.l4Skipped (rule : PolicyRule) (protocol : UInt8) (packetIcmp : Option (UInt8 × UInt8)) :
    Bool :=
  rule.compiledApps.hasL4ConstrainedTerm protocol packetIcmp
    || protocol = Filters.shimProtoFragmentNoL4 && rule.compiledApps.hasAnyProtocolTerm

/-- `try_match_rule`. -/
def tryMatchRule (st : PolicyState) (q : PolicyQuery) (schedulerExpired trackFragDeny : Bool)
    (rule : PolicyRule) : RuleMatchOutcome :=
  if rule.off schedulerExpired then .miss .inactive
  else
    match rule.compiledApps.matches q.protocol q.srcPort q.dstPort q.packetIcmp q.l4Present with
    | none =>
      if trackFragDeny && rule.action ≠ .permit && rule.l4Skipped q.protocol q.packetIcmp
          && ruleL3Matches rule st q.srcIp q.dstIp then
        .miss .fragmentDenyOverlap
      else .miss .applicationNoMatch
    | some timeout =>
      if ruleL3Matches rule st q.srcIp q.dstIp then
        .matched ⟨rule.action, rule.policyId, rule.logSessionInit, rule.logSessionClose, timeout, 0⟩
      else .miss .addressNoMatch

/-! ## The walk -/

/-- `counter_handle`. -/
def counterHandle (idx : ℕ) : UInt32 :=
  let handle := UInt32.ofNat idx
  if handle = 0xFFFFFFFF then handle else handle + 1

/-- `note_skipped_frag_deny`. -/
def noteSkippedFragDeny (skipped : Option SkippedFragDeny) (rule : PolicyRule) (idx : ℕ)
    (reason : RuleMissReason) : Option SkippedFragDeny :=
  if skipped.isNone && reason = .fragmentDenyOverlap then
    some ⟨rule.action, rule.policyId, rule.logSessionInit, rule.logSessionClose, counterHandle idx⟩
  else skipped

/-- `frag_associated_deny_result`. -/
def fragAssociatedDenyResult (deny : SkippedFragDeny) : PolicyEvaluationResult :=
  ⟨deny.action, deny.policyId, deny.logSessionInit, deny.logSessionClose, none, deny.policyCounterIdx⟩

/-- `apply_frag_deny_override_and_count`. -/
def applyFragDenyOverride (result : PolicyEvaluationResult) (skipped : Option SkippedFragDeny) :
    PolicyEvaluationResult :=
  match skipped with
  | some deny => if result.action = .permit then fragAssociatedDenyResult deny else result
  | none => result

/-- What a walk has come to. -/
abbrev Walk := Except PolicyEvaluationResult (Option SkippedFragDeny)

/-- `TierWalk::step`. -/
def step (st : PolicyState) (q : PolicyQuery) (schedulerExpired : Bool) (skipped : Option SkippedFragDeny)
    (idx : ℕ) : Walk :=
  match st.rules[idx]? with
  | none => .ok skipped
  | some rule =>
    match tryMatchRule st q schedulerExpired (!q.l4Present && skipped.isNone) rule with
    | .matched result =>
      .error (applyFragDenyOverride { result with policyCounterIdx := counterHandle idx } skipped)
    | .miss reason => .ok (noteSkippedFragDeny skipped rule idx reason)

/-- The loop over one tier. -/
def walkTier (st : PolicyState) (q : PolicyQuery) (schedulerExpired : Bool) (indices : List ℕ)
    (skipped : Option SkippedFragDeny) : Walk :=
  indices.foldlM (step st q schedulerExpired) skipped

/-- `unresolved_egress`. -/
def PolicyQuery.unresolvedEgress (q : PolicyQuery) : Bool := !q.egressResolved && q.toId = 0

/-- The `continue` of the loop over the global rules. -/
def globalInScope (st : PolicyState) (q : PolicyQuery) (idx : ℕ) : Bool :=
  (st.rules[idx]?).any fun rule =>
    rule.globalFromZone.matches q.fromId
      && if q.unresolvedEgress then rule.globalToZone = .any else rule.globalToZone.matches q.toId

/-- The `while` loop over the two single-wildcard tiers: the smaller of the two next indices,
in as many rounds as there are indices. -/
def mergeLoop : ℕ → List ℕ → List ℕ → List ℕ
  | 0, _, _ => []
  | _ + 1, [], [] => []
  | n + 1, i :: fromAny, [] => i :: mergeLoop n fromAny []
  | n + 1, [], j :: toAny => j :: mergeLoop n [] toAny
  | n + 1, i :: fromAny, j :: toAny =>
    if i ≤ j then i :: mergeLoop n fromAny (j :: toAny) else j :: mergeLoop n (i :: fromAny) toAny

/-- The indices of the two tiers in the order of the loop. -/
def mergeTiers (fromAny toAny : List ℕ) : List ℕ :=
  mergeLoop (fromAny.length + toAny.length) fromAny toAny

/-- The tiers of `evaluate_policy_result_counted`. -/
def evaluateTiers (st : PolicyState) (q : PolicyQuery) : Walk :=
  let walk := walkTier st q (st.schedulerRulesExpiredAt q.nowNs)
  if q.fromId ≠ 0 && (q.toId ≠ 0 || q.unresolvedEgress) then do
    let exact := if q.toId ≠ 0 then getD st.zonePairIndex (zonePairKey q.fromId q.toId) [] else []
    let skipped ← walk exact none
    let exactDeny := if q.unresolvedEgress then getD st.exactPairDenyByFrom q.fromId [] else []
    let skipped ← walk exactDeny skipped
    let fromAny := if q.unresolvedEgress then [] else getD st.fromAnyIndex q.toId []
    let toAny := getD st.toAnyIndex q.fromId []
    let skipped ← walk (mergeTiers fromAny toAny) skipped
    let skipped ← walk st.bothAnyIndices skipped
    walk (st.globalIndices.filter (globalInScope st q)) skipped
  else .ok none

/-- `evaluate_policy_result_counted`. -/
def evaluatePolicyResultCounted (st : PolicyState) (q : PolicyQuery) : PolicyEvaluationResult :=
  if st.functionalZoneIds.contains q.fromId || st.functionalZoneIds.contains q.toId then .unattributed
  else
    match evaluateTiers st q with
    | .error result => result
    | .ok skipped =>
      if q.fromId = 0 then .unattributed
      else if q.egressResolved && q.toId = 0 then .unattributed
      else
        let default : PolicyEvaluationResult :=
          ⟨st.defaultAction, defaultPolicySentinelId, st.defaultLogSessionInit, st.defaultLogSessionClose,
            none, defaultPolicyCounterIdx⟩
        applyFragDenyOverride default skipped

/-- `evaluate_junos_host_policy_l3_aware_at_with_hit_count`; `none` leaves the packet to the
host-inbound checks of its zone. -/
def evaluateJunosHostPolicy (st : PolicyState) (q : PolicyQuery) : Option PolicyEvaluationResult :=
  let walk := walkTier st q (st.schedulerRulesExpiredAt q.nowNs)
  let inScope := fun idx => (st.rules[idx]?).any fun rule =>
    rule.globalToZone.isHostScope && rule.globalFromZone.matches q.fromId
  if !st.hasJunosHostRules then none
  else
    let outcome : Walk := do
      let exact :=
        if q.fromId ≠ 0 then getD st.zonePairIndex (zonePairKey q.fromId junosHostZoneId) [] else []
      let skipped ← walk exact none
      let skipped ← walk (getD st.fromAnyIndex junosHostZoneId []) skipped
      walk (st.globalIndices.filter inScope) skipped
    match outcome with
    | .error result => some result
    | .ok skipped => skipped.map fragAssociatedDenyResult

/-! ## The order of a walk -/

/-- The indices a transit packet tries, tier after tier. -/
def visitOrder (st : PolicyState) (q : PolicyQuery) : List ℕ :=
  if q.fromId ≠ 0 && (q.toId ≠ 0 || q.unresolvedEgress) then
    (if q.toId ≠ 0 then getD st.zonePairIndex (zonePairKey q.fromId q.toId) [] else [])
      ++ (if q.unresolvedEgress then getD st.exactPairDenyByFrom q.fromId [] else [])
      ++ mergeTiers (if q.unresolvedEgress then [] else getD st.fromAnyIndex q.toId [])
          (getD st.toAnyIndex q.fromId [])
      ++ st.bothAnyIndices ++ st.globalIndices.filter (globalInScope st q)
  else []

/-- The indices a packet to the firewall itself tries. -/
def hostOrder (st : PolicyState) (q : PolicyQuery) : List ℕ :=
  (if q.fromId ≠ 0 then getD st.zonePairIndex (zonePairKey q.fromId junosHostZoneId) [] else [])
    ++ getD st.fromAnyIndex junosHostZoneId []
    ++ st.globalIndices.filter fun idx => (st.rules[idx]?).any fun rule =>
        rule.globalToZone.isHostScope && rule.globalFromZone.matches q.fromId

/-- The rules at a list of indices. -/
def rulesAt (st : PolicyState) (indices : List ℕ) : List (ℕ × PolicyRule) :=
  indices.filterMap fun idx => st.rules[idx]?.map fun rule => (idx, rule)

section Walks

variable (st : PolicyState) (q : PolicyQuery) (expired : Bool)

/-- The rule is on and its addresses match. -/
def live (rule : PolicyRule) : Bool := !rule.off expired && ruleL3Matches rule st q.srcIp q.dstIp

/-- The terms of the rule at the packet. -/
def appMatch (rule : PolicyRule) : Option (Option UInt32) :=
  rule.compiledApps.matches q.protocol q.srcPort q.dstPort q.packetIcmp q.l4Present

/-- The result of a rule that decides. -/
def resultOf (idx : ℕ) (rule : PolicyRule) (timeout : Option UInt32) : PolicyEvaluationResult :=
  ⟨rule.action, rule.policyId, rule.logSessionInit, rule.logSessionClose, timeout, counterHandle idx⟩

/-- The deny of a rule that was passed over. -/
def denyOf (idx : ℕ) (rule : PolicyRule) : SkippedFragDeny :=
  ⟨rule.action, rule.policyId, rule.logSessionInit, rule.logSessionClose, counterHandle idx⟩

/-- A walk over rules. -/
def walkRules (skipped : Option SkippedFragDeny) : List (ℕ × PolicyRule) → Walk
  | [] => .ok skipped
  | (idx, rule) :: rest =>
    if live st q expired rule then
      match appMatch q rule with
      | some timeout => .error (applyFragDenyOverride (resultOf idx rule timeout) skipped)
      | none =>
        walkRules
          (if !q.l4Present && skipped.isNone && rule.action ≠ .permit && rule.l4Skipped q.protocol q.packetIcmp
            then some (denyOf idx rule) else skipped) rest
    else walkRules skipped rest

theorem tryMatchRule_eq (track : Bool) (rule : PolicyRule) :
    tryMatchRule st q expired track rule
      = if rule.off expired then .miss .inactive
        else match appMatch q rule with
          | none => if track && rule.action ≠ .permit && rule.l4Skipped q.protocol q.packetIcmp
                && ruleL3Matches rule st q.srcIp q.dstIp
              then .miss .fragmentDenyOverlap else .miss .applicationNoMatch
          | some timeout => if ruleL3Matches rule st q.srcIp q.dstIp
              then .matched { resultOf 0 rule timeout with policyCounterIdx := 0 }
              else .miss .addressNoMatch := rfl

theorem step_eq (skipped : Option SkippedFragDeny) {idx : ℕ} {rule : PolicyRule}
    (hrule : st.rules[idx]? = some rule) :
    step st q expired skipped idx
      = if live st q expired rule then
          match appMatch q rule with
          | some timeout => .error (applyFragDenyOverride (resultOf idx rule timeout) skipped)
          | none => .ok (if !q.l4Present && skipped.isNone && rule.action ≠ .permit
                && rule.l4Skipped q.protocol q.packetIcmp then some (denyOf idx rule) else skipped)
        else .ok skipped := by
  rw [step, hrule]
  dsimp only
  rw [tryMatchRule_eq, live]
  cases hoff : rule.off expired
  · cases happ : appMatch q rule with
    | some timeout =>
      cases hl3 : ruleL3Matches rule st q.srcIp q.dstIp
      · simp [noteSkippedFragDeny]
      · rfl
    | none =>
      cases hl3 : ruleL3Matches rule st q.srcIp q.dstIp
      · simp [noteSkippedFragDeny]
      · -- the note is taken once, and the flag already asks whether it is the first
        cases skipped with
        | some deny => simp [noteSkippedFragDeny]
        | none =>
          simp only [Bool.false_eq_true, if_false, Bool.not_false, Bool.true_and, if_true, Option.isNone_none,
            Bool.and_true]
          split_ifs <;> rfl
  · simp [noteSkippedFragDeny]

theorem walkTier_eq (indices : List ℕ) (skipped : Option SkippedFragDeny) :
    walkTier st q expired indices skipped = walkRules st q expired skipped (rulesAt st indices) := by
  induction indices generalizing skipped with
  | nil => rfl
  | cons idx rest ih =>
    rw [walkTier, List.foldlM_cons, rulesAt, List.filterMap_cons]
    cases hrule : st.rules[idx]? with
    | none =>
      have hstep : step st q expired skipped idx = .ok skipped := by rw [step, hrule]
      rw [hstep]
      exact ih skipped
    | some rule =>
      rw [step_eq st q expired skipped hrule]
      simp only [Option.map_some, walkRules]
      cases hlive : live st q expired rule
      · exact ih skipped
      · cases happ : appMatch q rule with
        | some timeout => rfl
        | none => exact ih _

theorem walkTier_append (first second : List ℕ) (skipped : Option SkippedFragDeny) :
    walkTier st q expired (first ++ second) skipped
      = walkTier st q expired first skipped >>= walkTier st q expired second :=
  List.foldlM_append

end Walks

/-- **One list.** The tiers of an evaluation are one walk over the rules of `visitOrder`. -/
theorem evaluateTiers_eq (st : PolicyState) (q : PolicyQuery) :
    evaluateTiers st q
      = walkRules st q (st.schedulerRulesExpiredAt q.nowNs) none (rulesAt st (visitOrder st q)) := by
  rw [← walkTier_eq, evaluateTiers, visitOrder]
  by_cases hzones : (decide (q.fromId ≠ 0) && (decide (q.toId ≠ 0) || q.unresolvedEgress)) = true
  · rw [if_pos hzones, if_pos hzones]
    simp only [walkTier_append, bind_assoc]
  · rw [if_neg hzones, if_neg hzones]
    rfl

theorem evaluateJunosHostPolicy_eq (st : PolicyState) (q : PolicyQuery) :
    evaluateJunosHostPolicy st q
      = if !st.hasJunosHostRules then none
        else match walkRules st q (st.schedulerRulesExpiredAt q.nowNs) none (rulesAt st (hostOrder st q)) with
          | .error result => some result
          | .ok skipped => skipped.map fragAssociatedDenyResult := by
  rw [← walkTier_eq, evaluateJunosHostPolicy, hostOrder]
  simp only [walkTier_append, bind_assoc]

end Xpf.Policies
