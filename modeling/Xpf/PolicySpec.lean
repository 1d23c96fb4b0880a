/-
The first-match specification of a policy, rule by rule, over the snapshot.

`firstMatch` is the plain reading of a configuration: the list of the rules that a packet
tries, and the first of them that is on and matches it. It reads the texts of the snapshot;
there are no tables, no compiled terms and no prefix sets in it. What a rule asks of the
addresses and what it does are parameters, so that two readings of them can be compared.

`RuleOf` says that a parsed rule does what its snapshot says, and `parseRule_ok` that every
rule the parser accepts is one.
-/
import Xpf.PolicySides
import Xpf.PolicyFragments

set_option autoImplicit false

namespace Xpf.Policies

open Xpf.Tables Xpf.PrefixSets
open Xpf.Filters (IpAddr PortRange protoIcmp protoTcp protoUdp protoIcmpv6)

/-! ## The specification -/

/-- The verdict of an evaluation: the action, the id of the policy and its idle timeout. -/
abbrev Verdict := PolicyAction × UInt32 × Option UInt32

section Spec

variable (zoneNameToId : String → Option UInt32) (q : PolicyQuery)

/-- The zone the name stands for. -/
def zoneIs (name : String) (id : UInt32) : Bool :=
  name ≠ "any" && resolvePolicyZoneId zoneNameToId name = some id

/-- A rule of the global list. -/
def isGlobal (snap : PolicyRuleSnapshot) : Bool :=
  snap.fromZone = "junos-global" && snap.toZone = "junos-global"

/-- A rule for the two zones. -/
def isExactPair (snap : PolicyRuleSnapshot) : Bool :=
  !isGlobal snap && zoneIs zoneNameToId snap.fromZone q.fromId && zoneIs zoneNameToId snap.toZone q.toId

/-- A rule for one of the two zones and any other. -/
def isOneAny (snap : PolicyRuleSnapshot) : Bool :=
  !isGlobal snap && (snap.fromZone = "any" && zoneIs zoneNameToId snap.toZone q.toId
    || zoneIs zoneNameToId snap.fromZone q.fromId && snap.toZone = "any")

/-- A rule for any two zones. -/
def isBothAny (snap : PolicyRuleSnapshot) : Bool := snap.fromZone = "any" && snap.toZone = "any"

/-- The scope of a global rule contains the zone. -/
def scopeHolds (names : List String) (id : UInt32) : Bool :=
  names.isEmpty || names.any (fun n => n = "any")
    || names.any fun n => resolvePolicyZoneId zoneNameToId n = some id

/-- A global rule whose scopes contain both zones. -/
def isGlobalInScope (snap : PolicyRuleSnapshot) : Bool :=
  isGlobal snap && scopeHolds zoneNameToId (effectiveMatchZones snap.matchFromZones snap.matchFromZone) q.fromId
    && scopeHolds zoneNameToId (effectiveMatchZones snap.matchToZones snap.matchToZone) q.toId

/-- The rules a packet tries, in their order. -/
def tried (rules : List PolicyRuleSnapshot) : List PolicyRuleSnapshot :=
  rules.filter (isExactPair zoneNameToId q) ++ rules.filter (isOneAny zoneNameToId q)
    ++ rules.filter isBothAny ++ rules.filter (isGlobalInScope zoneNameToId q)

/-- The rule is on: once the scheduler's lease has run out, a scheduled rule is on exactly
when it does not permit. -/
def eligible (leaseExpired : Bool) (action : PolicyAction) (snap : PolicyRuleSnapshot) : Bool :=
  if leaseExpired && !snap.schedulerName.isEmpty then action ≠ .permit else !snap.inactive

/-- The application terms of a rule, without the markers of failed lookups. -/
def listedTerms (snap : PolicyRuleSnapshot) : List PolicyApplicationSnapshot :=
  snap.applicationTerms.filter fun term => (dnsUnavailableQuarantineSide term).isNone

/-- A term matches by its protocol, its ports and its ICMP type and code. -/
def termHolds (term : PolicyApplicationSnapshot) : Bool :=
  (termPorts term).any fun t =>
    t.1 = q.protocol && portRangesMatch t.2.1 q.srcPort && portRangesMatch t.2.2 q.dstPort
      && (term.icmpType.isNone && term.icmpCode.isNone
        || q.packetIcmp.any fun packet =>
          (term.icmpType.all fun type => type = packet.1) && term.icmpCode.all fun code => code = packet.2)

/-- The timeout of a term; zero is none. -/
def termTimeout (term : PolicyApplicationSnapshot) : Option UInt32 :=
  term.inactivityTimeout.filter fun t => 0 < t

/-- The timeout of the first listed term that matches; a rule without terms matches any. -/
def applicationHolds (snap : PolicyRuleSnapshot) : Option (Option UInt32) :=
  if (listedTerms snap).isEmpty then some none
  else ((listedTerms snap).find? (termHolds q)).map termTimeout

/-- The verdict of a rule that is on and matches. -/
def ruleVerdict (addressesHold : PolicyRuleSnapshot → IpAddr → IpAddr → Bool)
    (actionOf : PolicyRuleSnapshot → PolicyAction) (leaseExpired : Bool) (snap : PolicyRuleSnapshot) :
    Option Verdict :=
  if eligible leaseExpired (actionOf snap) snap && addressesHold snap q.srcIp q.dstIp then
    (applicationHolds q snap).map fun timeout => (actionOf snap, snap.policyId, timeout)
  else none

/-- **The specification**, for a packet with its transport header and a resolved egress. -/
def firstMatch (addressesHold : PolicyRuleSnapshot → IpAddr → IpAddr → Bool)
    (actionOf : PolicyRuleSnapshot → PolicyAction) (defaultAction : PolicyAction)
    (functionalZoneIds : List UInt32) (leaseExpired : Bool) (rules : List PolicyRuleSnapshot) : Verdict :=
  if functionalZoneIds.contains q.fromId || functionalZoneIds.contains q.toId || q.fromId = 0 || q.toId = 0 then
    (.deny, unattributedPolicyId, none)
  else
    ((tried zoneNameToId q rules).findSome? (ruleVerdict q addressesHold actionOf leaseExpired)).getD
      (defaultAction, defaultPolicySentinelId, none)

end Spec

/-! ## Addresses and actions -/

/-- The addresses of one side. -/
structure SideSpec where
  v4 : List (Prefix 32)
  v6 : List (Prefix 128)
  excluded : Bool

/-- The address is one that the side asks for. -/
def SideSpec.holds (side : SideSpec) (ip : IpAddr) : Bool :=
  match ip with
  | .v4 addr => sideHolds side.excluded side.v4 side.v6 side.v4 addr
  | .v6 addr => sideHolds side.excluded side.v4 side.v6 side.v6 addr

section Addresses

variable (addrs : AddrParsers) (books : List AddressBookSnapshot)

/-- The address texts of a side, and what no text means for them: a side that lists books or
literals is its literals, any other one its old-shaped addresses. -/
def sideTokens (bookIds : List UInt32) (literals addresses : List String) : List String × EmptyMeans :=
  if !bookIds.isEmpty || !literals.isEmpty then (literals, .matchNone) else (addresses, .matchAny)

/-- The books a side lists. -/
def listedBooks (bookIds : List UInt32) : List AddressBookSnapshot :=
  books.filter fun book => bookIds.contains book.id

/-- One side as the parser reads it. -/
def sideSpec (bookIds : List UInt32) (literals addresses : List String) (excluded unavailable : Bool) :
    SideSpec :=
  if unavailable then ⟨[everyAddress 32], [everyAddress 128], false⟩
  else
    let (tokens, empty) := sideTokens bookIds literals addresses
    { v4 := literalPartV4 addrs tokens empty ++ (listedBooks books bookIds).flatMap (bookV4 addrs)
      v6 := literalPartV6 addrs tokens empty ++ (listedBooks books bookIds).flatMap (bookV6 addrs)
      excluded := excluded }

/-- The source of a rule. -/
def sourceSpec (snap : PolicyRuleSnapshot) : SideSpec :=
  sideSpec addrs books snap.sourceBookIds snap.sourceLiterals snap.sourceAddresses
    snap.sourceAddressExcluded (dnsUnavailable snap .source)

/-- The destination of a rule. -/
def destinationSpec (snap : PolicyRuleSnapshot) : SideSpec :=
  sideSpec addrs books snap.destinationBookIds snap.destinationLiterals snap.destinationAddresses
    snap.destinationAddressExcluded (dnsUnavailable snap .destination)

/-- Both addresses; an IPv4 source with an IPv6 destination is no flow. -/
def addressesHold (snap : PolicyRuleSnapshot) (srcIp dstIp : IpAddr) : Bool :=
  match srcIp, dstIp with
  | .v4 _, .v6 _ => false
  | src, dst => (sourceSpec addrs books snap).holds src && (destinationSpec addrs books snap).holds dst

/-- The action of an accepted rule; one whose names could not be looked up denies. -/
def actionOf (snap : PolicyRuleSnapshot) : PolicyAction :=
  if dnsUnavailable snap .source || dnsUnavailable snap .destination then .deny
  else (parseAction snap.action).getD .deny

end Addresses

/-! ## Application terms -/

/-- The compiled form of a term that was not dropped. -/
def matchOf (term : PolicyApplicationSnapshot) (t : UInt8 × List PortRange × List PortRange) :
    ApplicationMatch where
  protocol := t.1
  sourcePorts := t.2.1
  destinationPorts := t.2.2
  icmpType := term.icmpType
  icmpCode := term.icmpCode
  inactivityTimeout := termTimeout term

/-- A term that the parser keeps. -/
structure Kept (term : PolicyApplicationSnapshot) (app : ApplicationMatch) : Prop where
  exists_ports : ∃ t, termPorts term = some t ∧ app = matchOf term t
  icmp_ok : icmpFieldsError term app.protocol = none
  port_ok : portProtocolError term app.protocol app.sourcePorts app.destinationPorts = none

/-- No error was found so far. -/
def ParsedApplications.Clean (parsed : ParsedApplications) : Prop :=
  parsed.droppedAny = false ∧ parsed.invalidIcmp = none ∧ parsed.invalidPortProtocol = none

theorem parseApplications_kept (terms : List PolicyApplicationSnapshot)
    (hclean : (parseApplications terms).Clean) :
    List.Forall₂ Kept (terms.filter fun term => (dnsUnavailableQuarantineSide term).isNone)
      (parseApplications terms).appMatches := by
  induction terms using List.reverseRecOn with
  | nil => exact .nil
  | append_singleton terms term ih =>
    have hstep : parseApplications (terms ++ [term]) = (parseApplications terms).add term := by
      rw [parseApplications, List.foldl_append]
      rfl
    rw [hstep] at hclean ⊢
    rw [List.filter_append]
    rw [ParsedApplications.add] at hclean ⊢
    cases hside : dnsUnavailableQuarantineSide term with
    | some side =>
      rw [hside, Option.isSome_some, if_pos rfl] at hclean
      simpa [hside] using ih hclean
    | none =>
      simp only [hside, Option.isSome_none, Bool.false_eq_true, if_false] at hclean ⊢
      cases hports : termPorts term with
      | none =>
        rw [hports] at hclean
        cases hclean.1
      | some t =>
        obtain ⟨protocol, sourcePorts, destinationPorts⟩ := t
        rw [hports] at hclean
        obtain ⟨hdropped, hicmp, hport⟩ := hclean
        rw [Option.or_eq_none_iff] at hicmp hport
        have hkept : Kept term (matchOf term (protocol, sourcePorts, destinationPorts)) :=
          ⟨⟨_, hports, rfl⟩, hicmp.2, hport.2⟩
        have htail : [term].filter (fun term => (dnsUnavailableQuarantineSide term).isNone) = [term] := by
          simp [hside]
        rw [htail]
        exact List.rel_append (ih ⟨hdropped, hicmp.1, hport.1⟩) (.cons hkept .nil)

theorem applicationError_none {ruleId : String} {parsed : ParsedApplications}
    (h : applicationError ruleId parsed = none) : parsed.Clean := by
  rw [applicationError] at h
  split_ifs at h with hdropped
  rw [Option.or_eq_none_iff, Option.map_eq_none_iff, Option.map_eq_none_iff] at h
  exact ⟨Bool.eq_false_iff.mpr hdropped, h.1, h.2⟩

/-- A kept term covers a packet exactly when its texts say so. The terms for an ICMP type
have no ports, since only TCP and UDP terms may. -/
theorem Kept.covers {term : PolicyApplicationSnapshot} {app : ApplicationMatch} (h : Kept term app)
    (q : PolicyQuery) :
    (decide (app.protocol = q.protocol) && app.covers q.srcPort q.dstPort q.packetIcmp true)
      = termHolds q term := by
  obtain ⟨⟨t, hports, rfl⟩, hicmp, hport⟩ := h
  obtain ⟨protocol, sourcePorts, destinationPorts⟩ := t
  rw [termHolds, hports, Option.any_some]
  change (decide (protocol = q.protocol)
    && (matchOf term (protocol, sourcePorts, destinationPorts)).covers _ _ _ true) = _
  rw [ApplicationMatch.covers]
  simp only [matchOf] at hicmp hport ⊢
  rw [icmpFieldsError] at hicmp
  rw [portProtocolError] at hport
  split_ifs at hicmp with hfamily hcode
  split_ifs at hport with hbearing
  cases htype : term.icmpType with
  | none =>
    have hnocode : term.icmpCode = none := by
      cases hc : term.icmpCode with
      | none => rfl
      | some code => exact absurd (by simp [hc, htype]) hcode
    simp only [hnocode, Option.isNone_none, Bool.and_self, Bool.true_or, Bool.and_true, Bool.true_and]
    cases hsource : sourcePorts.isEmpty <;> cases hdestination : destinationPorts.isEmpty <;>
      simp [portRangesMatch, hsource, hdestination, Bool.and_assoc]
  | some type =>
    -- the protocol is an ICMP one, so no port list may be there
    have hprotocol : protocol = protoIcmp ∨ protocol = protoIcmpv6 := by
      by_contra hother
      rw [not_or] at hother
      exact hfamily (by simp [htype, hother.1, hother.2])
    have hempty : sourcePorts = [] ∧ destinationPorts = [] := by
      have hnotports : protocol ≠ protoTcp ∧ protocol ≠ protoUdp := by
        rcases hprotocol with rfl | rfl <;> decide
      by_contra hsome
      apply hbearing
      rw [not_and_or] at hsome
      simp only [hnotports.1, hnotports.2, ne_eq, not_false_eq_true, decide_true, Bool.true_and,
        Bool.or_eq_true, Bool.not_eq_true', List.isEmpty_eq_false_iff]
      exact hsome
    obtain ⟨rfl, rfl⟩ := hempty
    simp [portRangesMatch]

theorem appMatch_of_kept {snap : PolicyRuleSnapshot} {apps : List ApplicationMatch}
    (h : List.Forall₂ Kept (listedTerms snap) apps) {q : PolicyQuery} (hl4 : q.l4Present = true) :
    (CompiledApplications.fromMatches apps).matches q.protocol q.srcPort q.dstPort q.packetIcmp q.l4Present
      = applicationHolds q snap := by
  rw [fromMatches_matches, applicationHolds, hl4]
  have hempty : apps.isEmpty = (listedTerms snap).isEmpty := by
    rw [Bool.eq_iff_iff, List.isEmpty_iff_length_eq_zero, List.isEmpty_iff_length_eq_zero, h.length_eq]
  rw [hempty]
  congr 1
  clear hempty
  generalize listedTerms snap = terms at h ⊢
  induction h with
  | nil => rfl
  | @cons term app terms apps hkept _ ih =>
    have hcovers := hkept.covers q
    simp only [List.find?_cons, hcovers]
    cases termHolds q term with
    | true =>
      obtain ⟨⟨t, -, rfl⟩, -, -⟩ := hkept
      rfl
    | false => exact ih

/-! ## Parsed rules -/

section Rules

variable {addrs : AddrParsers} {books : List AddressBookSnapshot} {acc : List BookEntry × Table UInt32 ℕ}

/-- The sets and flags of one side answer as the side asks. -/
theorem buildAddressSide_spec (hbooks : BooksOf addrs books acc) {ids : List UInt32} {ruleId : String}
    {idxs : List ℕ} (hidxs : resolveBookIdxs acc.2 ids ruleId = .ok idxs) (literals addresses : List String)
    (excluded unavailable : Bool) {side : AddressSide} {spec : SideSpec}
    (hside : side = buildAddressSide acc.1 (sideLiterals addrs ids literals addresses).1
      (sideLiterals addrs ids literals addresses).2.1 idxs excluded unavailable)
    (hspec : spec = sideSpec addrs books ids literals addresses excluded unavailable) :
    (∀ ip, sideMatches side.excluded side.v4Empty side.v6Empty side.v4MatchAny side.literalV4
        ((side.bookIdxs.filterMap fun i => acc.1[i]?).map (·.v4)) ip = spec.holds (.v4 ip))
      ∧ ∀ ip, sideMatches side.excluded side.v4Empty side.v6Empty side.v6MatchAny side.literalV6
        ((side.bookIdxs.filterMap fun i => acc.1[i]?).map (·.v6)) ip = spec.holds (.v6 ip) := by
  -- both families of the side are unions of prefixes
  have hunion : UnionOf side.literalV4 ((side.bookIdxs.filterMap fun i => acc.1[i]?).map (·.v4)) spec.v4
      ∧ UnionOf side.literalV6 ((side.bookIdxs.filterMap fun i => acc.1[i]?).map (·.v6)) spec.v6
      ∧ side.excluded = spec.excluded := by
    subst hside hspec
    cases unavailable with
    | true =>
      exact ⟨unionOf_matchAny, unionOf_matchAny, by simp [buildAddressSide, sideSpec]⟩
    | false =>
      obtain ⟨hto, hfrom⟩ := hbooks.resolved hidxs
      have hliterals : ∃ tokens empty, sideTokens ids literals addresses = (tokens, empty)
          ∧ sideLiterals addrs ids literals addresses = buildLiteralSide addrs tokens empty := by
        rw [sideTokens, sideLiterals]
        split_ifs
        · exact ⟨_, _, rfl, rfl⟩
        · exact ⟨_, _, rfl, rfl⟩
      obtain ⟨tokens, empty, htokens, hliterals⟩ := hliterals
      obtain ⟨h4, h6⟩ := standsFor_buildLiteralSide addrs tokens empty
      simp only [sideSpec, buildAddressSide, htokens, hliterals, Bool.false_eq_true, if_false, Bool.not_false,
        Bool.and_true, and_true]
      constructor
      · refine unionOf_append h4 ?_ ?_
        · intro b hb
          obtain ⟨entry, hentry, rfl⟩ := List.mem_map.mp hb
          obtain ⟨snap, hsnap, hbook⟩ := hto entry hentry
          exact ⟨snap, hsnap, hbook.v4⟩
        · intro snap hsnap
          obtain ⟨entry, hentry, hbook⟩ := hfrom snap hsnap
          exact ⟨entry.v4, List.mem_map_of_mem hentry, hbook.v4⟩
      · refine unionOf_append h6 ?_ ?_
        · intro b hb
          obtain ⟨entry, hentry, rfl⟩ := List.mem_map.mp hb
          obtain ⟨snap, hsnap, hbook⟩ := hto entry hentry
          exact ⟨snap, hsnap, hbook.v6⟩
        · intro snap hsnap
          obtain ⟨entry, hentry, hbook⟩ := hfrom snap hsnap
          exact ⟨entry.v6, List.mem_map_of_mem hentry, hbook.v6⟩
  obtain ⟨h4, h6, hexcluded⟩ := hunion
  have hflags : side.v4Empty = familyEmpty side.literalV4 ((side.bookIdxs.filterMap fun i => acc.1[i]?).map (·.v4))
      ∧ side.v6Empty = familyEmpty side.literalV6 ((side.bookIdxs.filterMap fun i => acc.1[i]?).map (·.v6))
      ∧ side.v4MatchAny
        = familyMatchAny side.literalV4 ((side.bookIdxs.filterMap fun i => acc.1[i]?).map (·.v4))
      ∧ side.v6MatchAny
        = familyMatchAny side.literalV6 ((side.bookIdxs.filterMap fun i => acc.1[i]?).map (·.v6)) := by
    subst hside
    exact ⟨rfl, rfl, rfl, rfl⟩
  obtain ⟨he4, he6, hm4, hm6⟩ := hflags
  rw [he4, he6, hm4, hm6, hexcluded]
  exact ⟨fun ip => sideMatches_eq h4 h6 h4 _ ip, fun ip => sideMatches_eq h4 h6 h6 _ ip⟩

/-- A zone name of a scope that was accepted resolves. -/
theorem zoneId_of_ok {zoneNameToId : String → Option UInt32} {name ruleId : String} {i : UInt32}
    (h : (if name.isEmpty then
        (.error (.unresolvableZoneReference ruleId name) : Except SnapshotIntegrityError UInt32)
      else match resolvePolicyZoneId zoneNameToId name with
        | some id => .ok id
        | none => .error (.unresolvableZoneReference ruleId name)) = .ok i) :
    resolvePolicyZoneId zoneNameToId name = some i := by
  split_ifs at h
  cases hres : resolvePolicyZoneId zoneNameToId name with
  | none =>
    rw [hres] at h
    cases h
  | some id =>
    rw [hres] at h
    rw [Except.ok.inj h]

theorem buildGlobalZoneScope_ok {zoneNameToId : String → Option UInt32} {names : List String}
    {ruleId : String} {scope : GlobalZoneScope}
    (h : buildGlobalZoneScope zoneNameToId names ruleId = .ok scope) (id : UInt32) :
    scope.matches id = scopeHolds zoneNameToId names id := by
  rw [buildGlobalZoneScope] at h
  rw [scopeHolds]
  cases hany : names.isEmpty || names.any fun n => decide (n = "any") with
  | true =>
    rw [hany, if_pos rfl] at h
    obtain rfl := Except.ok.inj h
    rfl
  | false =>
    rw [hany, if_neg Bool.false_ne_true] at h
    obtain ⟨ids, hids, h⟩ := ok_of_bind h
    obtain rfl := Except.ok.inj h
    have hall := mapM_ok hids
    rw [Bool.false_or, GlobalZoneScope.matches, Bool.eq_iff_iff, List.contains_iff_mem, List.mem_dedup,
      List.mem_insertionSort, List.any_eq_true]
    simp only [decide_eq_true_eq]
    constructor
    · intro hid
      obtain ⟨name, hname, hok⟩ := exists_of_forall₂ (List.Forall₂.flip hall) hid
      exact ⟨name, hname, zoneId_of_ok hok⟩
    · rintro ⟨name, hname, hid⟩
      obtain ⟨i, hi, hok⟩ := exists_of_forall₂ hall hname
      obtain rfl : i = id := Option.some.inj ((zoneId_of_ok hok).symm.trans hid)
      exact hi

/-- A parsed rule does what its snapshot says. -/
structure RuleOf (addrs : AddrParsers) (zoneNameToId : String → Option UInt32)
    (books : List AddressBookSnapshot) (entries : List BookEntry) (snap : PolicyRuleSnapshot)
    (rule : PolicyRule) : Prop where
  policyId : rule.policyId = snap.policyId
  action : rule.action = actionOf snap
  schedulerName : rule.schedulerName = snap.schedulerName
  inactive : rule.inactive = snap.inactive
  application : ∀ q : PolicyQuery, q.l4Present = true → appMatch q rule = applicationHolds q snap
  addresses : ∀ st : PolicyState, st.books = entries → ∀ srcIp dstIp,
    ruleL3Matches rule st srcIp dstIp = addressesHold addrs books snap srcIp dstIp
  fromScope : ∀ id, rule.globalFromZone.matches id
    = scopeHolds zoneNameToId (effectiveMatchZones snap.matchFromZones snap.matchFromZone) id
  toScope : ∀ id, rule.globalToZone.matches id
    = scopeHolds zoneNameToId (effectiveMatchZones snap.matchToZones snap.matchToZone) id

theorem failOn_ok {e : Option SnapshotIntegrityError} {u : Unit} (h : failOn e = .ok u) : e = none := by
  cases e with
  | none => rfl
  | some e => cases h

/-- **Every accepted rule** does what its snapshot says. -/
theorem parseRule_ok {zoneNameToId : String → Option UInt32} (hbooks : BooksOf addrs books acc)
    {snap : PolicyRuleSnapshot} {rule : PolicyRule}
    (h : parseRule addrs zoneNameToId acc.1 acc.2 snap = .ok rule) :
    RuleOf addrs zoneNameToId books acc.1 snap rule := by
  rw [parseRule] at h
  obtain ⟨_, -, h⟩ := ok_of_bind h
  obtain ⟨sourceIdxs, hsource, h⟩ := ok_of_bind h
  obtain ⟨destinationIdxs, hdestination, h⟩ := ok_of_bind h
  obtain ⟨_, hclean, h⟩ := ok_of_bind h
  obtain ⟨action, haction, h⟩ := ok_of_bind h
  obtain ⟨globalFrom, hfrom, h⟩ := ok_of_bind h
  obtain ⟨globalTo, hto, h⟩ := ok_of_bind h
  obtain rfl := Except.ok.inj h
  have hparsed : parseAction snap.action = some action := by
    rw [ruleAction] at haction
    cases hparse : parseAction snap.action with
    | none =>
      rw [hparse] at haction
      cases haction
    | some action' =>
      rw [hparse] at haction
      rw [Except.ok.inj haction]
  have hkept := parseApplications_kept snap.applicationTerms (applicationError_none (failOn_ok hclean))
  obtain ⟨hs4, hs6⟩ := buildAddressSide_spec hbooks hsource snap.sourceLiterals snap.sourceAddresses
    snap.sourceAddressExcluded (dnsUnavailable snap .source) rfl rfl
  obtain ⟨hd4, hd6⟩ := buildAddressSide_spec hbooks hdestination snap.destinationLiterals
    snap.destinationAddresses snap.destinationAddressExcluded (dnsUnavailable snap .destination) rfl rfl
  refine ⟨rfl, ?_, rfl, rfl, ?_, ?_, buildGlobalZoneScope_ok hfrom, buildGlobalZoneScope_ok hto⟩
  · simp only [actionOf, hparsed, Option.getD_some]
  · intro q hl4
    exact appMatch_of_kept hkept hl4
  · intro st hst srcIp dstIp
    rw [← hst] at hs4 hs6 hd4 hd6 ⊢
    cases srcIp with
    | v4 src =>
      cases dstIp with
      | v4 dst => exact congrArg₂ and (hs4 src) (hd4 dst)
      | v6 dst => rfl
    | v6 src =>
      cases dstIp with
      | v4 dst => exact congrArg₂ and (hs6 src) (hd4 dst)
      | v6 dst => exact congrArg₂ and (hs6 src) (hd6 dst)

end Rules

end Xpf.Policies
