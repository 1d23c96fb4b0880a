/-
From a snapshot to the policy state: `parse_policy_state_with_counters_and_functional` of
`userspace-dp/src/policy.rs`, with `ip_proto::proto_number`.

The parser fails closed: a rule it cannot represent rejects the whole snapshot. The texts of
addresses are read by the `ipnet` crate and the standard library; they are a parameter
(`AddrParsers`), and everything below holds whatever they accept. The zone table is its
lookup function.
-/
import Xpf.PolicyRules

set_option autoImplicit false

namespace Xpf.Policies

open Xpf.Tables Xpf.PrefixSets
open Xpf.Filters (PortRange protoIcmp protoTcp protoUdp protoIcmpv6)

/-! ## The snapshot -/

/-- `PolicyApplicationSnapshot`. -/
structure PolicyApplicationSnapshot where
  name : String
  protocol : String
  sourcePort : String
  destinationPort : String
  icmpType : Option UInt8
  icmpCode : Option UInt8
  inactivityTimeout : Option UInt32

/-- `PolicyRuleSnapshot`. -/
structure PolicyRuleSnapshot where
  ruleId : String
  policyId : UInt32
  name : String
  fromZone : String
  toZone : String
  schedulerName : String
  inactive : Bool
  sourceAddresses : List String
  destinationAddresses : List String
  sourceBookIds : List UInt32
  destinationBookIds : List UInt32
  sourceLiterals : List String
  destinationLiterals : List String
  applicationTerms : List PolicyApplicationSnapshot
  action : String
  sourceAddressExcluded : Bool
  destinationAddressExcluded : Bool
  logSessionInit : Bool
  logSessionClose : Bool
  matchFromZone : String
  matchToZone : String
  matchFromZones : List String
  matchToZones : List String

/-- `AddressBookSnapshot`. -/
structure AddressBookSnapshot where
  id : UInt32
  name : String
  prefixesV4 : List String
  prefixesV6 : List String

/-- The `context` of an unknown action: `"default-policy"`, or `"rule "` and the quoted id. -/
inductive ActionContext where
  | defaultPolicy
  | rule (ruleId : String)
deriving DecidableEq

/-- `SnapshotIntegrityError`: the variants of the policy parser. -/
inductive SnapshotIntegrityError where
  | addressBookIdZero
  | duplicateAddressBookId (id : UInt32)
  | duplicateRuleId (ruleId : String)
  | duplicatePolicyId (policyId : UInt32)
  | unknownAddressBookId (ruleId : String) (bookId : UInt32)
  | unrepresentableApplicationProtocol (ruleId : String)
  | invalidApplicationIcmpFields (ruleId application reason : String)
  | invalidApplicationPortProtocol (ruleId application reason : String) (protocol : UInt8)
  | unrepresentableAddress (ruleId : String)
  | unrepresentableLegacyAddress (ruleId address : String)
  | unrepresentableV3Address (ruleId address : String)
  | unrepresentableAddressBookPrefix (bookId : UInt32) (bookName family address : String)
  | addressBookPrefixBudgetExceeded (bookId : UInt32) (bookName family : String) (ranges limit : ℕ)
  | unresolvableZoneReference (ruleId zone : String)
  | unknownPolicyAction (context : ActionContext) (action : String)

/-! ## Applications -/

/-- `char::is_whitespace`. -/
def isWhitespace (c : Char) : Bool :=
  let n := c.toNat
  (9 ≤ n && n ≤ 13) || n = 0x20 || n = 0x85 || n = 0xA0 || n = 0x1680 || (0x2000 ≤ n && n ≤ 0x200A)
    || n = 0x2028 || n = 0x2029 || n = 0x202F || n = 0x205F || n = 0x3000

/-- `trim().to_ascii_lowercase()`. -/
def trimLower (s : String) : String :=
  String.ofList
    ((((s.toList.dropWhile isWhitespace).reverse.dropWhile isWhitespace).reverse).map Char.toLower)

/-- `parse` of a token that is one or more ASCII digits, up to the maximum of its type. -/
def parseDigits (max : ℕ) (tok : String) : Option ℕ :=
  let digits := tok.toList
  if digits.isEmpty || !digits.all Char.isDigit then none
  else
    let value := digits.foldl (fun n c => 10 * n + (c.toNat - '0'.toNat)) 0
    if value ≤ max then some value else none

/-- `proto_number`. -/
def protoNumber (name : String) : Option UInt8 :=
  match trimLower name with
  | "tcp" | "junos-tcp-any" => some protoTcp
  | "udp" | "junos-udp-any" => some protoUdp
  | "icmp" | "junos-icmp-all" | "junos-ping" => some protoIcmp
  | "icmp6" | "icmpv6" | "icmp-v6" | "junos-icmp6-all" | "junos-pingv6" => some protoIcmpv6
  | "gre" | "junos-gre" => some 47
  | "ospf" | "junos-ospf" => some 89
  | "ipip" | "junos-ip-in-ip" | "junos-ipip" => some 4
  | "ipv6" => some 41
  | "egp" => some 8
  | "igmp" => some 2
  | "pim" => some 103
  | "ah" => some 51
  | "esp" => some 50
  | "sctp" => some 132
  | "vrrp" => some 112
  | _ => (parseDigits 255 name).map UInt8.ofNat

/-- `parse_port_u16`. -/
def parsePortU16 (tok : String) : Option UInt16 := (parseDigits 65535 tok).map UInt16.ofNat

/-- The service names of `parse_port_spec`. -/
def normalizePort (spec : String) : String :=
  match spec with
  | "http" => "80"
  | "https" => "443"
  | "ssh" => "22"
  | "telnet" => "23"
  | "ftp" => "21"
  | "ftp-data" => "20"
  | "smtp" => "25"
  | "dns" => "53"
  | "pop3" => "110"
  | "imap" => "143"
  | "snmp" => "161"
  | "ntp" => "123"
  | "bgp" => "179"
  | "ldap" => "389"
  | "syslog" => "514"
  | other => other

/-- `parse_port_spec`. -/
def parsePortSpec (spec : String) : Option (List PortRange) :=
  if spec.isEmpty then some []
  else
    let normalized := normalizePort spec
    let low := normalized.toList.takeWhile (· ≠ '-')
    match normalized.toList.dropWhile (· ≠ '-') with
    | _ :: high => do
      let low ← parsePortU16 (String.ofList low)
      let high ← parsePortU16 (String.ofList high)
      if high < low then none else some [⟨low, high⟩]
    | [] => do
      let port ← parsePortU16 normalized
      if port = 0 then none else some [⟨port, port⟩]

/-- `DnsUnavailableQuarantineSide`. -/
inductive DnsUnavailableQuarantineSide where
  | source
  | destination
deriving DecidableEq

/-- `dns_unavailable_quarantine_side`: the two marker terms. -/
def dnsUnavailableQuarantineSide (term : PolicyApplicationSnapshot) :
    Option DnsUnavailableQuarantineSide :=
  if !term.sourcePort.isEmpty || !term.destinationPort.isEmpty || term.icmpType.isSome
      || term.icmpCode.isSome || term.inactivityTimeout.isSome then none
  else if term.name = "__dns_unavailable_source__" && term.protocol = "__dns_unavailable_source__" then
    some .source
  else if term.name = "__dns_unavailable_destination__"
      && term.protocol = "__dns_unavailable_destination__" then some .destination
  else none

/-- `ParsedApplications`; `appMatches` is its field `matches`. -/
structure ParsedApplications where
  appMatches : List ApplicationMatch
  droppedAny : Bool
  invalidIcmp : Option (String × String)
  invalidPortProtocol : Option (String × String × UInt8)

/-- The ICMP fields of a term against its protocol. -/
def icmpFieldsError (term : PolicyApplicationSnapshot) (protocol : UInt8) : Option (String × String) :=
  if (term.icmpType.isSome || term.icmpCode.isSome) && !(protocol = protoIcmp || protocol = protoIcmpv6) then
    some (term.name, "icmp-type/icmp-code set on a non-ICMP protocol")
  else if term.icmpCode.isSome && term.icmpType.isNone then
    some (term.name, "icmp-code set without icmp-type")
  else none

/-- The ports of a term against its protocol. -/
def portProtocolError (term : PolicyApplicationSnapshot) (protocol : UInt8)
    (sourcePorts destinationPorts : List PortRange) : Option (String × String × UInt8) :=
  if protocol ≠ protoTcp && protocol ≠ protoUdp && (!sourcePorts.isEmpty || !destinationPorts.isEmpty) then
    some (term.name,
      if !destinationPorts.isEmpty then "destination-port set on a non-port-bearing protocol"
      else "source-port set on a non-port-bearing protocol", protocol)
  else none

/-- The protocol and the ports of a term, or `none` where the source drops it. -/
def termPorts (term : PolicyApplicationSnapshot) : Option (UInt8 × List PortRange × List PortRange) := do
  let protocol ← protoNumber term.protocol
  let sourcePorts ← parsePortSpec term.sourcePort
  let destinationPorts ← parsePortSpec term.destinationPort
  return (protocol, sourcePorts, destinationPorts)

/-- One round of `parse_applications`. -/
def ParsedApplications.add (out : ParsedApplications) (term : PolicyApplicationSnapshot) :
    ParsedApplications :=
  if (dnsUnavailableQuarantineSide term).isSome then out
  else
    match termPorts term with
    | none => { out with droppedAny := true }
    | some (protocol, sourcePorts, destinationPorts) =>
      { out with
        invalidIcmp := out.invalidIcmp.or (icmpFieldsError term protocol)
        invalidPortProtocol := out.invalidPortProtocol.or
          (portProtocolError term protocol sourcePorts destinationPorts)
        appMatches := out.appMatches ++ [{
          protocol := protocol
          sourcePorts := sourcePorts
          destinationPorts := destinationPorts
          icmpType := term.icmpType
          icmpCode := term.icmpCode
          inactivityTimeout := term.inactivityTimeout.filter fun t => 0 < t }] }

/-- `parse_applications`. -/
def parseApplications (terms : List PolicyApplicationSnapshot) : ParsedApplications :=
  terms.foldl ParsedApplications.add ⟨[], false, none, none⟩

/-! ## Addresses -/

/-- `IpNet`. -/
inductive IpNet where
  | v4 (addr : BitVec 32) (prefixLen : ℕ) (h : prefixLen ≤ 32)
  | v6 (addr : BitVec 128) (prefixLen : ℕ) (h : prefixLen ≤ 128)

/-- `str::parse` at `IpNet`, `Ipv4Addr` and `Ipv6Addr`. -/
structure AddrParsers where
  ipNet : String → Option IpNet
  ipv4Addr : String → Option (BitVec 32)
  ipv6Addr : String → Option (BitVec 128)

/-- `AddrToken`. -/
inductive AddrToken where
  | any
  | anyV4
  | anyV6
  | ipNet (net : IpNet)
  | malformed

/-- `classify_addr_token`. -/
def classifyAddrToken (addrs : AddrParsers) (tok : String) : AddrToken :=
  match tok with
  | "any" => .any
  | "any4" | "any-ipv4" => .anyV4
  | "any6" | "any-ipv6" => .anyV6
  | "" => .malformed
  | s =>
    match addrs.ipNet s with
    | some net => .ipNet net
    | none =>
      match addrs.ipv4Addr s with
      | some ip => .ipNet (.v4 ip 32 (le_refl 32))
      | none =>
        match addrs.ipv6Addr s with
        | some ip => .ipNet (.v6 ip 128 (le_refl 128))
        | none => .malformed

/-- `EmptyMeans`. -/
inductive EmptyMeans where
  | matchAny
  | matchNone
deriving DecidableEq

/-- The locals of the loop of `build_literal_side`. -/
structure LiteralTokens where
  anyV4 : Bool
  anyV6 : Bool
  v4 : List (Prefix 32)
  v6 : List (Prefix 128)
  malformed : Option String

/-- One round of the loop of `build_literal_side`. -/
def LiteralTokens.add (addrs : AddrParsers) (acc : LiteralTokens) (tok : String) : LiteralTokens :=
  match classifyAddrToken addrs tok with
  | .any => { acc with anyV4 := true, anyV6 := true }
  | .anyV4 => { acc with anyV4 := true }
  | .anyV6 => { acc with anyV6 := true }
  | .ipNet (.v4 addr len h) => { acc with v4 := acc.v4 ++ [Prefix.fromNet addr len h] }
  | .ipNet (.v6 addr len h) => { acc with v6 := acc.v6 ++ [Prefix.fromNet addr len h] }
  | .malformed => { acc with malformed := acc.malformed.or (some tok) }

/-- The tokens of one side of a rule. -/
def literalTokens (addrs : AddrParsers) (tokens : List String) : LiteralTokens :=
  tokens.foldl (LiteralTokens.add addrs) ⟨false, false, [], [], none⟩

/-- `v4_set` and `v6_set` of `build_literal_side`. -/
def literalSet {w : ℕ} (matchAny familyScoped : Bool) (empty : EmptyMeans) (prefixes : List (Prefix w)) :
    PrefixSet w :=
  if matchAny then .matchAny
  else if familyScoped || empty = .matchNone then fromV3Literals prefixes
  else fromPrefixes prefixes

/-- `build_literal_side`. -/
def buildLiteralSide (addrs : AddrParsers) (tokens : List String) (empty : EmptyMeans) :
    PrefixSet 32 × PrefixSet 128 × Option String :=
  let acc := literalTokens addrs tokens
  let familyScoped := acc.anyV4 || acc.anyV6
  (literalSet acc.anyV4 familyScoped empty acc.v4, literalSet acc.anyV6 familyScoped empty acc.v6, acc.malformed)

/-- `is_match_any`. -/
def isMatchAny {w : ℕ} (s : PrefixSet w) : Bool := s = .matchAny

/-- `is_match_none`. -/
def isMatchNone {w : ℕ} (s : PrefixSet w) : Bool := s = .matchNone

/-- `parse_book_prefix_into` at the IPv4 list of a book. -/
def bookPrefixV4 (addrs : AddrParsers) (tok : String) : Option (Prefix 32) :=
  match classifyAddrToken addrs tok with
  | .anyV4 => some (Prefix.fromNet 0 0 (Nat.zero_le _))
  | .ipNet (.v4 addr len h) => some (Prefix.fromNet addr len h)
  | _ => none

/-- `parse_book_prefix_into` at the IPv6 list of a book. -/
def bookPrefixV6 (addrs : AddrParsers) (tok : String) : Option (Prefix 128) :=
  match classifyAddrToken addrs tok with
  | .anyV6 => some (Prefix.fromNet 0 0 (Nat.zero_le _))
  | .ipNet (.v6 addr len h) => some (Prefix.fromNet addr len h)
  | _ => none

/-- The loop over one list of a book. -/
def bookPrefixes {w : ℕ} (snap : AddressBookSnapshot) (family : String)
    (parse : String → Option (Prefix w)) (tokens : List String) :
    Except SnapshotIntegrityError (List (Prefix w)) :=
  tokens.mapM fun tok =>
    match parse tok with
    | some p => .ok p
    | none => .error (.unrepresentableAddressBookPrefix snap.id snap.name family tok)

/-- `try_from_v3_literals` with the error of the parser. -/
def bookSet {w : ℕ} (snap : AddressBookSnapshot) (family : String) (prefixes : List (Prefix w)) :
    Except SnapshotIntegrityError (PrefixSet w) :=
  match tryFromV3Literals prefixes with
  | .ok s => .ok s
  | .error e => .error (.addressBookPrefixBudgetExceeded snap.id snap.name family e.ranges e.limit)

/-- One round of the loop over the address books. -/
def addBook (addrs : AddrParsers) (acc : List BookEntry × Table UInt32 ℕ) (snap : AddressBookSnapshot) :
    Except SnapshotIntegrityError (List BookEntry × Table UInt32 ℕ) :=
  if snap.id = 0 then .error .addressBookIdZero
  else if (acc.2.lookup snap.id).isSome then .error (.duplicateAddressBookId snap.id)
  else do
    let v4 ← bookPrefixes snap "v4" (bookPrefixV4 addrs) snap.prefixesV4
    let v6 ← bookPrefixes snap "v6" (bookPrefixV6 addrs) snap.prefixesV6
    let v4 ← bookSet snap "v4" v4
    let v6 ← bookSet snap "v6" v6
    return (acc.1 ++ [⟨v4, v6⟩], acc.2.insert snap.id acc.1.length)

/-- `resolve_book_idxs`. -/
def resolveBookIdxs (bookIdToIdx : Table UInt32 ℕ) (ids : List UInt32) (ruleId : String) :
    Except SnapshotIntegrityError (List ℕ) :=
  (ids.insertionSort (· ≤ ·)).dedup.mapM fun id =>
    match bookIdToIdx.lookup id with
    | some idx => .ok idx
    | none => .error (.unknownAddressBookId ruleId id)

/-! ## Rules -/

/-- `parse_action`. -/
def parseAction (action : String) : Option PolicyAction :=
  match action with
  | "permit" => some .permit
  | "reject" => some .reject
  | "deny" => some .deny
  | _ => none

/-- `stable_policy_rule_id`. -/
def stablePolicyRuleId (snap : PolicyRuleSnapshot) : String :=
  if !snap.ruleId.isEmpty then snap.ruleId
  else snap.fromZone ++ "->" ++ snap.toZone ++ "/" ++ snap.name

/-- `rule_has_unrepresentable_address_sentinel`. -/
def ruleHasUnrepresentableAddressSentinel (snap : PolicyRuleSnapshot) : Bool :=
  let hit := fun list : List String => list.any fun a => a = "__unsupported_address__"
  hit snap.sourceLiterals || hit snap.destinationLiterals || hit snap.sourceAddresses
    || hit snap.destinationAddresses

/-- `resolve_policy_zone_id`. -/
def resolvePolicyZoneId (zoneNameToId : String → Option UInt32) (name : String) : Option UInt32 :=
  if name = "junos-host" then some junosHostZoneId else zoneNameToId name

/-- `effective_match_zones`. -/
def effectiveMatchZones (plural : List String) (singular : String) : List String :=
  if !plural.isEmpty then plural else if !singular.isEmpty then [singular] else []

/-- `build_global_zone_scope`. -/
def buildGlobalZoneScope (zoneNameToId : String → Option UInt32) (names : List String) (ruleId : String) :
    Except SnapshotIntegrityError GlobalZoneScope :=
  if names.isEmpty || names.any fun n => n = "any" then .ok .any
  else do
    let ids ← names.mapM fun name =>
      if name.isEmpty then .error (.unresolvableZoneReference ruleId name)
      else
        match resolvePolicyZoneId zoneNameToId name with
        | some id => .ok id
        | none => .error (SnapshotIntegrityError.unresolvableZoneReference ruleId name)
    return .zones (ids.insertionSort (· ≤ ·)).dedup

/-- One address side of a rule, before it is spread over the fields of `PolicyRule`. -/
structure AddressSide where
  literalV4 : PrefixSet 32
  literalV6 : PrefixSet 128
  bookIdxs : List ℕ
  v4MatchAny : Bool
  v6MatchAny : Bool
  v4Empty : Bool
  v6Empty : Bool
  excluded : Bool

/-- The `*_match_any` flag of one family. -/
def familyMatchAny {w : ℕ} (literal : PrefixSet w) (books : List (PrefixSet w)) : Bool :=
  isMatchAny literal || books.any isMatchAny

/-- The `*_empty` flag of one family. -/
def familyEmpty {w : ℕ} (literal : PrefixSet w) (books : List (PrefixSet w)) : Bool :=
  !familyMatchAny literal books && isMatchNone literal && books.all isMatchNone

/-- The flags of one side; a side whose names could not be looked up matches everything. -/
def buildAddressSide (books : List BookEntry) (literalV4 : PrefixSet 32) (literalV6 : PrefixSet 128)
    (bookIdxs : List ℕ) (excluded dnsUnavailable : Bool) : AddressSide :=
  let literalV4 := if dnsUnavailable then .matchAny else literalV4
  let literalV6 := if dnsUnavailable then .matchAny else literalV6
  let bookIdxs := if dnsUnavailable then [] else bookIdxs
  let entries := bookIdxs.filterMap fun i => books[i]?
  { literalV4 := literalV4
    literalV6 := literalV6
    bookIdxs := bookIdxs
    v4MatchAny := familyMatchAny literalV4 (entries.map (·.v4))
    v6MatchAny := familyMatchAny literalV6 (entries.map (·.v6))
    v4Empty := familyEmpty literalV4 (entries.map (·.v4))
    v6Empty := familyEmpty literalV6 (entries.map (·.v6))
    excluded := excluded && !dnsUnavailable }

/-- The literals of one side: the side is v3-shaped where it lists books or literals. -/
def sideLiterals (addrs : AddrParsers) (bookIds : List UInt32) (literals addresses : List String) :
    PrefixSet 32 × PrefixSet 128 × Option String :=
  if !bookIds.isEmpty || !literals.isEmpty then buildLiteralSide addrs literals .matchNone
  else buildLiteralSide addrs addresses .matchAny

/-- A marker term of the side is listed. -/
def dnsUnavailable (snap : PolicyRuleSnapshot) (side : DnsUnavailableQuarantineSide) : Bool :=
  snap.applicationTerms.any fun term => dnsUnavailableQuarantineSide term = some side

/-- The errors of a rule's address texts, in the order of the source. -/
def addressTextError (addrs : AddrParsers) (snap : PolicyRuleSnapshot) : Option SnapshotIntegrityError :=
  let ruleId := stablePolicyRuleId snap
  let sourceIsV3Shaped := !snap.sourceBookIds.isEmpty || !snap.sourceLiterals.isEmpty
  let destinationIsV3Shaped := !snap.destinationBookIds.isEmpty || !snap.destinationLiterals.isEmpty
  let source := (sideLiterals addrs snap.sourceBookIds snap.sourceLiterals snap.sourceAddresses).2.2
  let destination :=
    (sideLiterals addrs snap.destinationBookIds snap.destinationLiterals snap.destinationAddresses).2.2
  let v3Malformed := (if sourceIsV3Shaped then source else none).or
    (if destinationIsV3Shaped then destination else none)
  let legacyMalformed := (if sourceIsV3Shaped then none else source).or
    (if destinationIsV3Shaped then none else destination)
  if ruleHasUnrepresentableAddressSentinel snap then some (.unrepresentableAddress ruleId)
  else (v3Malformed.map (.unrepresentableV3Address ruleId)).or
    (legacyMalformed.map (.unrepresentableLegacyAddress ruleId))

/-- The errors of a rule's application terms, in the order of the source. -/
def applicationError (ruleId : String) (parsed : ParsedApplications) : Option SnapshotIntegrityError :=
  if parsed.droppedAny then some (.unrepresentableApplicationProtocol ruleId)
  else (parsed.invalidIcmp.map fun e => .invalidApplicationIcmpFields ruleId e.1 e.2).or
    (parsed.invalidPortProtocol.map fun e => .invalidApplicationPortProtocol ruleId e.1 e.2.1 e.2.2)

/-- `if let Some(e) { return Err(e) }`. -/
def failOn (e : Option SnapshotIntegrityError) : Except SnapshotIntegrityError Unit :=
  match e with
  | some e => .error e
  | none => .ok ()

/-- The action of a rule, or the error that names the rule. -/
def ruleAction (ruleId action : String) : Except SnapshotIntegrityError PolicyAction :=
  match parseAction action with
  | some action => .ok action
  | none => .error (.unknownPolicyAction (.rule ruleId) action)

/-- The rule of a snapshot, up to its place in the tables. -/
def parseRule (addrs : AddrParsers) (zoneNameToId : String → Option UInt32) (books : List BookEntry)
    (bookIdToIdx : Table UInt32 ℕ) (snap : PolicyRuleSnapshot) : Except SnapshotIntegrityError PolicyRule := do
  let ruleId := stablePolicyRuleId snap
  let sourceLiterals := sideLiterals addrs snap.sourceBookIds snap.sourceLiterals snap.sourceAddresses
  let destinationLiterals :=
    sideLiterals addrs snap.destinationBookIds snap.destinationLiterals snap.destinationAddresses
  failOn (addressTextError addrs snap)
  let sourceIdxs ← resolveBookIdxs bookIdToIdx snap.sourceBookIds ruleId
  let destinationIdxs ← resolveBookIdxs bookIdToIdx snap.destinationBookIds ruleId
  let source := buildAddressSide books sourceLiterals.1 sourceLiterals.2.1 sourceIdxs
    snap.sourceAddressExcluded (dnsUnavailable snap .source)
  let destination := buildAddressSide books destinationLiterals.1 destinationLiterals.2.1 destinationIdxs
    snap.destinationAddressExcluded (dnsUnavailable snap .destination)
  let parsed := parseApplications snap.applicationTerms
  failOn (applicationError ruleId parsed)
  let action ← ruleAction ruleId snap.action
  let globalFromZone ← buildGlobalZoneScope zoneNameToId
    (effectiveMatchZones snap.matchFromZones snap.matchFromZone) ruleId
  let globalToZone ← buildGlobalZoneScope zoneNameToId
    (effectiveMatchZones snap.matchToZones snap.matchToZone) ruleId
  return {
    ruleId := ruleId
    policyId := snap.policyId
    fromZone := snap.fromZone
    toZone := snap.toZone
    globalFromZone := globalFromZone
    globalToZone := globalToZone
    schedulerName := snap.schedulerName
    inactive := snap.inactive
    sourceLiteralV4 := source.literalV4
    sourceLiteralV6 := source.literalV6
    destinationLiteralV4 := destination.literalV4
    destinationLiteralV6 := destination.literalV6
    sourceBookIdxs := source.bookIdxs
    destinationBookIdxs := destination.bookIdxs
    sourceV4MatchAny := source.v4MatchAny
    sourceV6MatchAny := source.v6MatchAny
    destinationV4MatchAny := destination.v4MatchAny
    destinationV6MatchAny := destination.v6MatchAny
    sourceExcluded := source.excluded
    destinationExcluded := destination.excluded
    sourceV4Empty := source.v4Empty
    sourceV6Empty := source.v6Empty
    destinationV4Empty := destination.v4Empty
    destinationV6Empty := destination.v6Empty
    compiledApps := CompiledApplications.fromMatches parsed.appMatches
    action := if dnsUnavailable snap .source || dnsUnavailable snap .destination then .deny else action
    logSessionInit := snap.logSessionInit
    logSessionClose := snap.logSessionClose }

/-! ## The tables -/

/-- Where a rule goes: the global list, or the table of its zones. -/
inductive Placement where
  | global
  | bothAny
  | fromAny (toId : UInt32)
  | toAny (fromId : UInt32)
  | zonePair (fromId toId : UInt32)
deriving DecidableEq

/-- The zone of a rule, or the error that names it. -/
def ruleZone (zoneNameToId : String → Option UInt32) (ruleId zone : String) :
    Except SnapshotIntegrityError UInt32 :=
  match resolvePolicyZoneId zoneNameToId zone with
  | some id => .ok id
  | none => .error (.unresolvableZoneReference ruleId zone)

/-- The match on the two zones of a rule that is not global. -/
def placeRule (zoneNameToId : String → Option UInt32) (snap : PolicyRuleSnapshot) :
    Except SnapshotIntegrityError Placement :=
  let ruleId := stablePolicyRuleId snap
  if snap.fromZone = "junos-global" && snap.toZone = "junos-global" then .ok .global
  else
    match decide (snap.fromZone = "any"), decide (snap.toZone = "any") with
    | true, true => .ok .bothAny
    | true, false => do
      let toId ← ruleZone zoneNameToId ruleId snap.toZone
      return .fromAny toId
    | false, true => do
      let fromId ← ruleZone zoneNameToId ruleId snap.fromZone
      return .toAny fromId
    | false, false => do
      let fromId ← ruleZone zoneNameToId ruleId snap.fromZone
      let toId ← ruleZone zoneNameToId ruleId snap.toZone
      return .zonePair fromId toId

/-- The rule at the end of the list and its index in its table. -/
def PolicyState.pushRule (st : PolicyState) (rule : PolicyRule) (placement : Placement) : PolicyState :=
  let idx := st.rules.length
  let push := fun indices : List ℕ => indices ++ [idx]
  let st := { st with
    rules := st.rules ++ [rule]
    hasScheduledRules := st.hasScheduledRules || !rule.schedulerName.isEmpty
    hasJunosHostRules := st.hasJunosHostRules || rule.fromZone = "junos-host" || rule.toZone = "junos-host"
      || rule.globalToZone.isHostScope }
  match placement with
  | .global => { st with globalIndices := push st.globalIndices }
  | .bothAny => { st with bothAnyIndices := push st.bothAnyIndices }
  | .fromAny toId => { st with fromAnyIndex := upsert st.fromAnyIndex toId [] push }
  | .toAny fromId => { st with toAnyIndex := upsert st.toAnyIndex fromId [] push }
  | .zonePair fromId toId =>
    { st with
      zonePairIndex := upsert st.zonePairIndex (zonePairKey fromId toId) [] push
      exactPairDenyByFrom :=
        if toId ≠ junosHostZoneId && rule.action ≠ .permit then
          upsert st.exactPairDenyByFrom fromId [] push
        else st.exactPairDenyByFrom }

/-- One round of the loop over the rules. -/
def addRule (addrs : AddrParsers) (zoneNameToId : String → Option UInt32) (st : PolicyState)
    (snap : PolicyRuleSnapshot) : Except SnapshotIntegrityError PolicyState := do
  let rule ← parseRule addrs zoneNameToId st.books st.bookIdToIdx snap
  let placement ← placeRule zoneNameToId snap
  return st.pushRule rule placement

/-- One round of the loop that looks for repeated ids. -/
def checkIds (seen : List String × List UInt32) (snap : PolicyRuleSnapshot) :
    Except SnapshotIntegrityError (List String × List UInt32) :=
  let ruleId := stablePolicyRuleId snap
  if seen.1.contains ruleId then .error (.duplicateRuleId ruleId)
  else if snap.policyId ≠ 0 && snap.policyId ≠ defaultPolicySentinelId then
    if seen.2.contains snap.policyId then .error (.duplicatePolicyId snap.policyId)
    else .ok (ruleId :: seen.1, snap.policyId :: seen.2)
  else .ok (ruleId :: seen.1, seen.2)

/-- The default action: an empty text is a deny. -/
def parseDefaultPolicy (defaultPolicy : String) : Except SnapshotIntegrityError PolicyAction :=
  if defaultPolicy.isEmpty then .ok .deny
  else
    match parseAction defaultPolicy with
    | some action => .ok action
    | none => .error (.unknownPolicyAction .defaultPolicy defaultPolicy)

/-- The state without rules. -/
def initialState (defaultAction : PolicyAction) (functionalZoneIds : List UInt32)
    (books : List BookEntry × Table UInt32 ℕ) : PolicyState where
  defaultAction := defaultAction
  rules := []
  zonePairIndex := ∅
  exactPairDenyByFrom := ∅
  fromAnyIndex := ∅
  toAnyIndex := ∅
  bothAnyIndices := []
  globalIndices := []
  functionalZoneIds := functionalZoneIds
  books := books.1
  bookIdToIdx := books.2
  hasJunosHostRules := false
  hasScheduledRules := false
  schedulerLease := ⟨0, 0⟩
  defaultLogSessionInit := false
  defaultLogSessionClose := false

/-- `parse_policy_state_with_counters_and_functional`. -/
def parsePolicyState (addrs : AddrParsers) (defaultPolicy : String) (rules : List PolicyRuleSnapshot)
    (zoneNameToId : String → Option UInt32) (addressBooks : List AddressBookSnapshot)
    (functionalZoneIds : List UInt32) : Except SnapshotIntegrityError PolicyState := do
  let defaultAction ← parseDefaultPolicy defaultPolicy
  let _ ← rules.foldlM checkIds ([], [])
  let books ← addressBooks.foldlM (addBook addrs) ([], ∅)
  rules.foldlM (addRule addrs zoneNameToId) (initialState defaultAction functionalZoneIds books)

end Xpf.Policies
