/-
Session keys of the userspace dataplane: `userspace-dp/src/session/key.rs` with the parts of
`entry.rs` and `mod.rs` that say what a session is.

A session is stored under one key, and other keys lead to it: a forward session answers to
the tuple its packets carry on the wire and to the tuples its replies carry, a reverse
session to its own translation. All of them are one transform of the stored key under the
session's NAT decision, taken in the same or in the reversed direction.
-/
import Mathlib

set_option autoImplicit false

namespace Xpf.Sessions

/-! ## Keys and NAT decisions -/

inductive IpAddr
  | v4 (addr : BitVec 32)
  | v6 (addr : BitVec 128)
  deriving DecidableEq, Repr

/-- What tells apart the tunnel calls that share a pair of endpoints. -/
inductive TunnelDiscriminator
  | none
  | unkeyed
  | keyed (key : UInt32)
  | pptp (handle : UInt32)
  | ipsec (ifId : UInt32)
  | unparseable
  deriving DecidableEq, Repr

structure SessionKey where
  addrFamily : UInt8
  protocol : UInt8
  srcIp : IpAddr
  dstIp : IpAddr
  srcPort : UInt16
  dstPort : UInt16
  discriminator : TunnelDiscriminator
  routingDomain : UInt32
  deriving DecidableEq, Repr

/-- A key without its scope: what a packet shows before its tunnel is known. -/
structure BareSessionTuple where
  addrFamily : UInt8
  protocol : UInt8
  srcIp : IpAddr
  dstIp : IpAddr
  srcPort : UInt16
  dstPort : UInt16
  deriving DecidableEq, Repr

structure L3ReverseKey where
  addrFamily : UInt8
  protocol : UInt8
  src : IpAddr
  dst : IpAddr
  deriving DecidableEq, Repr

structure NatDecision where
  rewriteSrc : Option IpAddr
  rewriteDst : Option IpAddr
  rewriteSrcPort : Option UInt16
  rewriteDstPort : Option UInt16
  sourceNatIcmp : Option (UInt8 × UInt8)
  nat64 : Bool
  nptv6 : Bool
  deriving DecidableEq, Repr

/-- No translation. -/
def NatDecision.default : NatDecision := ⟨none, none, none, none, none, false, false⟩

def protoIcmp : UInt8 := 1
def protoTcp : UInt8 := 6
def protoUdp : UInt8 := 17
def protoIcmpv6 : UInt8 := 58
def protoOspf : UInt8 := 89

def afInet : UInt8 := 2
def afInet6 : UInt8 := 10

def SessionKey.bareTuple (key : SessionKey) : BareSessionTuple :=
  ⟨key.addrFamily, key.protocol, key.srcIp, key.dstIp, key.srcPort, key.dstPort⟩

/-! ## The transform -/

inductive Dir
  | same
  | reversed
  deriving DecidableEq

inductive Domain
  | keep
  | zero
  deriving DecidableEq

/-- Every class of discriminator is its own reverse today. -/
def reverseDirectionDiscriminator : TunnelDiscriminator → TunnelDiscriminator
  | .none => .none
  | .unkeyed => .unkeyed
  | .keyed key => .keyed key
  | .pptp handle => .pptp handle
  | .ipsec ifId => .ipsec ifId
  | .unparseable => .unparseable

/-- Address family and protocol of the translated packet: NAT64 takes both from the family
the source address has on the wire. -/
def nat64FamilyProtocol (nat64 : Bool) (wireSrc : IpAddr) (protocol fallbackFamily : UInt8) : UInt8 × UInt8 :=
  if !nat64 then (fallbackFamily, protocol)
  else
    let af := match wireSrc with
      | .v4 _ => afInet
      | .v6 _ => afInet6
    let proto :=
      if af = afInet ∧ protocol = protoIcmpv6 then protoIcmp
      else if af = afInet6 ∧ protocol = protoIcmp then protoIcmpv6
      else protocol
    (af, proto)

/-- The key a packet of the session carries after translation, in the direction `dir`. The
source keeps or reverses the discriminator with the direction. -/
def natAppliedKey (key : SessionKey) (nat : NatDecision) (dir : Dir) (domain : Domain) : SessionKey :=
  let isIcmp := key.protocol = protoIcmp ∨ key.protocol = protoIcmpv6
  let ports :=
    if isIcmp then
      ((nat.rewriteSrcPort.or nat.rewriteDstPort).getD key.srcPort, key.dstPort)
    else match dir with
      | .same => (nat.rewriteSrcPort.getD key.srcPort, nat.rewriteDstPort.getD key.dstPort)
      | .reversed => (nat.rewriteDstPort.getD key.dstPort, nat.rewriteSrcPort.getD key.srcPort)
  let wire := match dir with
    | .same => (nat.rewriteSrc.getD key.srcIp, nat.rewriteDst.getD key.dstIp)
    | .reversed => (nat.rewriteDst.getD key.dstIp, nat.rewriteSrc.getD key.srcIp)
  let familyProtocol := nat64FamilyProtocol nat.nat64 wire.1 key.protocol key.addrFamily
  { addrFamily := familyProtocol.1
    protocol := familyProtocol.2
    srcIp := wire.1
    dstIp := wire.2
    srcPort := ports.1
    dstPort := ports.2
    discriminator := match dir with
      | .same => key.discriminator
      | .reversed => reverseDirectionDiscriminator key.discriminator
    routingDomain := match domain with
      | .keep => key.routingDomain
      | .zero => 0 }

def forwardWireKey (forwardKey : SessionKey) (nat : NatDecision) : SessionKey :=
  natAppliedKey forwardKey nat .same .keep

/-- The alias a reverse session answers to. -/
def translatedSessionKey (key : SessionKey) (nat : NatDecision) : SessionKey :=
  natAppliedKey key nat .same .keep

def reverseWireKey (forwardKey : SessionKey) (nat : NatDecision) : SessionKey :=
  natAppliedKey forwardKey nat .reversed .zero

/-- The reply tuple without translation. -/
def reverseCanonicalKey (forwardKey : SessionKey) : SessionKey :=
  let ports :=
    if forwardKey.protocol = protoIcmp ∨ forwardKey.protocol = protoIcmpv6 then
      (forwardKey.srcPort, forwardKey.dstPort)
    else (forwardKey.dstPort, forwardKey.srcPort)
  { addrFamily := forwardKey.addrFamily
    protocol := forwardKey.protocol
    srcIp := forwardKey.dstIp
    dstIp := forwardKey.srcIp
    srcPort := ports.1
    dstPort := ports.2
    discriminator := reverseDirectionDiscriminator forwardKey.discriminator
    routingDomain := 0 }

/-- The key of the session for the other direction: the companion. -/
def reverseSessionKey (key : SessionKey) (nat : NatDecision) : SessionKey :=
  natAppliedKey key nat .reversed .keep

/-- The address pair the replies of a translated forward session carry. -/
def l3ReverseKeyForForward (forwardKey : SessionKey) (nat : NatDecision) : Option L3ReverseKey :=
  if !nat.nat64 && nat.rewriteSrc.isNone && nat.rewriteDst.isNone then none
  else
    let reverse := reverseSessionKey forwardKey nat
    some ⟨reverse.addrFamily, reverse.protocol, reverse.srcIp, reverse.dstIp⟩

/-- Fragments carry no protocol header, so the index forgets the protocol. -/
def l3ReverseFragmentIndexKey (key : L3ReverseKey) : L3ReverseKey := { key with protocol := 0 }

def normalizedReplyAliasKey (key : SessionKey) : SessionKey :=
  { key with discriminator := .none, routingDomain := 0 }

/-- The plain tuples under which the replies of a tunnel session can arrive. -/
def ipsecReplyAliasKeys (key : SessionKey) (nat : NatDecision) : List SessionKey :=
  let wire := normalizedReplyAliasKey (reverseWireKey key nat)
  let canonical := normalizedReplyAliasKey (reverseCanonicalKey key)
  if canonical ≠ wire then [wire, canonical] else [wire]

/-! ## Origins -/

inductive SessionOrigin
  | forwardFlow
  | reverseFlow
  | localMiss
  | missingNeighborSeed
  | fabricPuntSeed
  | syncImport
  | syncLiveness
  | sharedMaterialize
  | sharedPromote
  | workerLocalImport
  | tunOrigin
  deriving DecidableEq, Repr

namespace SessionOrigin

def isLocalTunOrigin : SessionOrigin → Bool
  | .tunOrigin => true
  | _ => false

def isPeerSynced : SessionOrigin → Bool
  | .syncImport | .syncLiveness | .sharedMaterialize | .workerLocalImport => true
  | _ => false

def isTransientLocalSeed : SessionOrigin → Bool
  | .missingNeighborSeed | .fabricPuntSeed => true
  | _ => false

/-- Whether an import of the peer may take the session's place. -/
def yieldsToPeer (origin : SessionOrigin) : Bool :=
  origin.isPeerSynced || decide (origin = .fabricPuntSeed)

end SessionOrigin

def sessionLimitOriginCounted : SessionOrigin → Bool
  | .workerLocalImport => false
  | _ => true

inductive ForwardingDisposition
  | localDelivery
  | forwardCandidate
  | fabricRedirect
  | haInactive
  | clusterTerminalHaInactive
  | policyDenied
  | noRoute
  | missingNeighbor
  | discardRoute
  | rejectRoute
  | nextTableUnsupported
  | tableUnavailable
  deriving DecidableEq, Repr

/-! ## TCP -/

def hasSyn (flags : UInt8) : Bool := flags &&& 0x02 != 0
def hasAck (flags : UInt8) : Bool := flags &&& 0x10 != 0
def hasRst (flags : UInt8) : Bool := flags &&& 0x04 != 0
def hasFin (flags : UInt8) : Bool := flags &&& 0x01 != 0
def isInitialSyn (flags : UInt8) : Bool := hasSyn flags && !hasAck flags
def isSynAck (flags : UInt8) : Bool := flags &&& 0x12 == 0x12
def isClosing (flags : UInt8) : Bool := flags &&& 0x05 != 0

inductive TcpCloseClass
  | reset
  | closing
  | timeWait
  deriving DecidableEq, Repr

namespace TcpCloseClass

def fromPacket (tcpFlags : UInt8) : TcpCloseClass := if hasRst tcpFlags then .reset else .closing

def toWire : TcpCloseClass → UInt8
  | .closing => 1
  | .timeWait => 2
  | .reset => 3

def fromWire : UInt8 → Option TcpCloseClass
  | 1 => some .closing
  | 2 => some .timeWait
  | 3 => some .reset
  | _ => none

end TcpCloseClass

inductive TcpHandshakeState
  | opening
  | handshakePending
  | synAckFirstPending
  | established
  deriving DecidableEq, Repr

namespace TcpHandshakeState

def toWire : TcpHandshakeState → UInt8
  | .opening => 1
  | .handshakePending => 2
  | .synAckFirstPending => 3
  | .established => 4

def fromWire : UInt8 → Option TcpHandshakeState
  | 1 => some .opening
  | 2 => some .handshakePending
  | 3 => some .synAckFirstPending
  | 4 => some .established
  | _ => none

def stageRank (wire : UInt8) : UInt8 :=
  match fromWire wire with
  | some .opening => 1
  | some .handshakePending => 2
  | some .synAckFirstPending => 3
  | some .established => 4
  | none => 4

end TcpHandshakeState

/-! ## Timeouts -/

/-- Nanoseconds in one second. -/
def secondNs : ℕ := 1000000000

def u64Max : ℕ := 2 ^ 64 - 1

/-- `u64::saturating_add`. -/
def saturatingAdd (a b : ℕ) : ℕ := min (a + b) u64Max

structure SessionTimeouts where
  tcpEstablishedNs : ℕ
  tcpOpeningNs : ℕ
  tcpClosingNs : ℕ
  tcpTimeWaitNs : ℕ
  tcpTimeWaitSessionAgeout : Bool
  tcpTimeWaitApplyToHalfClosed : Bool
  tcpFinInvalidateSession : Bool
  udpNs : ℕ
  icmpNs : ℕ

def tcpRstTimeoutNs : ℕ := 2 * secondNs
def ospfSessionTimeoutNs : ℕ := 60 * secondNs
def otherSessionTimeoutNs : ℕ := 1800 * secondNs

def SessionTimeouts.default : SessionTimeouts where
  tcpEstablishedNs := 1800 * secondNs
  tcpOpeningNs := 20 * secondNs
  tcpClosingNs := 30 * secondNs
  tcpTimeWaitNs := 30 * secondNs
  tcpTimeWaitSessionAgeout := false
  tcpTimeWaitApplyToHalfClosed := false
  tcpFinInvalidateSession := false
  udpNs := 60 * secondNs
  icmpNs := 60 * secondNs

def tcpCloseWindowNsWithApp (cls : TcpCloseClass) (timeouts : SessionTimeouts) (appOverrideNs : Option ℕ) : ℕ :=
  match cls with
  | .reset => tcpRstTimeoutNs
  | .closing =>
    if timeouts.tcpTimeWaitApplyToHalfClosed then
      if timeouts.tcpTimeWaitSessionAgeout then appOverrideNs.getD timeouts.tcpEstablishedNs
      else timeouts.tcpTimeWaitNs
    else timeouts.tcpClosingNs
  | .timeWait =>
    if timeouts.tcpFinInvalidateSession then 0
    else if timeouts.tcpTimeWaitSessionAgeout then appOverrideNs.getD timeouts.tcpEstablishedNs
    else timeouts.tcpTimeWaitNs

def tcpCloseWindowNs (cls : TcpCloseClass) (timeouts : SessionTimeouts) : ℕ :=
  tcpCloseWindowNsWithApp cls timeouts none

/-- How long a session of `protocol` may idle. -/
def sessionTimeoutNs (protocol tcpFlags : UInt8) (established : Bool) (timeouts : SessionTimeouts)
    (appOverrideNs openingOverrideNs : Option ℕ) : ℕ :=
  if protocol = protoTcp then
    if isClosing tcpFlags then tcpCloseWindowNs (.fromPacket tcpFlags) timeouts
    else if !established then openingOverrideNs.getD timeouts.tcpOpeningNs
    else appOverrideNs.getD timeouts.tcpEstablishedNs
  else
    let base :=
      if protocol = protoUdp then timeouts.udpNs
      else if protocol = protoIcmp ∨ protocol = protoIcmpv6 then timeouts.icmpNs
      else if protocol = protoOspf then ospfSessionTimeoutNs
      else otherSessionTimeoutNs
    if established then appOverrideNs.getD base else base

end Xpf.Sessions
