/-
Firewall filter terms and their match conditions: `userspace-dp/src/filter/mod.rs` and
`filter/engine/matching.rs`.

A term names what it matches and what is done then. All conditions it sets have to hold;
one it does not set holds of every packet. An `Arc` is the identity of what it points to:
the counter of a term is a number, and its policer the id of the runtime.
-/
import Xpf.PrefixSets

set_option autoImplicit false

namespace Xpf.Filters

open PrefixSets

/-! ## Data -/

/-- `IpAddr`. -/
inductive IpAddr where
  | v4 (addr : BitVec 32)
  | v6 (addr : BitVec 128)
deriving DecidableEq

/-- `RejectMessage`. -/
structure RejectMessage where
  v4Code : UInt8
  v6Code : UInt8
deriving DecidableEq

/-- `FilterAction`. -/
inductive FilterAction where
  | accept
  | discard
  | reject (message : RejectMessage)
deriving DecidableEq

/-- `FlexMatchStart`. -/
inductive FlexMatchStart where
  | layer3
  | layer4
  | unsupported
deriving DecidableEq

/-- `PortRange`. -/
structure PortRange where
  low : UInt16
  high : UInt16
deriving DecidableEq

/-- `PortMatcher`. -/
inductive PortMatcher where
  | any
  | single (expected : UInt16)
  | range (range : PortRange)
  | set (ranges : List PortRange)
deriving DecidableEq

/-- `PortMatcher::matches`. -/
def PortMatcher.matches (m : PortMatcher) (port : UInt16) : Bool :=
  match m with
  | .any => true
  | .single expected => port = expected
  | .range r => r.low ≤ port && port ≤ r.high
  | .set ranges => ranges.any fun r => r.low ≤ port && port ≤ r.high

/-- `FilterTerm`, without its name and the name of its counter. -/
structure FilterTerm where
  id : UInt32
  sourceV4 : List (Prefix 32)
  sourceV6 : List (Prefix 128)
  destV4 : List (Prefix 32)
  destV6 : List (Prefix 128)
  sourceAddrConstrained : Bool
  destAddrConstrained : Bool
  sourceExcept : Bool
  destExcept : Bool
  protocolBitmap : Vector UInt64 4
  protocolMatchEnabled : Bool
  sourcePorts : PortMatcher
  destPorts : PortMatcher
  sourcePortConstrained : Bool
  destPortConstrained : Bool
  sourcePortExcept : Bool
  destPortExcept : Bool
  dscpBitmap : UInt64
  dscpMatchEnabled : Bool
  tcpFlagsMask : Option UInt8
  tcpFlagsForbidden : Option UInt8
  isFragment : Bool
  icmpTypeBitmap : Vector UInt64 4
  icmpTypeMatchEnabled : Bool
  icmpCodeBitmap : Vector UInt64 4
  icmpCodeMatchEnabled : Bool
  flexEnabled : Bool
  flexOffset : UInt8
  flexLength : UInt8
  flexValue : UInt32
  flexMask : UInt32
  flexMatchStart : FlexMatchStart
  action : FilterAction
  continueTerm : Bool
  hasCount : Bool
  log : Bool
  policerName : String
  threeColorPolicer : Option UInt32
  routingInstance : String
  forwardingClass : String
  dscpRewrite : Option UInt8
  counter : ℕ
deriving DecidableEq

/-- `FilterTerm::has_per_packet_l4_match`. -/
def FilterTerm.hasPerPacketL4Match (term : FilterTerm) : Bool :=
  term.tcpFlagsMask.isSome || term.tcpFlagsForbidden.isSome || term.isFragment || term.icmpTypeMatchEnabled
    || term.icmpCodeMatchEnabled || term.flexEnabled

/-- `Filter`, with the flags that the walks read; the compiler sets them from the terms. -/
structure Filter where
  id : UInt32
  terms : List FilterTerm
  hasLogTerms : Bool
  hasDscpMatchTerms : Bool
  hasPerPacketL4MatchTerms : Bool
  log_eq : hasLogTerms = terms.any (·.log)
  dscp_eq : hasDscpMatchTerms = terms.any (·.dscpMatchEnabled)
  l4_eq : hasPerPacketL4MatchTerms = terms.any (·.hasPerPacketL4Match)

/-- `TermMatchExtra`. -/
structure TermMatchExtra where
  tcpFlags : UInt8
  isFragment : Bool
  icmpType : UInt8
  icmpCode : UInt8
  l4Present : Bool
  flexL3 : Option (List UInt8)
  flexL4 : Option (List UInt8)
  portsUnknown : Bool
  nativeFragmentSentinel : Bool
  fragmentProtocol : Option UInt8

/-- `TermMatchExtra::default`. -/
def TermMatchExtra.default : TermMatchExtra := ⟨0, false, 0, 0, false, none, none, false, false, none⟩

/-- What a walk is given of a packet. -/
structure Packet where
  srcIp : IpAddr
  dstIp : IpAddr
  protocol : UInt8
  srcPort : UInt16
  dstPort : UInt16
  dscp : UInt8
  extra : TermMatchExtra

/-! ## Matching -/

def protoIcmp : UInt8 := 1
def protoTcp : UInt8 := 6
def protoUdp : UInt8 := 17
def protoIcmpv6 : UInt8 := 58
def shimProtoFragmentNoL4 : UInt8 := 255

/-- `has_l4_ports`. -/
def hasL4Ports (protocol : UInt8) : Bool := protocol = protoTcp || protocol = protoUdp

/-- The bit of a byte in a bitmap of 256. -/
def inBitmap (bitmap : Vector UInt64 4) (b : UInt8) : Bool :=
  bitmap.get ⟨b.toNat / 64, by have := b.toNat_lt; omega⟩ &&& ((1 : UInt64) <<< (b.toUInt64 % 64)) ≠ 0

/-- `flex_matches`. -/
def flexMatches (term : FilterTerm) (flexL3 flexL4 : Option (List UInt8)) : Bool :=
  if !term.flexEnabled then true
  else if !(1 ≤ term.flexLength.toNat && term.flexLength.toNat ≤ 4) then false
  else
    let base := match term.flexMatchStart with
      | .layer3 => flexL3
      | .layer4 => flexL4
      | .unsupported => none
    match base with
    | none => false
    | some bytes =>
      let off := term.flexOffset.toNat
      let stop := off + term.flexLength.toNat
      if bytes.length < stop then false
      else
        let val := ((bytes.drop off).take term.flexLength.toNat).foldl
          (fun (val : UInt32) (b : UInt8) => (val <<< 8) ||| b.toUInt32) 0
        val &&& term.flexMask = term.flexValue

/-- `per_packet_l4_matches`. -/
def perPacketL4Matches (term : FilterTerm) (protocol : UInt8) (extra : TermMatchExtra) : Bool :=
  let isIcmp := protocol = protoIcmp || protocol = protoIcmpv6
  if (term.tcpFlagsMask.isSome || term.tcpFlagsForbidden.isSome)
      && (!extra.l4Present || protocol ≠ protoTcp
        || term.tcpFlagsMask.any (fun required => extra.tcpFlags &&& required ≠ required)
        || term.tcpFlagsForbidden.any (fun forbidden => extra.tcpFlags &&& forbidden ≠ 0)) then false
  else if term.isFragment && !extra.isFragment then false
  else if term.icmpTypeMatchEnabled
      && (!extra.l4Present || !isIcmp || !inBitmap term.icmpTypeBitmap extra.icmpType) then false
  else if term.icmpCodeMatchEnabled
      && (!extra.l4Present || !isIcmp || !inBitmap term.icmpCodeBitmap extra.icmpCode) then false
  else flexMatches term extra.flexL3 extra.flexL4

/-- `protocol_bitmap_matches`. -/
def protocolBitmapMatches (term : FilterTerm) (protocol : UInt8) (extra : TermMatchExtra) : Bool :=
  if !term.protocolMatchEnabled then true
  else if protocol = shimProtoFragmentNoL4 && extra.nativeFragmentSentinel then
    match extra.fragmentProtocol with
    | none => false
    | some protocol => inBitmap term.protocolBitmap protocol
  else inBitmap term.protocolBitmap protocol

/-- `nets_match`. -/
def netsMatch {w : ℕ} (constrained except : Bool) (nets : List (Prefix w)) (ip : BitVec w) : Bool :=
  if !constrained then true
  else if nets.isEmpty then except
  else nets.any (·.contains ip) ^^ except

/-- `port_match`. -/
def portMatch (constrained except : Bool) (matcher : PortMatcher) (port : UInt16) : Bool :=
  if constrained && matcher = .any then false
  else matcher.matches port ^^ except

/-- `port_terms_match`. -/
def portTermsMatch (term : FilterTerm) (protocol : UInt8) (extra : TermMatchExtra) (srcPort dstPort : UInt16) : Bool :=
  if (term.sourcePortConstrained || term.destPortConstrained)
      && (!hasL4Ports protocol || (extra.isFragment && !extra.l4Present) || extra.portsUnknown) then false
  else portMatch term.sourcePortConstrained term.sourcePortExcept term.sourcePorts srcPort
    && portMatch term.destPortConstrained term.destPortExcept term.destPorts dstPort

/-- `AddrFamily`: which of a term's prefixes are of the family. -/
class AddrFamily (w : ℕ) where
  srcNets : FilterTerm → List (Prefix w)
  dstNets : FilterTerm → List (Prefix w)

/-- `V4Family`. -/
instance v4Family : AddrFamily 32 := ⟨FilterTerm.sourceV4, FilterTerm.destV4⟩

/-- `V6Family`. -/
instance v6Family : AddrFamily 128 := ⟨FilterTerm.sourceV6, FilterTerm.destV6⟩

/-- `term_matches_family`; the addresses are of the family, the rest is the packet's. -/
def termMatchesFamily {w : ℕ} [AddrFamily w] (term : FilterTerm) (srcIp dstIp : BitVec w) (p : Packet) : Bool :=
  protocolBitmapMatches term p.protocol p.extra
    && netsMatch term.sourceAddrConstrained term.sourceExcept (AddrFamily.srcNets term) srcIp
    && netsMatch term.destAddrConstrained term.destExcept (AddrFamily.dstNets term) dstIp
    && portTermsMatch term p.protocol p.extra p.srcPort p.dstPort
    && !(term.dscpMatchEnabled && term.dscpBitmap &&& ((1 : UInt64) <<< p.dscp.toUInt64) = 0)
    && perPacketL4Matches term p.protocol p.extra

/-- `term_matches`. -/
def termMatches (p : Packet) (term : FilterTerm) : Bool :=
  match p.srcIp, p.dstIp with
  | .v4 src, .v4 dst => termMatchesFamily term src dst p
  | .v6 src, .v6 dst => termMatchesFamily term src dst p
  | _, _ => false

/-- The dispatch on the address family that every walk begins with. -/
def byFamily {α : Type} (p : Packet) (walk : (FilterTerm → Bool) → α) (mixed : α) : α :=
  match p.srcIp, p.dstIp with
  | .v4 src, .v4 dst => walk (termMatchesFamily · src dst p)
  | .v6 src, .v6 dst => walk (termMatchesFamily · src dst p)
  | _, _ => mixed

/-- A walk that makes nothing of terms that never match is the walk over `termMatches`. -/
theorem byFamily_eq {α : Type} (p : Packet) {walk : (FilterTerm → Bool) → α} {mixed : α}
    (h : walk (fun _ => false) = mixed) : byFamily p walk mixed = walk (termMatches p) := by
  unfold byFamily
  cases hsrc : p.srcIp with
  | v4 src =>
    cases hdst : p.dstIp with
    | v4 dst =>
      refine congrArg walk (funext fun term => ?_)
      simp only [termMatches, hsrc, hdst]
    | v6 dst =>
      have hnone : termMatches p = fun _ => false := by
        funext term
        simp only [termMatches, hsrc, hdst]
      rw [hnone]
      exact h.symm
  | v6 src =>
    cases hdst : p.dstIp with
    | v4 dst =>
      have hnone : termMatches p = fun _ => false := by
        funext term
        simp only [termMatches, hsrc, hdst]
      rw [hnone]
      exact h.symm
    | v6 dst =>
      refine congrArg walk (funext fun term => ?_)
      simp only [termMatches, hsrc, hdst]

/-! ## Packets with their ports -/

/-- A TCP or UDP packet that is no fragment, as the frame's builder describes it. -/
structure Whole (p : Packet) : Prop where
  transport : hasL4Ports p.protocol = true
  unfragmented : p.extra.isFragment = false
  ports : p.extra.portsUnknown = false

/-- The packet with nothing but its flow key and its DSCP. -/
def Packet.flow (p : Packet) : Packet := { p with extra := .default }

theorem perPacketL4Matches_of_none {term : FilterTerm} (h : term.hasPerPacketL4Match = false) (protocol : UInt8)
    (extra : TermMatchExtra) : perPacketL4Matches term protocol extra = true := by
  simp only [FilterTerm.hasPerPacketL4Match, Bool.or_eq_false_iff] at h
  obtain ⟨⟨⟨⟨⟨hmask, hforbidden⟩, hfragment⟩, htype⟩, hcode⟩, hflex⟩ := h
  simp [perPacketL4Matches, flexMatches, hmask, hforbidden, hfragment, htype, hcode, hflex]

theorem protocolBitmapMatches_of_ports {protocol : UInt8} (h : hasL4Ports protocol = true) (term : FilterTerm)
    (extra extra' : TermMatchExtra) :
    protocolBitmapMatches term protocol extra = protocolBitmapMatches term protocol extra' := by
  have hne : protocol ≠ shimProtoFragmentNoL4 := by
    rintro rfl
    exact absurd h (by decide)
  unfold protocolBitmapMatches
  simp [hne]

theorem portTermsMatch_of_whole {p : Packet} (h : Whole p) (term : FilterTerm) :
    portTermsMatch term p.protocol p.extra p.srcPort p.dstPort
      = portTermsMatch term p.protocol .default p.srcPort p.dstPort := by
  unfold portTermsMatch
  simp [h.unfragmented, h.ports, TermMatchExtra.default]

/-- A term without conditions on single packets matches a packet as it matches its flow. -/
theorem termMatches_flow {p : Packet} (h : Whole p) {term : FilterTerm} (hterm : term.hasPerPacketL4Match = false) :
    termMatches p.flow term = termMatches p term := by
  have hfamily : ∀ {w : ℕ} [AddrFamily w] (src dst : BitVec w),
      termMatchesFamily term src dst p.flow = termMatchesFamily term src dst p := by
    intro w _ src dst
    unfold termMatchesFamily
    rw [perPacketL4Matches_of_none hterm, perPacketL4Matches_of_none hterm, portTermsMatch_of_whole h,
      protocolBitmapMatches_of_ports h.transport term p.extra .default]
    rfl
  unfold termMatches
  cases hsrc : p.srcIp <;> cases hdst : p.dstIp <;> simp only [Packet.flow, hsrc, hdst] <;> exact hfamily _ _

/-- A term without a condition on the DSCP does not read it. -/
theorem termMatches_dscp (p : Packet) {term : FilterTerm} (hterm : term.dscpMatchEnabled = false) (dscp : UInt8) :
    termMatches { p with dscp := dscp } term = termMatches p term := by
  have hfamily : ∀ {w : ℕ} [AddrFamily w] (src dst : BitVec w),
      termMatchesFamily term src dst { p with dscp := dscp } = termMatchesFamily term src dst p := by
    intro w _ src dst
    unfold termMatchesFamily
    simp only [hterm, Bool.false_and]
  unfold termMatches
  cases hsrc : p.srcIp <;> cases hdst : p.dstIp <;> dsimp only <;> exact hfamily _ _

end Xpf.Filters
