/-
NAT64 checksums and ICMP messages: `userspace-dp/src/nat64/checksum.rs` and `icmp.rs`.

A function of the source that fills a buffer and returns how much of it is written is here
the written prefix: every byte of it is written, so nothing of the buffer shows through, and
all that is left of the buffer is its capacity. An ICMP error carries the packet it is about.
That packet is translated too, through a scratch buffer of `MAX_EMBEDDED_LEN` bytes.
-/
import Xpf.Nat64Inspect

set_option autoImplicit false

namespace Xpf.Nat64

open Xpf.ByteBuffer Xpf.Frames

/-! ## Checksums -/

/-- The words of a byte string, an odd last byte padded: `chunks(2)`. -/
def words16 : Bytes → List UInt16
  | hi :: lo :: rest => fromBe hi lo :: words16 rest
  | [last] => [fromBe last 0]
  | [] => []

/-- `checksum16_incremental`. -/
def checksum16Incremental (oldCksum : UInt16) (oldBytes newBytes : Bytes) : UInt16 :=
  checksum16Finish (compl16 oldCksum + wordsDelta (words16 oldBytes) (words16 newBytes))

/-- `checksum16_ipv4_pseudo`. -/
def checksum16Ipv4Pseudo (src dst : Bytes) (protocol : UInt8) (payload : Bytes) : UInt16 :=
  let sum := checksum16AddBytes 0 src
  let sum := checksum16AddBytes sum dst
  let sum := checksum16AddBytes sum [0, protocol]
  let sum := checksum16AddBytes sum (toBe (UInt16.ofNat payload.length))
  let sum := checksum16AddBytes sum payload
  checksum16Finish sum.toNat

/-- `checksum16_ipv6_pseudo`. -/
def checksum16Ipv6Pseudo (src dst : Bytes) (nextHeader : UInt8) (payload : Bytes) : UInt16 :=
  let sum := checksum16AddBytes 0 src
  let sum := checksum16AddBytes sum dst
  let sum := checksum16AddBytes sum (lenWords payload.length)
  let sum := checksum16AddBytes sum [0, 0, 0, nextHeader]
  let sum := checksum16AddBytes sum payload
  checksum16Finish sum.toNat

/-- The checksum field of TCP and UDP. -/
def checksumField (protocol : UInt8) : Option ℕ :=
  if protocol = PROTO_TCP then some 16 else if protocol = PROTO_UDP then some 6 else none

/-- The two incremental adjusters of an L4 checksum at `l4Off`: the pseudo-header's addresses
are all that has changed. -/
def adjustL4ChecksumIncremental (packet : Bytes) (protocol : UInt8) (l4Off : ℕ)
    (oldAddrs newAddrs : Bytes) : Option Bytes :=
  match checksumField protocol with
  | none => some packet
  | some field =>
    if packet.length < l4Off + field + 2 then none
    else
      let updated := checksum16Incremental (get16 packet (l4Off + field)) oldAddrs newAddrs
      let finalSum := if protocol = PROTO_UDP ∧ updated = 0 then 0xFFFF else updated
      some (put16 packet (l4Off + field) finalSum)

/-- `adjust_l4_checksum_v6_to_v4_incremental`. -/
def adjustL4ChecksumV6ToV4Incremental (out : Bytes) (protocol : UInt8) (v6SrcDst : Bytes)
    (v4Src v4Dst : Ipv4Addr) : Option Bytes :=
  adjustL4ChecksumIncremental out protocol 20 v6SrcDst (List.ofFn v4Src ++ List.ofFn v4Dst)

/-- `adjust_l4_checksum_v4_to_v6_incremental`. -/
def adjustL4ChecksumV4ToV6Incremental (dst : Bytes) (nextHeader : UInt8) (l4Off : ℕ)
    (v4SrcDst v6SrcDst : Bytes) : Option Bytes :=
  adjustL4ChecksumIncremental dst nextHeader l4Off v4SrcDst v6SrcDst

/-- One arm of the two recomputations: the field is zeroed, the sum taken and written. -/
def recomputeAt (packet : Bytes) (l4Off field minLen : ℕ) (sum : Bytes → UInt16) : Option Bytes :=
  if packet.length - l4Off < minLen then none
  else
    let zeroed := put16 packet (l4Off + field) 0
    some (put16 zeroed (l4Off + field) (sum (zeroed.drop l4Off)))

/-- `canonicalize_zero_checksum`. -/
def canonicalizeZeroChecksum (sum : UInt16) (protocol : UInt8) (family : ChecksumFamily) : UInt16 :=
  if sum = 0 ∧ adjustZeroChecksumIllegal protocol family = true then 0xFFFF else sum

/-- `recompute_l4_checksum_after_nat64_v6_to_v4`. -/
def recomputeL4ChecksumAfterNat64V6ToV4 (packet : Bytes) (protocol : UInt8) : Option Bytes :=
  let src := sub packet 12 4
  let dst := sub packet 16 4
  if packet.length < 20 then none
  else if protocol = PROTO_TCP then
    recomputeAt packet 20 16 20 fun l4 => checksum16Ipv4Pseudo src dst protocol l4
  else if protocol = PROTO_UDP then
    recomputeAt packet 20 6 8 fun l4 =>
      canonicalizeZeroChecksum (checksum16Ipv4Pseudo src dst protocol l4) protocol .v4
  else if protocol = PROTO_ICMP then recomputeAt packet 20 2 4 checksum16
  else some packet

/-- `recompute_l4_checksum_after_nat64_v4_to_v6`. -/
def recomputeL4ChecksumAfterNat64V4ToV6 (packet : Bytes) (nextHeader : UInt8) : Option Bytes :=
  let src := sub packet 8 16
  let dst := sub packet 24 16
  let sum := fun l4 => canonicalizeZeroChecksum (checksum16Ipv6Pseudo src dst nextHeader l4)
    nextHeader .v6
  if packet.length < 40 then none
  else if nextHeader = PROTO_TCP then recomputeAt packet 40 16 20 sum
  else if nextHeader = PROTO_UDP then recomputeAt packet 40 6 8 sum
  else if nextHeader = PROTO_ICMPV6 then recomputeAt packet 40 2 4 sum
  else some packet

/-- `finalize_icmpv4_checksum`. -/
def finalizeIcmpv4Checksum (icmp : Bytes) : Bytes :=
  if icmp.length < 4 then icmp
  else
    let zeroed := put16 icmp 2 0
    put16 zeroed 2 (checksum16 zeroed)

/-! ## Types and codes -/

def ICMPV6_ECHO_REQUEST : UInt8 := 128
def ICMPV6_ECHO_REPLY : UInt8 := 129
def ICMP_ECHO_REQUEST : UInt8 := 8
def ICMP_ECHO_REPLY : UInt8 := 0
def ICMPV6_DEST_UNREACHABLE : UInt8 := 1
def ICMPV6_PACKET_TOO_BIG : UInt8 := 2
def ICMPV6_TIME_EXCEEDED : UInt8 := 3
def ICMPV6_PARAMETER_PROBLEM : UInt8 := 4
def ICMP_DEST_UNREACHABLE : UInt8 := 3
def ICMP_TIME_EXCEEDED : UInt8 := 11
def ICMP_PARAMETER_PROBLEM : UInt8 := 12

/-- `map_icmpv6_error_to_icmpv4`. -/
def mapIcmpv6ErrorToIcmpv4 (icmpv6Type icmpv6Code : UInt8) : Option (UInt8 × UInt8) :=
  if icmpv6Type = ICMPV6_DEST_UNREACHABLE then
    if icmpv6Code = 0 ∨ icmpv6Code = 2 ∨ icmpv6Code = 3 then some (ICMP_DEST_UNREACHABLE, 1)
    else if icmpv6Code = 1 then some (ICMP_DEST_UNREACHABLE, 10)
    else if icmpv6Code = 4 then some (ICMP_DEST_UNREACHABLE, 3)
    else none
  else if icmpv6Type = ICMPV6_TIME_EXCEEDED then some (ICMP_TIME_EXCEEDED, icmpv6Code)
  else if icmpv6Type = ICMPV6_PARAMETER_PROBLEM then
    if icmpv6Code = 0 then some (ICMP_PARAMETER_PROBLEM, 0)
    else if icmpv6Code = 1 then some (ICMP_DEST_UNREACHABLE, 2)
    else none
  else none

/-- `map_icmpv4_error_to_icmpv6`. -/
def mapIcmpv4ErrorToIcmpv6 (icmpv4Type icmpv4Code : UInt8) : Option (UInt8 × UInt8) :=
  if icmpv4Type = ICMP_DEST_UNREACHABLE then
    if [0, 1, 5, 6, 7, 8, 11, 12].contains icmpv4Code then some (ICMPV6_DEST_UNREACHABLE, 0)
    else if icmpv4Code = 2 then some (ICMPV6_PARAMETER_PROBLEM, 1)
    else if icmpv4Code = 3 then some (ICMPV6_DEST_UNREACHABLE, 4)
    else if [9, 10, 13, 15].contains icmpv4Code then some (ICMPV6_DEST_UNREACHABLE, 1)
    else none
  else if icmpv4Type = ICMP_TIME_EXCEEDED then some (ICMPV6_TIME_EXCEEDED, icmpv4Code)
  else if icmpv4Type = ICMP_PARAMETER_PROBLEM then
    if icmpv4Code = 0 ∨ icmpv4Code = 2 then some (ICMPV6_PARAMETER_PROBLEM, 0) else none
  else none

/-- `embedded_icmpv6_type_to_icmpv4`. -/
def embeddedIcmpv6TypeToIcmpv4 (t : UInt8) : Option (UInt8 × UInt8) :=
  if t = ICMPV6_ECHO_REQUEST then some (ICMP_ECHO_REQUEST, 0)
  else if t = ICMPV6_ECHO_REPLY then some (ICMP_ECHO_REPLY, 0)
  else none

/-- `embedded_icmpv4_type_to_icmpv6`. -/
def embeddedIcmpv4TypeToIcmpv6 (t : UInt8) : Option (UInt8 × UInt8) :=
  if t = ICMP_ECHO_REQUEST then some (ICMPV6_ECHO_REQUEST, 0)
  else if t = ICMP_ECHO_REPLY then some (ICMPV6_ECHO_REPLY, 0)
  else none

/-- The IPv4 protocol of an IPv6 packet that can be translated. -/
def ipv4ProtocolOf (l4Protocol : UInt8) : Option UInt8 :=
  if l4Protocol = PROTO_ICMPV6 then some PROTO_ICMP
  else if l4Protocol = PROTO_TCP ∨ l4Protocol = PROTO_UDP then some l4Protocol
  else none

/-- The next header of an IPv4 packet that can be translated. -/
def nextHeaderOf (protocol : UInt8) : Option UInt8 :=
  if protocol = PROTO_ICMP then some PROTO_ICMPV6
  else if protocol = PROTO_TCP ∨ protocol = PROTO_UDP then some protocol
  else none

/-! ## MTUs -/

def IPV6_MIN_MTU : ℕ := 1280
def NAT64_HEADER_DELTA : ℕ := 20
def NAT64_FRAGMENT_HEADER_LEN : ℕ := 8

def RFC1191_PLATEAUS : List ℕ := [65535, 32000, 17914, 8166, 4352, 2002, 1492, 1006, 508, 296, 68]

/-- `rfc1191_plateau_mtu`. -/
def rfc1191PlateauMtu (quotedTotalLen : ℕ) : ℕ :=
  (RFC1191_PLATEAUS.find? fun p => p < quotedTotalLen ∧ IPV6_MIN_MTU ≤ p).getD IPV6_MIN_MTU

def MAX_EMBEDDED_LEN : ℕ := IPV6_MIN_MTU + NAT64_HEADER_DELTA

/-! ## Headers -/

/-- The IPv4 header both translators of this direction write, its checksum zero. -/
def ipv4Header (trafficClass : UInt8) (totalLen identification fragWord : UInt16)
    (ttl protocol : UInt8) (src dst : Ipv4Addr) : Bytes :=
  [0x45, trafficClass] ++ toBe totalLen ++ toBe identification ++ toBe fragWord
    ++ [ttl, protocol, 0, 0] ++ List.ofFn src ++ List.ofFn dst

/-- The header checksum, over the packet that has everything else. -/
def withHeaderChecksum (out : Bytes) : Bytes := put16 out 10 (checksum16 (out.take 20))

/-- The IPv6 header both translators of this direction write, without its addresses. -/
def ipv6HeaderStart (tos : UInt8) (payloadLen : UInt16) (nextHeader hopLimit : UInt8) : Bytes :=
  [(0x60 : UInt8) ||| (tos >>> 4), (tos &&& 0x0f) <<< 4, 0, 0] ++ toBe payloadLen
    ++ [nextHeader, hopLimit]

/-- The Fragment header of a translated IPv4 fragment. -/
def fragmentHeader (nextHeader : UInt8) (offsetUnits : UInt16) (more : Bool) (ident : UInt16) :
    Bytes :=
  [nextHeader, 0] ++ toBe ((offsetUnits <<< 3) ||| (if more then 1 else 0)) ++ [0, 0] ++ toBe ident

/-- The traffic class of an IPv6 header. -/
def trafficClassOf (packet : Bytes) : UInt8 :=
  ((byteAt packet 0 &&& 0x0f) <<< 4) ||| (byteAt packet 1 >>> 4)

/-- The fragment fields of an IPv4 header translated from a Fragment header. -/
def Ipv6FragInfo.ipv4Fields (info : Ipv6FragInfo) : UInt16 × UInt16 :=
  ((if info.more then 0x2000 else 0) ||| (info.offsetUnits &&& 0x1FFF), info.ident.toUInt16)

/-- `b.get(i..)`. -/
def getFrom (b : Bytes) (i : ℕ) : Option Bytes := if i ≤ b.length then some (b.drop i) else none

/-! ## The quoted packet -/

/-- `EmbeddedV6ToV4`. -/
structure EmbeddedV6ToV4 where
  mappedEmbeddedSrc : Ipv4Addr
  mappedEmbeddedDst : Ipv4Addr
  mappedEmbeddedDstPort : Option UInt16

/-- `EmbeddedV6ToV4Layout`. -/
structure EmbeddedV6ToV4Layout where
  l4 : Bytes
  trafficClass : UInt8
  hopLimit : UInt8
  ipv4Protocol : UInt8
  advertisedTotal : ℕ
  fragmentWord : UInt16
  identification : UInt16
  l4Protocol : UInt8
  hasFragmentHeader : Bool

/-- `embedded_v6_to_v4_layout`. -/
def embeddedV6ToV4Layout (embedded : Bytes) : Option EmbeddedV6ToV4Layout := do
  if embedded.length < 40 ∨ nat64V6TranslationIneligible embedded = true then none
  else
    let quoteIn := embedded.take (min embedded.length MAX_EMBEDDED_LEN)
    let payloadLen := (get16 quoteIn 4).toNat
    let (l4Offset, l4Protocol) ← ipv6L4OffsetAndProtocol quoteIn
    if ipv6IsNonFirstFragment quoteIn then none
    else
      let ipv4Protocol ← ipv4ProtocolOf l4Protocol
      if l4Offset < 40 ∨ payloadLen < l4Offset - 40 then none
      else
        let advertisedTotal := 20 + (payloadLen - (l4Offset - 40))
        let quotedEnd := min (40 + payloadLen) quoteIn.length
        if 65535 < advertisedTotal ∨ quotedEnd < l4Offset then none
        else
          let fragHeader := ipv6FragmentHeader quoteIn
          let fields := (fragHeader.map Ipv6FragInfo.ipv4Fields).getD (0x4000, 0)
          some
            { l4 := sub quoteIn l4Offset (quotedEnd - l4Offset)
              trafficClass := trafficClassOf quoteIn
              hopLimit := byteAt quoteIn 7
              ipv4Protocol
              advertisedTotal
              fragmentWord := fields.1
              identification := fields.2
              l4Protocol
              hasFragmentHeader := fragHeader.isSome }

/-- The port or the identifier of a quote, when the session has another. -/
def setQuotedPort (out : Bytes) (i : ℕ) : Option UInt16 → Bytes
  | some port => put16 out i port
  | none => out

/-- The type and code of a quoted echo. -/
def setQuotedType (out : Bytes) (i : ℕ) : Option (UInt8 × UInt8) → Bytes
  | some (t, c) => writeAt out i [t, c]
  | none => out

/-- `translate_embedded_v6_to_v4`. -/
def translateEmbeddedV6ToV4 (capacity : ℕ) (embedded : Bytes) (map : EmbeddedV6ToV4) :
    Option Bytes := do
  let layout ← embeddedV6ToV4Layout embedded
  let l4Len := layout.l4.length
  if capacity < 20 + l4Len then none
  else
    let out := ipv4Header layout.trafficClass (UInt16.ofNat layout.advertisedTotal)
      layout.identification layout.fragmentWord layout.hopLimit layout.ipv4Protocol
      map.mappedEmbeddedSrc map.mappedEmbeddedDst ++ layout.l4
    let out :=
      if (layout.l4Protocol = PROTO_TCP ∨ layout.l4Protocol = PROTO_UDP) ∧ 4 ≤ l4Len then
        setQuotedPort out 22 map.mappedEmbeddedDstPort
      else if layout.l4Protocol = PROTO_ICMPV6 ∧ 6 ≤ l4Len then
        setQuotedPort out 24 map.mappedEmbeddedDstPort
      else out
    let out :=
      if layout.l4Protocol = PROTO_ICMPV6 ∧ 2 ≤ l4Len then
        setQuotedType out 20 (embeddedIcmpv6TypeToIcmpv4 (byteAt out 20))
      else out
    some (withHeaderChecksum out)

/-- `EmbeddedV4ToV6`. -/
structure EmbeddedV4ToV6 where
  mappedEmbeddedSrc : Ipv6Addr
  prefixBytes : Fin 12 → UInt8
  mappedEmbeddedSrcPort : Option UInt16

/-- `translate_embedded_v4_to_v6`. -/
def translateEmbeddedV4ToV6 (capacity : ℕ) (embedded : Bytes) (map : EmbeddedV4ToV6) :
    Option Bytes := do
  let ihl := ipv4Ihl embedded 0
  if embedded.length < 20 ∨ ihl < 20 ∨ embedded.length < ihl then none
  else
    let quoteIn := embedded.take (min embedded.length (MAX_EMBEDDED_LEN - NAT64_HEADER_DELTA))
    let protocol := byteAt quoteIn 9
    let totalLenField := (get16 quoteIn 2).toNat
    if totalLenField < ihl then none
    else
      let nextHeader ← nextHeaderOf protocol
      let more : Bool := get16 quoteIn 6 &&& 0x2000 ≠ 0
      let offsetUnits := get16 quoteIn 6 &&& 0x1FFF
      let isFragment : Bool := more || offsetUnits ≠ 0
      let fragHdrLen := if isFragment then 8 else 0
      let advertisedPayloadLen := totalLenField - ihl + fragHdrLen
      if 65535 < advertisedPayloadLen then none
      else
        let quotedEnd := min totalLenField quoteIn.length
        if quotedEnd < ihl then none
        else
          -- the quote is cut where a Fragment header would not leave it room
          let l4 := (sub quoteIn ihl (quotedEnd - ihl)).take (capacity - (40 + fragHdrLen))
          let l4Len := l4.length
          let l4Start := 40 + fragHdrLen
          if capacity < l4Start + l4Len then none
          else
            let out := ipv6HeaderStart (byteAt quoteIn 1) (UInt16.ofNat advertisedPayloadLen)
                (if isFragment then 44 else nextHeader) (byteAt quoteIn 8)
              ++ List.ofFn map.mappedEmbeddedSrc ++ List.ofFn map.prefixBytes ++ sub quoteIn 16 4
              ++ (if isFragment then fragmentHeader nextHeader offsetUnits more (get16 quoteIn 4)
                else [])
              ++ l4
            let out :=
              if (protocol = PROTO_TCP ∨ protocol = PROTO_UDP) ∧ 2 ≤ l4Len then
                setQuotedPort out l4Start map.mappedEmbeddedSrcPort
              else if protocol = PROTO_ICMP ∧ 6 ≤ l4Len then
                setQuotedPort out (l4Start + 4) map.mappedEmbeddedSrcPort
              else out
            some <|
              if protocol = PROTO_ICMP ∧ 2 ≤ l4Len then
                setQuotedType out l4Start (embeddedIcmpv4TypeToIcmpv6 (byteAt out l4Start))
              else out

/-! ## Messages -/

/-- `write_icmpv4_error_with_embedded`. -/
def writeIcmpv4ErrorWithEmbedded (capacity : ℕ) (src : Bytes) (v4Type v4Code : UInt8)
    (restOfHeader : Bytes) (embedded : EmbeddedV6ToV4) : Option Bytes := do
  let embeddedIn ← getFrom src 8
  let quote ← translateEmbeddedV6ToV4 MAX_EMBEDDED_LEN embeddedIn embedded
  if capacity < 8 + quote.length then none
  else some (finalizeIcmpv4Checksum ([v4Type, v4Code, 0, 0] ++ restOfHeader ++ quote))

/-- `write_icmpv6_error_with_embedded`: the caller sets the checksum. -/
def writeIcmpv6ErrorWithEmbedded (capacity : ℕ) (src : Bytes) (v6Type v6Code : UInt8)
    (restOfHeader : Bytes) (embedded : EmbeddedV4ToV6) : Option Bytes := do
  let embeddedIn ← getFrom src 8
  let quote ← translateEmbeddedV4ToV6 MAX_EMBEDDED_LEN embeddedIn embedded
  if capacity < 8 + quote.length then none
  else some ([v6Type, v6Code, 0, 0] ++ restOfHeader ++ quote)

/-- The MTU of an ICMPv6 Packet Too Big, on the IPv4 side. -/
def packetTooBigMtu (src : Bytes) : UInt16 :=
  let mtu := (get16 src 4).toNat * 65536 + (get16 src 6).toNat
  let hasFrag := ((getFrom src 8).bind embeddedV6ToV4Layout).any fun layout =>
    layout.hasFragmentHeader
  let delta := if hasFrag then NAT64_HEADER_DELTA + NAT64_FRAGMENT_HEADER_LEN else NAT64_HEADER_DELTA
  UInt16.ofNat (clampLen (mtu - delta) 68 0xffff)

/-- `translate_icmpv6_message_to_icmpv4`. -/
def translateIcmpv6MessageToIcmpv4 (capacity : ℕ) (src : Bytes) (embedded : EmbeddedV6ToV4) :
    Option Bytes :=
  let icmpv6Type := byteAt src 0
  let icmpv6Code := byteAt src 1
  if src.length < 4 then none
  else if icmpv6Type = ICMPV6_ECHO_REQUEST ∨ icmpv6Type = ICMPV6_ECHO_REPLY then
    if capacity < src.length then none
    else
      let v4Type := if icmpv6Type = ICMPV6_ECHO_REQUEST then ICMP_ECHO_REQUEST else ICMP_ECHO_REPLY
      some (finalizeIcmpv4Checksum (writeAt src 0 [v4Type, 0]))
  else if icmpv6Type = ICMPV6_PACKET_TOO_BIG then
    if src.length < 8 then none
    else
      writeIcmpv4ErrorWithEmbedded capacity src ICMP_DEST_UNREACHABLE 4
        ([0, 0] ++ toBe (packetTooBigMtu src)) embedded
  else if icmpv6Type = ICMPV6_DEST_UNREACHABLE ∨ icmpv6Type = ICMPV6_TIME_EXCEEDED
      ∨ icmpv6Type = ICMPV6_PARAMETER_PROBLEM then
    match mapIcmpv6ErrorToIcmpv4 icmpv6Type icmpv6Code with
    | none => none
    | some (v4Type, v4Code) =>
      writeIcmpv4ErrorWithEmbedded capacity src v4Type v4Code [0, 0, 0, 0] embedded
  else none

/-- The MTU of an ICMPv4 Fragmentation Needed, on the IPv6 side. -/
def fragmentationNeededMtu (src : Bytes) : ℕ :=
  let v4Mtu := (get16 src 6).toNat
  if v4Mtu = 0 then
    let quote := src.drop 8
    rfc1191PlateauMtu
      (if 20 ≤ quote.length ∧ byteAt quote 0 >>> 4 = 4 then (get16 quote 2).toNat else 0)
  else max (v4Mtu + NAT64_HEADER_DELTA) IPV6_MIN_MTU

/-- `translate_icmpv4_message_to_icmpv6`. -/
def translateIcmpv4MessageToIcmpv6 (capacity : ℕ) (src : Bytes) (embedded : EmbeddedV4ToV6) :
    Option Bytes :=
  let icmpv4Type := byteAt src 0
  let icmpv4Code := byteAt src 1
  if src.length < 4 then none
  else if icmpv4Type = ICMP_ECHO_REQUEST ∨ icmpv4Type = ICMP_ECHO_REPLY then
    if capacity < src.length then none
    else
      let v6Type := if icmpv4Type = ICMP_ECHO_REQUEST then ICMPV6_ECHO_REQUEST else ICMPV6_ECHO_REPLY
      some (writeAt src 0 [v6Type, 0, 0, 0])
  else if icmpv4Type = ICMP_DEST_UNREACHABLE ∧ icmpv4Code = 4 then
    if src.length < 8 then none
    else
      writeIcmpv6ErrorWithEmbedded capacity src ICMPV6_PACKET_TOO_BIG 0
        (lenWords (fragmentationNeededMtu src)) embedded
  else if icmpv4Type = ICMP_DEST_UNREACHABLE ∨ icmpv4Type = ICMP_TIME_EXCEEDED
      ∨ icmpv4Type = ICMP_PARAMETER_PROBLEM then
    match mapIcmpv4ErrorToIcmpv6 icmpv4Type icmpv4Code with
    | none => none
    | some (v6Type, v6Code) =>
      writeIcmpv6ErrorWithEmbedded capacity src v6Type v6Code [0, 0, 0, 0] embedded
  else none

/-- `translated_icmpv6_error_l4_len`. -/
def translatedIcmpv6ErrorL4Len (src : Bytes) : Option ℕ := do
  if src.length < 8 then none
  else if byteAt src 0 ≠ ICMPV6_PACKET_TOO_BIG
      ∧ (mapIcmpv6ErrorToIcmpv4 (byteAt src 0) (byteAt src 1)).isNone = true then none
  else
    let quote ← embeddedV6ToV4Layout (src.drop 8)
    some (8 + 20 + quote.l4.length)

end Xpf.Nat64
