/-
The NAT64 translators: `userspace-dp/src/nat64/translate.rs`.

`writeV6ToV4Translate` and `writeV4ToV6Translate` are the shared cores of all entry points of
a direction. Before an IPv6 packet is translated its IPv4 length is decided on, by a function
that writes nothing (`v6ToV4OutputLen`).
-/
import Xpf.Nat64Icmp

set_option autoImplicit false

namespace Xpf.Nat64

open Xpf.ByteBuffer Xpf.Frames

/-! ## IPv6 to IPv4 -/

/-- `map_ipv4_identification`. -/
def mapIpv4Identification (raw : UInt32) : UInt16 := (raw % 65535).toUInt16 + 1

/-- The L4 region of an IPv6 packet: its protocol, and the bytes up to the end its header
declares. -/
def v6L4Region (packet : Bytes) : Option (ℕ × UInt8 × Bytes) := do
  let (l4Offset, l4Protocol) ← ipv6L4OffsetAndProtocol packet
  let l4End := 40 + (get16 packet 4).toNat
  if l4End < l4Offset then none
  else
    let l4Payload ← getRange packet l4Offset (l4End - l4Offset)
    some (l4Offset, l4Protocol, l4Payload)

/-- The fragment word and the identification of a translated packet. -/
def v6FragmentFields (packet : Bytes) (totalLen : ℕ) (noV6FragHeader : Bool) (rawId : UInt32) :
    UInt16 × UInt16 :=
  match ipv6FragmentHeader packet with
  | some info => info.ipv4Fields
  | none =>
    if noV6FragHeader || totalLen ≤ 1260 then (0x0000, mapIpv4Identification rawId)
    else (0x4000, 0)

/-- The L4 checksum behind the new IPv4 header. -/
def finishL4V6ToV4 (out : Bytes) (protocol : UInt8) (v6SrcDst : Bytes) (v4Src v4Dst : Ipv4Addr) :
    Option Bytes :=
  -- a UDP checksum of zero is no baseline
  if protocol = PROTO_TCP ∨ (protocol = PROTO_UDP ∧ getRange out 26 2 ≠ some [0, 0]) then
    adjustL4ChecksumV6ToV4Incremental out protocol v6SrcDst v4Src v4Dst
  else recomputeL4ChecksumAfterNat64V6ToV4 out protocol

/-- `write_v6_to_v4_translate`; `rawId` is what `NAT64_IPV4_IDENTIFICATION.next()` gives. -/
def writeV6ToV4Translate (rawId : UInt32) (capacity : ℕ) (packet : Bytes) (snatV4 dstV4 : Ipv4Addr)
    (noV6FragHeader : Bool) (embeddedDstPort : Option UInt16) (preserveTtl : Bool) :
    Option Bytes := do
  let hopLimit := byteAt packet 7
  if packet.length < 40 ∨ nat64V6TranslationIneligible packet = true then none
  else if !preserveTtl && hopLimit ≤ 1 then none
  else
    let (l4Offset, l4Protocol, l4Payload) ← v6L4Region packet
    if ipv6IsNonFirstFragment packet then none
    else
      let ipv4Protocol ← ipv4ProtocolOf l4Protocol
      let fragInfo := ipv6FragmentHeader packet
      -- a part of an ICMPv6 message has no checksum of its own
      if l4Protocol = PROTO_ICMPV6 ∧ fragInfo.any Ipv6FragInfo.real = true then none
      else if l4Protocol = PROTO_UDP ∧ fragInfo.any Ipv6FragInfo.leading = true
          ∧ getRange packet (l4Offset + 6) 2 = some [0, 0] then none
      else if capacity < 20 + l4Payload.length then none
      else
        let newTtl := if preserveTtl then hopLimit else hopLimit - 1
        -- the quote of an error goes back the other way
        let embedded : EmbeddedV6ToV4 := ⟨dstV4, snatV4, embeddedDstPort⟩
        let l4 ←
          if l4Protocol = PROTO_ICMPV6 then
            translateIcmpv6MessageToIcmpv4 l4Payload.length l4Payload embedded
          else some l4Payload
        let ipv4TotalLen := 20 + l4.length
        if 65535 < ipv4TotalLen then none
        else
          let (fragWord, identification) :=
            v6FragmentFields packet ipv4TotalLen noV6FragHeader rawId
          let out := ipv4Header (trafficClassOf packet) (UInt16.ofNat ipv4TotalLen) identification
            fragWord newTtl ipv4Protocol snatV4 dstV4 ++ l4
          let out ← finishL4V6ToV4 out ipv4Protocol (sub packet 8 32) snatV4 dstV4
          some (withHeaderChecksum out)

/-- The length of a translated ICMPv6 message, in `v6_to_v4_output_len`. -/
def icmpOutputLen (l4Payload : Bytes) : Option ℕ :=
  let icmpv6Type := byteAt l4Payload 0
  if l4Payload = [] then none
  else if (icmpv6Type = ICMPV6_ECHO_REQUEST ∨ icmpv6Type = ICMPV6_ECHO_REPLY)
      ∧ 4 ≤ l4Payload.length then some l4Payload.length
  else if icmpv6Type = ICMPV6_PACKET_TOO_BIG ∨ icmpv6Type = ICMPV6_DEST_UNREACHABLE
      ∨ icmpv6Type = ICMPV6_TIME_EXCEEDED ∨ icmpv6Type = ICMPV6_PARAMETER_PROBLEM then
    translatedIcmpv6ErrorL4Len l4Payload
  else none

/-- The length of the L4 region behind the new header, in `v6_to_v4_output_len`. -/
def l4OutputLen (l4Protocol : UInt8) (l4Payload : Bytes) (fragInfo : Option Ipv6FragInfo) :
    Option ℕ :=
  if l4Protocol = PROTO_TCP ∨ l4Protocol = PROTO_UDP then some l4Payload.length
  else if l4Protocol = PROTO_ICMPV6 then
    if fragInfo.any Ipv6FragInfo.real = true then none else icmpOutputLen l4Payload
  else none

/-- An IPv4 packet of that L4 length, when its Total Length can say so. -/
def totalLenOf (l4Len : ℕ) : Option ℕ := if 20 + l4Len ≤ 65535 then some (20 + l4Len) else none

/-- `v6_to_v4_output_len`. -/
def v6ToV4OutputLen (packet : Bytes) : Option ℕ := do
  if packet.length < 40 ∨ nat64V6TranslationIneligible packet = true ∨ byteAt packet 7 ≤ 1 then none
  else
    let (_, l4Protocol, l4Payload) ← v6L4Region packet
    let fragInfo := ipv6FragmentHeader packet
    if ipv6IsNonFirstFragment packet then
      let fragment ← fragInfo
      if fragment.offsetUnits = 0 ∨ ¬(l4Protocol = PROTO_TCP ∨ l4Protocol = PROTO_UDP) then none
      else totalLenOf l4Payload.length
    else if l4Protocol = PROTO_UDP ∧ fragInfo.any Ipv6FragInfo.leading = true
        ∧ getRange l4Payload 6 2 = some [0, 0] then none
    else
      let l4Len ← l4OutputLen l4Protocol l4Payload fragInfo
      totalLenOf l4Len

/-! ## IPv4 to IPv6 -/

/-- `checked_ipv6_payload_len`. -/
def checkedIpv6PayloadLen (fragHdrLen l4Len : ℕ) : Option UInt16 :=
  if 65535 < fragHdrLen + l4Len then none else some (UInt16.ofNat (fragHdrLen + l4Len))

/-- The L4 checksum behind the new IPv6 header, and behind its Fragment header if it has
one. -/
def finishL4V4ToV6 (out : Bytes) (isFragment : Bool) (nextHeader : UInt8) (l4Off : ℕ)
    (v4SrcDst v6SrcDst : Bytes) : Option Bytes :=
  if isFragment then
    if nextHeader = PROTO_TCP ∨ nextHeader = PROTO_UDP then
      adjustL4ChecksumV4ToV6Incremental out nextHeader l4Off v4SrcDst v6SrcDst
    else some out
  else if nextHeader = PROTO_TCP
      ∨ (nextHeader = PROTO_UDP ∧ getRange out (l4Off + 6) 2 ≠ some [0, 0]) then
    adjustL4ChecksumV4ToV6Incremental out nextHeader l4Off v4SrcDst v6SrcDst
  else recomputeL4ChecksumAfterNat64V4ToV6 out nextHeader

/-- `write_v4_to_v6_translate`. -/
def writeV4ToV6Translate (capacity : ℕ) (packet : Bytes) (srcV6 dstV6 : Ipv6Addr)
    (embeddedSrcPort : Option UInt16) (preserveTtl : Bool) : Option Bytes := do
  let ihl := ipv4Ihl packet 0
  let ttl := byteAt packet 8
  let protocol := byteAt packet 9
  let ipv4TotalLen := (get16 packet 2).toNat
  if packet.length < 20 ∨ ihl < 20 ∨ packet.length < ihl then none
  else if !preserveTtl && ttl ≤ 1 then none
  else if ipv4TotalLen < ihl ∨ packet.length < ipv4TotalLen then none
  else
    let l4Payload := sub packet ihl (ipv4TotalLen - ihl)
    let nextHeader ← nextHeaderOf protocol
    let isFragment : Bool := get16 packet 6 &&& 0x2000 ≠ 0
    let offsetUnits := get16 packet 6 &&& 0x1FFF
    if offsetUnits ≠ 0 then none
    else if protocol = PROTO_ICMP ∧ isFragment = true then none
    else if isFragment = true ∧ protocol = PROTO_UDP
        ∧ getRange packet (ihl + 6) 2 = some [0, 0] then none
    else
      let fragHdrLen := if isFragment then 8 else 0
      let newHopLimit := if preserveTtl then ttl else ttl - 1
      let l4Off := 40 + fragHdrLen
      if capacity < l4Off then none
      else
        let embedded : EmbeddedV4ToV6 :=
          ⟨dstV6, fun i => srcV6 (Fin.castAdd 4 i), embeddedSrcPort⟩
        let l4 ←
          if protocol = PROTO_ICMP then
            translateIcmpv4MessageToIcmpv6 (capacity - l4Off) l4Payload embedded
          else if capacity - l4Off < l4Payload.length then none
          else some l4Payload
        let payloadLen ← checkedIpv6PayloadLen fragHdrLen l4.length
        let out := ipv6HeaderStart (byteAt packet 1) payloadLen
            (if isFragment then 44 else nextHeader) newHopLimit
          ++ List.ofFn srcV6 ++ List.ofFn dstV6
          ++ (if isFragment then
              fragmentHeader nextHeader offsetUnits isFragment (get16 packet 4)
            else [])
          ++ l4
        finishL4V4ToV6 out isFragment nextHeader l4Off (sub packet 12 8)
          (List.ofFn srcV6 ++ List.ofFn dstV6)

end Xpf.Nat64
