/-
Software segmentation of a TCP datagram that is too long for its way out:
`userspace-dp/src/afxdp/frame/tcp_segmentation.rs` and its twin
`userspace-dp/src/afxdp/tx/tcp_segmentation.rs`.

Both builders go through the same gates (`segmentPlan`) and then cut the data of the
datagram into chunks. Each chunk gets a copy of the IP and TCP headers, the fields that
must not be copied are repaired (`finalizeTcpSegmentHeaders`), and the segment is forwarded
like any other packet: ports, NAT, TTL, checksums.

| | a segment is built in | length fields |
|---|---|---|
| `segmentForwardedTcpFramesFromFrame` | a fresh buffer of zeros | saturate |
| `segmentForwardedTcpFramesIntoPrepared` | a free TX frame of the UMEM, as it was left | wrap |

A tunnel has its own MTU and wraps each segment again; the twin declines it, and it is left
out of the first builder here. The MTU of the egress interface is an argument, since the
table it is looked up in is not read otherwise.
-/
import Xpf.FrameRewrite
import Xpf.FrameNatExact

set_option autoImplicit false

namespace Xpf.Frames

open Xpf.ByteBuffer Xpf.Edits Xpf.Edits.Edit Xpf.OnesComplement

def TCP_FLAG_FIN : UInt8 := 0x01
def TCP_FLAG_SYN : UInt8 := 0x02
def TCP_FLAG_RST : UInt8 := 0x04
def TCP_FLAG_PSH : UInt8 := 0x08
def TCP_FLAG_URG : UInt8 := 0x20
def TCP_FLAG_CWR : UInt8 := 0x80

def TCP_OPTION_KIND_MD5 : UInt8 := 19

/-! ## Words of 32 bits -/

/-- `u32::to_be_bytes`. -/
def toBe32 (v : UInt32) : Bytes :=
  toBe (UInt16.ofNat (v.toNat / 65536)) ++ toBe (UInt16.ofNat v.toNat)

/-- `u32::from_be_bytes` of the four bytes at an offset. -/
def get32 (b : Bytes) (i : ℕ) : UInt32 :=
  UInt32.ofNat ((get16 b i).toNat * 65536 + (get16 b (i + 2)).toNat)

/-! ## What the gates read -/

/-- `ipv4_is_any_fragment`. -/
def ipv4IsAnyFragment (packet : Bytes) : Bool :=
  8 ≤ packet.length && get16 packet 6 &&& 0x3FFF ≠ 0

/-- `ipv6_is_any_fragment`. -/
def ipv6IsAnyFragment (packet : Bytes) : Bool := (walkIpv6ExtChain packet 0).fragment.isSome

/-- `is_any_fragment`. -/
def isAnyFragment (packet : Bytes) (addrFamily : UInt8) : Bool :=
  if addrFamily = AF_INET then ipv4IsAnyFragment packet
  else if addrFamily = AF_INET6 then ipv6IsAnyFragment packet
  else false

/-- `parse_flow_ports`, for the protocols that have ports. -/
def parseFlowPorts (frame : Bytes) (l4 declaredEnd : ℕ) : Option (UInt16 × UInt16) :=
  if declaredEnd < l4 + 4 then none
  else (getRange frame l4 4).map fun bytes => (get16 bytes 0, get16 bytes 2)

/-- `live_frame_ports_bytes`. -/
def liveFramePortsBytes (frame : Bytes) (addrFamily protocol : UInt8) : Option (UInt16 × UInt16) :=
  if !hasL4Ports protocol then none
  else do
    let l3 ← frameL3Offset frame
    let l4 ← frameL4Offset frame addrFamily
    let declaredEnd ← declaredL3End frame l3 addrFamily
    parseFlowPorts frame l4 declaredEnd

/-- `live_frame_ports_from_meta_bytes`: the stamped L4 offset is used where the L3 offset it
came with agrees with the frame. -/
def liveFramePortsFromMetaBytes (frame : Bytes) (fpm : ForwardPacketMeta) :
    Option (UInt16 × UInt16) :=
  if !hasL4Ports fpm.protocol then none
  else
    let (l3, l4) :=
      match nibbleCheckedL3 frame fpm.l3Offset fpm.addrFamily with
      | some checked => (checked.l3, if checked.stampTrusted then fpm.l4Offset.toNat else 0)
      | none => (fpm.l3Offset.toNat, fpm.l4Offset.toNat)
    let stamped :=
      if l4 = 0 then none
      else (declaredL3End frame l3 fpm.addrFamily).bind (parseFlowPorts frame l4)
    stamped.or (liveFramePortsBytes frame fpm.addrFamily fpm.protocol)

/-- `min_nonzero_mtu`. -/
def minNonzeroMtu (a b : ℕ) : ℕ := if a = 0 then b else if b = 0 then a else min a b

/-- `tcp_header_has_auth_option`. -/
def tcpHeaderHasAuthOption (tcp : Bytes) (headerLen : ℕ) : Bool :=
  tcpHeaderHasOptionKind tcp headerLen [TCP_OPTION_KIND_MD5, TCP_OPTION_KIND_AO]

/-! ## The plan -/

/-- What both builders know of the datagram when their gates are passed. -/
structure SegmentPlan where
  /-- The datagram up to the end its IP header declares. -/
  payload : Bytes
  ipHeaderLen : ℕ
  tcpHeaderLen : ℕ
  segmentPayloadMax : ℕ
  eth : RewriteEthParams
  enforcedPorts : Option (UInt16 × UInt16)

namespace SegmentPlan

def headersLen (plan : SegmentPlan) : ℕ := plan.ipHeaderLen + plan.tcpHeaderLen

/-- The TCP data of the datagram. -/
def data (plan : SegmentPlan) : Bytes := plan.payload.drop plan.headersLen

def originalSeq (plan : SegmentPlan) : UInt32 := get32 plan.payload (plan.ipHeaderLen + 4)

def ethLen (plan : SegmentPlan) : ℕ := if 0 < plan.eth.vlanId then 18 else 14

/-- The length of the chunk at an offset of the data. -/
def chunkLen (plan : SegmentPlan) (dataOffset : ℕ) : ℕ :=
  min (plan.data.length - dataOffset) plan.segmentPayloadMax

def totalIpLen (plan : SegmentPlan) (dataOffset : ℕ) : ℕ := plan.headersLen + plan.chunkLen dataOffset

end SegmentPlan

/-- The length of the IP header, when a TCP header fits behind it. -/
def segmentIpHeaderLen (payload : Bytes) (addrFamily : UInt8) (tcpOffset : ℕ) : Option ℕ :=
  if addrFamily = AF_INET then
    let ihl := ipv4Ihl payload 0
    if payload.length < 20 then none
    else if ihl < 20 ∨ payload.length < ihl + 20 then none
    else some ihl
  else if addrFamily = AF_INET6 then
    if tcpOffset < 40 ∨ payload.length < tcpOffset + 20 then none else some tcpOffset
  else none

/-- The datagram of a frame that may be segmented at all. -/
def segmentDatagram (frame : Bytes) (fpm : ForwardPacketMeta) : Option Bytes := do
  let checked ← nibbleCheckedL3 frame fpm.l3Offset fpm.addrFamily
  let l3 := checked.l3
  if frame.length ≤ l3 then none
  else if ipv6AhSighted frame fpm.addrFamily l3 then none
  else if isAnyFragment (frame.drop l3) fpm.addrFamily then none
  else
    let l3End ← declaredL3End frame l3 fpm.addrFamily
    some (sub frame l3 (l3End - l3))

/-- The gates of both builders. -/
def segmentPlan (frame : Bytes) (fpm : ForwardPacketMeta) (decision : SessionDecision)
    (interfaceMtu routeMtu : ℕ) (applyNatOnFabric : Bool)
    (expectedPorts : Option (UInt16 × UInt16)) : Option SegmentPlan :=
  let mtu := minNonzeroMtu interfaceMtu routeMtu
  if fpm.protocol ≠ PROTO_TCP then none
  else if mtu = 0 then none
  else do
    let payload ← segmentDatagram frame fpm
    if payload.length ≤ mtu then none
    else
      let tcpOffset ← packetRelL4Offset payload fpm.addrFamily
      let ipHeaderLen ← segmentIpHeaderLen payload fpm.addrFamily tcpOffset
      let tcpHeaderLen := (byteAt payload (ipHeaderLen + 12) >>> 4).toNat * 4
      if tcpHeaderLen < 20 ∨ payload.length < ipHeaderLen + tcpHeaderLen then none
      else if tcpHeaderHasAuthOption (sub payload ipHeaderLen tcpHeaderLen) tcpHeaderLen then none
      else if byteAt payload (ipHeaderLen + 13) &&& (TCP_FLAG_SYN ||| TCP_FLAG_RST) ≠ 0 then none
      else if mtu ≤ ipHeaderLen + tcpHeaderLen then none
      else if payload.length - (ipHeaderLen + tcpHeaderLen) ≤ mtu - (ipHeaderLen + tcpHeaderLen) then
        none
      else
        let eth ← rewriteEthParams fpm decision applyNatOnFabric
        some
          { payload
            ipHeaderLen
            tcpHeaderLen
            segmentPayloadMax := mtu - (ipHeaderLen + tcpHeaderLen)
            eth
            enforcedPorts := expectedPorts.or (liveFramePortsFromMetaBytes frame fpm) }

/-! ## One segment -/

/-- `*tcp.get_mut(13)? &= !flags`. -/
def clearTcpFlags (flags : UInt8) : Edit Bytes Unit := do
  require fun tcp => 13 < tcp.length
  modify fun tcp => writeAt tcp 13 [byteAt tcp 13 &&& ~~~flags]

/-- The IPv4 Identification part of `finalize_tcp_segment_headers`: a datagram that may still
be fragmented gets a number of its own. -/
def finalizeIpv4Id (addrFamily : UInt8) (segmentIndex : UInt16) : Edit Bytes Unit :=
  if addrFamily = AF_INET ∧ 0 < segmentIndex then do
    require fun packet => 6 < packet.length
    let flags ← read fun packet => byteAt packet 6
    if flags &&& 0x40 = 0 then do
      let id ← read fun packet => get16 packet 4
      writeWord 4 (id + segmentIndex)
    else pure ()
  else pure ()

/-- The urgent pointer of a segment that is not the first one: it is relative to the sequence
number of its own segment. -/
def rebaseUrgentPointer (dataOffset : ℕ) : Edit Bytes Unit := do
  require fun tcp => 13 < tcp.length
  let flags ← read fun tcp => byteAt tcp 13
  if flags &&& TCP_FLAG_URG ≠ 0 then do
    require fun tcp => 19 < tcp.length
    let urgPtr ← read fun tcp => (get16 tcp 18).toNat
    let consumed := dataOffset % 2 ^ 32
    if consumed ≤ urgPtr then writeWord 18 (UInt16.ofNat (urgPtr - consumed))
    else do
      clearTcpFlags TCP_FLAG_URG
      writeWord 18 0
  else pure ()

/-- The TCP part of `finalize_tcp_segment_headers`. -/
def finalizeTcpHeader (originalSeq : UInt32) (dataOffset : ℕ) (segmentIndex : UInt16)
    (isLast : Bool) : Edit Bytes Unit := do
  require fun tcp => 8 ≤ tcp.length
  modify fun tcp => writeAt tcp 4 (toBe32 (originalSeq + UInt32.ofNat dataOffset))
  doIf (!isLast) (clearTcpFlags (TCP_FLAG_PSH ||| TCP_FLAG_FIN))
  if segmentIndex = 0 then pure ()
  else do
    clearTcpFlags TCP_FLAG_CWR
    rebaseUrgentPointer dataOffset

/-- `finalize_tcp_segment_headers`. -/
def finalizeTcpSegmentHeaders (addrFamily : UInt8) (l4Offset : ℕ) (originalSeq : UInt32)
    (dataOffset : ℕ) (segmentIndex : UInt16) (isLast : Bool) : Edit Bytes Unit := do
  finalizeIpv4Id addrFamily segmentIndex
  onTail l4Offset (finalizeTcpHeader originalSeq dataOffset segmentIndex isLast)

/-- `FABRIC_INGRESS_FLAG`: the peer has already taken the hop off. -/
def fabricIngress (fpm : ForwardPacketMeta) : Bool := fpm.metaFlags &&& 0x80 ≠ 0

/-- `emit_ipv4_segment`, with the cast of its length field. -/
def emitIpv4Segment (len16 : ℕ → UInt16) (plan : SegmentPlan) (fpm : ForwardPacketMeta)
    (nat : NatDecision) (totalIpLen : ℕ) : Edit Bytes Unit := do
  let skipTtl := fabricIngress fpm
  onTail plan.ethLen (writeWord 2 (len16 totalIpLen))
  onTail plan.ethLen (require fun packet => skipTtl ∨ 1 < byteAt packet 8)
  let _ ← enforceExpectedPorts fpm.addrFamily fpm.protocol plan.enforcedPorts false
  doIf plan.eth.applyNat (onTail plan.ethLen (applyNatIpv4 fpm.protocol nat false))
  doIf (!skipTtl) (decrement (plan.ethLen + 8))
  onTail plan.ethLen (recomputeIpv4HeaderChecksum plan.ipHeaderLen)
  onTail plan.ethLen (recomputeL4ChecksumIpv4 plan.ipHeaderLen fpm.protocol false)

/-- `emit_ipv6_segment`, with the cast of its length field. -/
def emitIpv6Segment (len16 : ℕ → UInt16) (plan : SegmentPlan) (fpm : ForwardPacketMeta)
    (nat : NatDecision) (chunkLen : ℕ) : Edit Bytes Unit := do
  let skipTtl := fabricIngress fpm
  onTail plan.ethLen
    (writeWord 4 (len16 (plan.ipHeaderLen - 40 + plan.tcpHeaderLen + chunkLen)))
  onTail plan.ethLen (require fun packet => skipTtl ∨ 1 < byteAt packet 7)
  let _ ← enforceExpectedPorts fpm.addrFamily fpm.protocol plan.enforcedPorts false
  doIf plan.eth.applyNat
    (onTail plan.ethLen (applyNatIpv6 plan.ipHeaderLen fpm.protocol nat false))
  doIf (!skipTtl) (decrement (plan.ethLen + 7))
  onTail plan.ethLen (recomputeL4ChecksumIpv6 plan.ipHeaderLen fpm.protocol)

/-- A slice copied to an offset, declined when it does not fit. -/
def copyFromSlice (start : ℕ) (xs : Bytes) : Edit Bytes Unit := do
  require fun b => start + xs.length ≤ b.length
  modify fun b => writeAt b start xs

/-- One round of both loops, on a buffer of the length of the frame. -/
def buildSegment (len16 : ℕ → UInt16) (plan : SegmentPlan) (fpm : ForwardPacketMeta)
    (nat : NatDecision) (dataOffset : ℕ) (segmentIndex : UInt16) : Edit Bytes Unit := do
  let chunkLen := plan.chunkLen dataOffset
  onHead plan.ethLen (writeEthHeaderSlice plan.eth)
  onTail plan.ethLen do
    copyFromSlice 0 (plan.payload.take plan.ipHeaderLen)
    copyFromSlice plan.ipHeaderLen (sub plan.payload plan.ipHeaderLen plan.tcpHeaderLen)
    copyFromSlice plan.headersLen (sub plan.data dataOffset chunkLen)
    finalizeTcpSegmentHeaders fpm.addrFamily plan.ipHeaderLen plan.originalSeq dataOffset
      segmentIndex (dataOffset + chunkLen = plan.data.length)
  if fpm.addrFamily = AF_INET then
    emitIpv4Segment len16 plan fpm nat (plan.totalIpLen dataOffset)
  else if fpm.addrFamily = AF_INET6 then emitIpv6Segment len16 plan fpm nat chunkLen
  else decline

/-! ## The copying builder -/

/-- The variables of the loop. -/
structure SegmentLoop where
  out : List Bytes
  dataOffset : ℕ
  segmentIndex : UInt16

/-- `u16::saturating_add(1)`. -/
def saturatingSucc (i : UInt16) : UInt16 := if i = 0xFFFF then i else i + 1

/-- One round of `segment_forwarded_tcp_frames_from_frame`. -/
def segmentStep (plan : SegmentPlan) (fpm : ForwardPacketMeta) (nat : NatDecision)
    (s : SegmentLoop) : SegmentLoop ⊕ Option (List Bytes) :=
  if plan.data.length ≤ s.dataOffset then .inr (some s.out)
  else
    let frameOut := List.replicate (plan.ethLen + plan.totalIpLen s.dataOffset) 0
    match (buildSegment saturateLen16 plan fpm nat s.dataOffset s.segmentIndex).run frameOut with
    | (none, _) => .inr none
    | (some _, frameOut) =>
      .inl ⟨s.out ++ [frameOut], s.dataOffset + plan.chunkLen s.dataOffset,
        saturatingSucc s.segmentIndex⟩

/-- The loop of `segment_forwarded_tcp_frames_from_frame`. -/
def segmentAll (plan : SegmentPlan) (fpm : ForwardPacketMeta) (nat : NatDecision) :
    Option (List Bytes) :=
  Loop.run (segmentStep plan fpm nat) (fun _ => none) (fun s => plan.data.length - s.dataOffset)
    ⟨[], 0, 0⟩

/-- `segment_forwarded_tcp_frames_from_frame`. -/
def segmentForwardedTcpFramesFromFrame (frame : Bytes) (fpm : ForwardPacketMeta)
    (decision : SessionDecision) (interfaceMtu routeMtu : ℕ) (applyNatOnFabric : Bool)
    (expectedPorts : Option (UInt16 × UInt16)) : Option (List Bytes) := do
  let plan ← segmentPlan frame fpm decision interfaceMtu routeMtu applyNatOnFabric expectedPorts
  segmentAll plan fpm decision.nat

end Xpf.Frames
