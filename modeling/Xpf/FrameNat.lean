/-
The rewrites of one packet: `userspace-dp/src/afxdp/frame/mod.rs`, the byte writers of
`frame/byte_writes.rs` and the MSS clamp of `frame/tcp.rs`.

Every function here edits a packet in place and may give up in the middle (`Edit`): a `?`
of the source is a `check`, a write before it stays written. The packet starts at its IP
header, except for `enforceExpectedPorts`, which takes the whole Ethernet frame and finds
the headers itself.
-/
import Xpf.FrameChecksum

set_option autoImplicit false

namespace Xpf.Frames

open Xpf.ByteBuffer Xpf.Edits Xpf.Edits.Edit Xpf.OnesComplement

/-- `&mut packet[from..]` handed to a program, declined when the packet ends before. -/
def onTail {α : Type} (start : ℕ) (m : Edit Bytes α) : Edit Bytes α :=
  within (fun b => if start ≤ b.length then some (b.drop start) else none)
    (fun b t => b.take start ++ t) m

theorem onTail_run {α : Type} {start : ℕ} {b : Bytes} (m : Edit Bytes α) (h : start ≤ b.length) :
    (onTail start m).run b
      = ((m.run (b.drop start)).1, b.take start ++ (m.run (b.drop start)).2) :=
  within_run (by rw [if_pos h])

/-! ## Byte writers -/

/-- `write_ipv4_src`. -/
def writeIpv4Src (ip : ℕ) (addr : Ipv4Addr) : Edit Bytes Unit :=
  modify fun b => writeAt b (ip + 12) (List.ofFn addr)

/-- `write_ipv4_dst`. -/
def writeIpv4Dst (ip : ℕ) (addr : Ipv4Addr) : Edit Bytes Unit :=
  modify fun b => writeAt b (ip + 16) (List.ofFn addr)

/-- `write_ipv6_src`. -/
def writeIpv6Src (ip : ℕ) (addr : Ipv6Addr) : Edit Bytes Unit :=
  modify fun b => writeAt b (ip + 8) (List.ofFn addr)

/-- `write_ipv6_dst`. -/
def writeIpv6Dst (ip : ℕ) (addr : Ipv6Addr) : Edit Bytes Unit :=
  modify fun b => writeAt b (ip + 24) (List.ofFn addr)

/-- `write_l4_src_port`. -/
def writeL4SrcPort (l4 : ℕ) (port : UInt16) : Edit Bytes Unit :=
  modify fun b => if l4 + 2 ≤ b.length then put16 b l4 port else b

/-- `write_l4_dst_port`. -/
def writeL4DstPort (l4 : ℕ) (port : UInt16) : Edit Bytes Unit :=
  modify fun b => if l4 + 4 ≤ b.length then put16 b (l4 + 2) port else b

/-! ## Ports -/

/-- A port that is to become another one: written, and the checksum updated for it. -/
def replacePort (write : UInt16 → Edit Bytes Unit) (l4Offset : ℕ) (protocol : UInt8)
    (family : ChecksumFamily) (old new : UInt16) : Edit Bytes Unit :=
  if old ≠ new then do
    write new
    adjustL4ChecksumPort l4Offset protocol family old new
  else pure ()

/-- One of the two ports of `apply_nat_port_rewrite`. -/
def rewritePort (write : UInt16 → Edit Bytes Unit) (l4Offset portOffset : ℕ) (protocol : UInt8)
    (family : ChecksumFamily) : Option UInt16 → Edit Bytes Unit
  | none => pure ()
  | some new => do
    let old ← read fun b => get16 b portOffset
    replacePort write l4Offset protocol family old new

/-- The end of `apply_nat_port_rewrite`: a stored zero of an IPv6 UDP datagram whose ports a
decision names becomes `0xFFFF`. -/
def portParity (l4Offset : ℕ) (protocol : UInt8) (family : ChecksumFamily) (nat : NatDecision) :
    Edit Bytes Unit :=
  if family = .v6 ∧ protocol = PROTO_UDP
      ∧ (nat.rewriteSrcPort.isSome ∨ nat.rewriteDstPort.isSome) then do
    let stored ← read fun b => getRange b (l4Offset + 6) 2
    if stored = some [0, 0] then writeWord (l4Offset + 6) 0xFFFF else pure ()
  else pure ()

/-- `apply_nat_port_rewrite`. -/
def applyNatPortRewrite (l4Offset : ℕ) (protocol : UInt8) (family : ChecksumFamily)
    (nat : NatDecision) : Edit Bytes Unit :=
  if !hasL4Ports protocol then pure ()
  else do
    let len ← read List.length
    if len < l4Offset + 4 then pure ()
    else do
      rewritePort (writeL4SrcPort l4Offset) l4Offset l4Offset protocol family nat.rewriteSrcPort
      rewritePort (writeL4DstPort l4Offset) l4Offset (l4Offset + 2) protocol family
        nat.rewriteDstPort
      portParity l4Offset protocol family nat

/-! ## ICMP identifiers -/

/-- `write_icmp_identifier`: true when the identifier was changed. -/
def writeIcmpIdentifier (l4Offset : ℕ) (protocol : UInt8) (family : ChecksumFamily)
    (newIdent : UInt16) : Edit Bytes Bool := do
  let len ← read List.length
  let icmpType ← read fun b => byteAt b l4Offset
  let oldIdent ← read fun b => get16 b (l4Offset + 4)
  if protocol ≠ PROTO_ICMP ∧ protocol ≠ PROTO_ICMPV6 then pure false
  else if len < l4Offset + 6 then pure false
  else if !icmpIdentifierBearing protocol icmpType then pure false
  else if oldIdent = newIdent then pure false
  else do
    writeWord (l4Offset + 4) newIdent
    let current ← readWord (l4Offset + 2)
    writeWord (l4Offset + 2)
      (canonicalChecksum protocol family (checksum16Adjust current [oldIdent] [newIdent]))
    pure true

/-- `apply_nat_icmp_identifier_rewrite`. -/
def applyNatIcmpIdentifierRewrite (l4Offset : ℕ) (protocol : UInt8) (family : ChecksumFamily)
    (nat : NatDecision) : Edit Bytes Unit :=
  if protocol ≠ PROTO_ICMP ∧ protocol ≠ PROTO_ICMPV6 then pure ()
  else
    match nat.rewriteSrcPort.or nat.rewriteDstPort with
    | none => pure ()
    | some newIdent => do
      let _ ← writeIcmpIdentifier l4Offset protocol family newIdent
      pure ()

/-- `restore_l4_tuple_from_meta`. -/
def restoreL4TupleFromMeta (fpm : ForwardPacketMeta) (relL4 : ℕ) (nonFirstFragment : Bool) :
    Edit Bytes Bool :=
  if nonFirstFragment then pure false
  else if fpm.protocol = PROTO_ICMP ∨ fpm.protocol = PROTO_ICMPV6 then
    match checksumFamilyOf fpm.addrFamily with
    | none => pure false
    | some family => writeIcmpIdentifier relL4 fpm.protocol family fpm.flowSrcPort
  else pure false

/-! ## Addresses -/

/-- `rewrite.and_then(|ip| match ip { IpAddr::V4(ip) => Some(ip), _ => None })`. -/
def ipv4Of : Option IpAddr → Option Ipv4Addr
  | some (.v4 ip) => some ip
  | _ => none

/-- The same for `IpAddr::V6`. -/
def ipv6Of : Option IpAddr → Option Ipv6Addr
  | some (.v6 ip) => some ip
  | _ => none

/-- The checksum update of `apply_nat_ipv4` for two new addresses. -/
def adjustBothIpv4 (ihl : ℕ) (protocol : UInt8) (oldSrc newSrc oldDst newDst : Ipv4Addr) :
    Edit Bytes Unit :=
  if protocol = PROTO_TCP then adjustL4ChecksumIpv4 ihl protocol oldSrc newSrc oldDst newDst
  else if protocol = PROTO_UDP then do
    let keepZero ← read fun b => decide (getRange b (ihl + 6) 2 = some [0, 0])
    if keepZero then pure ()
    else adjustL4ChecksumIpv4 ihl protocol oldSrc newSrc oldDst newDst
  else pure ()

/-- The address part of `apply_nat_ipv4`. -/
def applyNatIpv4Addrs (ihl : ℕ) (protocol : UInt8) (nonFirstFragment : Bool)
    (newSrc newDst : Option Ipv4Addr) : Edit Bytes Unit := do
  let oldSrc ← read fun b => ipv4At b 12
  let oldDst ← read fun b => ipv4At b 16
  match newSrc, newDst with
  | some src, none =>
    writeIpv4Src 0 src
    if nonFirstFragment then pure () else adjustL4ChecksumIpv4Addr ihl protocol oldSrc src
  | none, some dst =>
    writeIpv4Dst 0 dst
    if nonFirstFragment then pure () else adjustL4ChecksumIpv4Addr ihl protocol oldDst dst
  | some src, some dst =>
    writeIpv4Src 0 src
    writeIpv4Dst 0 dst
    if nonFirstFragment then pure () else adjustBothIpv4 ihl protocol oldSrc src oldDst dst
  | none, none => pure ()

/-- The L4 part of `apply_nat_ipv4` and `apply_nat_ipv6`. -/
def applyNatL4 (l4Offset : ℕ) (protocol : UInt8) (family : ChecksumFamily) (nat : NatDecision)
    (nonFirstFragment : Bool) : Edit Bytes Unit :=
  if nonFirstFragment then pure ()
  else do
    applyNatPortRewrite l4Offset protocol family nat
    applyNatIcmpIdentifierRewrite l4Offset protocol family nat

/-- `apply_nat_ipv4`. -/
def applyNatIpv4 (protocol : UInt8) (nat : NatDecision) (nonFirstFragment : Bool) :
    Edit Bytes Unit :=
  if nat = NatDecision.default then pure ()
  else do
    require fun b => 20 ≤ b.length
    let ihl ← read fun b => ipv4Ihl b 0
    require fun b => 20 ≤ ihl ∧ ihl ≤ b.length
    applyNatIpv4Addrs ihl protocol nonFirstFragment (ipv4Of nat.rewriteSrc) (ipv4Of nat.rewriteDst)
    applyNatL4 ihl protocol .v4 nat nonFirstFragment

/-- The checksum update of `apply_nat_ipv6` for two new addresses. -/
def adjustBothIpv6 (relL4 : ℕ) (protocol : UInt8) (oldSrc newSrc oldDst newDst : Ipv6Addr) :
    Edit Bytes Unit :=
  if protocol = PROTO_TCP ∨ protocol = PROTO_UDP ∨ protocol = PROTO_ICMPV6 then do
    adjustL4ChecksumIpv6Words relL4 protocol (ipv6WordsFromOctets oldSrc)
      (ipv6WordsFromOctets newSrc)
    adjustL4ChecksumIpv6Words relL4 protocol (ipv6WordsFromOctets oldDst)
      (ipv6WordsFromOctets newDst)
  else pure ()

/-- The address part of `apply_nat_ipv6`. -/
def applyNatIpv6Addrs (relL4 : ℕ) (protocol : UInt8) (skipL4Csum : Bool)
    (newSrc newDst : Option Ipv6Addr) : Edit Bytes Unit := do
  let oldSrc ← read fun b => ipv6At b 8
  let oldDst ← read fun b => ipv6At b 24
  match newSrc, newDst with
  | some src, none =>
    writeIpv6Src 0 src
    if skipL4Csum then pure () else adjustL4ChecksumIpv6AddrBytes relL4 protocol oldSrc src
  | none, some dst =>
    writeIpv6Dst 0 dst
    if skipL4Csum then pure () else adjustL4ChecksumIpv6AddrBytes relL4 protocol oldDst dst
  | some src, some dst =>
    writeIpv6Src 0 src
    writeIpv6Dst 0 dst
    if skipL4Csum then pure () else adjustBothIpv6 relL4 protocol oldSrc src oldDst dst
  | none, none => pure ()

/-- The decision `apply_nat_ipv6` applies: no port is rewritten through AH. -/
def stripPorts (ahSighted : Bool) (nat : NatDecision) : NatDecision :=
  if ahSighted then { nat with rewriteSrcPort := none, rewriteDstPort := none } else nat

/-- `apply_nat_ipv6`. -/
def applyNatIpv6 (relL4 : ℕ) (protocol : UInt8) (nat : NatDecision) (nonFirstFragment : Bool) :
    Edit Bytes Unit := do
  let ahSighted ← read fun b => ipv6AhSighted b AF_INET6 0
  let nat := stripPorts ahSighted nat
  if nat = NatDecision.default then pure ()
  else do
    require fun b => 40 ≤ b.length
    applyNatIpv6Addrs relL4 protocol (!natFoldsL4Checksum nat || nonFirstFragment)
      (ipv6Of nat.rewriteSrc) (ipv6Of nat.rewriteDst)
    applyNatL4 relL4 protocol .v6 nat nonFirstFragment

/-! ## Expected ports -/

/-- `enforce_expected_ports`, on the whole frame. -/
def enforceExpectedPorts (addrFamily protocol : UInt8) (expectedPorts : Option (UInt16 × UInt16))
    (nonFirstFragment : Bool) : Edit Bytes Bool :=
  match expectedPorts with
  | none => pure false
  | some (expectedSrc, expectedDst) =>
    if !hasL4Ports protocol || nonFirstFragment then pure false
    else
      match checksumFamilyOf addrFamily with
      | none => pure false
      | some family => do
        let l3 ← check frameL3Offset
        let l4 ← check fun frame => frameL4Offset frame addrFamily
        let ports ← check fun frame => getRange frame l4 4
        let currentSrc := get16 ports 0
        let currentDst := get16 ports 2
        if currentSrc = expectedSrc ∧ currentDst = expectedDst then pure false
        else do
          require fun _ => l3 ≤ l4
          let relL4 := l4 - l3
          onTail l3 do
            replacePort (writeL4SrcPort relL4) relL4 protocol family currentSrc expectedSrc
            replacePort (writeL4DstPort relL4) relL4 protocol family currentDst expectedDst
          pure true

/-! ## The MSS clamp -/

def TCP_OPTION_KIND_AO : UInt8 := 29

/-- One round of the option walk of `tcp_header_has_option_kind`. -/
def optionKindStep (tcp : Bytes) (headerLen : ℕ) (kinds : List UInt8) (pos : ℕ) : ℕ ⊕ Bool :=
  if headerLen ≤ pos then .inr false
  else
    let kind := byteAt tcp pos
    let optLen := (byteAt tcp (pos + 1)).toNat
    if kind = 0 then .inr false
    else if kind = 1 then .inl (pos + 1)
    else if headerLen ≤ pos + 1 then .inr false
    else if optLen < 2 ∨ headerLen < pos + optLen then .inr false
    else if kinds.contains kind then .inr true
    else .inl (pos + optLen)

/-- `tcp_header_has_option_kind`. -/
def tcpHeaderHasOptionKind (tcp : Bytes) (headerLen : ℕ) (kinds : List UInt8) : Bool :=
  if headerLen < 20 ∨ tcp.length < headerLen then false
  else Loop.run (optionKindStep tcp headerLen kinds) (fun _ => false) (headerLen - ·) 20

/-- One round of the option walk of `clamp_tcp_mss`, to the MSS option. -/
def mssOptionStep (tcp : Bytes) (dataOffset pos : ℕ) : ℕ ⊕ Option ℕ :=
  if dataOffset < pos + 4 then .inr none
  else
    let kind := byteAt tcp pos
    let optLen := (byteAt tcp (pos + 1)).toNat
    if kind = 0 then .inr none
    else if kind = 1 then .inl (pos + 1)
    else if optLen < 2 ∨ dataOffset < pos + optLen then .inr none
    else if kind = 2 ∧ optLen = 4 then .inr (some pos)
    else .inl (pos + optLen)

/-- The L4 offset and the protocol of `clamp_tcp_mss`, when it is not a later fragment. -/
def mssL4 (packet : Bytes) : Option (ℕ × UInt8) :=
  if byteAt packet 0 >>> 4 = 4 then
    if ipv4IsNonFirstFragment packet ∨ packet.length < 20 then none
    else some (ipv4Ihl packet 0, byteAt packet 9)
  else if byteAt packet 0 >>> 4 = 6 then
    if ipv6IsNonFirstFragment packet ∨ packet.length < 40 then none
    else ipv6RelL4OffsetAndProtocol packet
  else none

/-- `u16::swap_bytes` of a word at an odd position. -/
def wordAtPos (pos : ℕ) (w : UInt16) : UInt16 :=
  if pos % 2 = 0 then w else fromBe (UInt8.ofNat w.toNat) (UInt8.ofNat (w.toNat / 256))

/-- The TCP segment of `clamp_tcp_mss` with its MSS option lowered. -/
def clampMssOption (tcp : Bytes) (pos : ℕ) (maxMss : UInt16) : Bytes :=
  let currentMss := get16 tcp (pos + 2)
  if maxMss < currentMss then
    let oldVal := (wordAtPos pos currentMss).toNat
    let newVal := compl16 (wordAtPos pos maxMss)
    let sum := fold (fold ((get16 tcp 16).toNat + oldVal + newVal))
    put16 (put16 tcp (pos + 2) maxMss) 16 (UInt16.ofNat sum)
  else tcp

/-- The segment after `clamp_tcp_mss`. -/
def clampTcpSegment (tcp : Bytes) (maxMss : UInt16) : Bytes :=
  let dataOffset := (byteAt tcp 12 >>> 4).toNat * 4
  if tcp.length < 20 then tcp
  else if byteAt tcp 13 &&& 2 = 0 then tcp
  else if dataOffset < 20 ∨ tcp.length < dataOffset then tcp
  else if tcpHeaderHasOptionKind tcp dataOffset [TCP_OPTION_KIND_AO] then tcp
  else
    match Loop.run (mssOptionStep tcp dataOffset) (fun _ => none) (dataOffset - ·) 20 with
    | none => tcp
    | some pos => clampMssOption tcp pos maxMss

/-- `clamp_tcp_mss`: the packet after it. -/
def clampTcpMss (packet : Bytes) (maxMss : UInt16) : Bytes :=
  if maxMss = 0 ∨ packet.isEmpty then packet
  else
    match mssL4 packet with
    | none => packet
    | some (l4Offset, protocol) =>
      if protocol ≠ PROTO_TCP then packet
      else if byteAt packet 0 >>> 4 = 6 ∧ ipv6AhSighted packet AF_INET6 0 then packet
      else if packet.length < l4Offset then packet
      else packet.take l4Offset ++ clampTcpSegment (packet.drop l4Offset) maxMss

/-- `clamp_tcp_mss_frame`. -/
def clampTcpMssFrame (l3Offset : ℕ) (maxMss : UInt16) : Edit Bytes Unit :=
  modify fun frame =>
    if maxMss = 0 ∨ frame.length ≤ l3Offset then frame
    else frame.take l3Offset ++ clampTcpMss (frame.drop l3Offset) maxMss

end Xpf.Frames
