/-
In-place rewrites of a frame in UMEM: `userspace-dp/src/afxdp/frame/mod.rs`,
`frame/rewrite/` and the slices of `umem/mmap.rs`.

There are two of them. `rewriteForwardedFrameInPlace` derives everything from the
forwarding decision, `applyRewriteDescriptor` takes a descriptor that a cached flow has
precomputed. Both work in three steps.

| | reads | writes |
|---|---|---|
| plan and validation | the frame, as it was received | nothing |
| `rewriteCommitEthFromPlan` | the plan | the Ethernet header, and the payload when it has to move |
| `rewriteApplyV4`, `rewriteApplyV6` and the two of the descriptor | the moved frame | addresses, ports, TTL, checksums |

A declined rewrite is offered to another path by the callers, which then reads the same
bytes again.
-/
import Xpf.FrameNat

set_option autoImplicit false

namespace Xpf.Frames

open Xpf.ByteBuffer Xpf.Edits Xpf.Edits.Edit Xpf.OnesComplement

/-! ## UMEM -/

/-- The bytes of the mapping. -/
abbrev MmapArea := Bytes

def UMEM_FRAME_SIZE : ℕ := 4096

/-- `frame_contained`: a range inside one UMEM frame. -/
def frameContained (offset len : ℕ) : Bool :=
  if UMEM_FRAME_SIZE < len then false
  else offset % UMEM_FRAME_SIZE + len ≤ UMEM_FRAME_SIZE

/-- `MmapArea::slice`. -/
def slice (area : MmapArea) (offset len : ℕ) : Option Bytes :=
  if offset + len ≤ area.length ∧ frameContained offset len then some (sub area offset len)
  else none

/-- A program on `slice_mut_unchecked(offset, len)?`. -/
def onSliceMut {α : Type} (offset len : ℕ) (m : Edit Bytes α) : Edit MmapArea α :=
  within (fun area => slice area offset len) (fun area t => writeAt area offset t) m

/-- `XdpDesc`. -/
structure XdpDesc where
  addr : UInt64
  len : UInt32

/-! ## Decisions and descriptors -/

abbrev MacAddr := Fin 6 → UInt8

/-- `ForwardingDisposition`. -/
inductive ForwardingDisposition
  | localDelivery
  | forwardCandidate
  | fabricRedirect
  | haInactive
  | clusterTerminalHAInactive
  | policyDenied
  | noRoute
  | missingNeighbor
  | discardRoute
  | rejectRoute
  | nextTableUnsupported
  | tableUnavailable
deriving DecidableEq

/-- `SessionDecision`, the fields the rewrite reads of it and of its resolution. -/
structure SessionDecision where
  disposition : ForwardingDisposition
  neighborMac : Option MacAddr
  srcMac : Option MacAddr
  txVlanId : UInt16
  nat : NatDecision

/-- `RewriteDescriptor`, the fields the rewrite reads. -/
structure RewriteDescriptor where
  dstMac : MacAddr
  srcMac : MacAddr
  fabricRedirect : Bool
  txVlanId : UInt16
  etherType : UInt16
  rewriteSrcIp : Option IpAddr
  rewriteDstIp : Option IpAddr
  rewriteSrcPort : Option UInt16
  rewriteDstPort : Option UInt16
  ipCsumDelta : UInt16
  l4CsumDelta : UInt16
  nat64 : Bool
  nptv6 : Bool
  applyNatOnFabric : Bool

/-- `RewriteDescriptor::from_decision`: the fields that come from the NAT decision, on top of
the others. -/
def RewriteDescriptor.fromDecision (flow : SessionFlow) (nat : NatDecision)
    (rest : RewriteDescriptor) : RewriteDescriptor :=
  { rest with
    rewriteSrcIp := nat.rewriteSrc
    rewriteDstIp := nat.rewriteDst
    rewriteSrcPort := nat.rewriteSrcPort
    rewriteDstPort := nat.rewriteDstPort
    ipCsumDelta := computeIpCsumDelta flow nat
    l4CsumDelta := computeL4CsumDelta flow nat
    nat64 := nat.nat64
    nptv6 := nat.nptv6 }

/-- `InPlaceL2Rewrite`. -/
inductive InPlaceL2Rewrite
  | sameLength
  | vlanPushDescriptor
  | vlanPopDescriptor
  | vlanPushMemmoveNoHeadroom
  | unsupportedMemmove
deriving DecidableEq

/-- `InPlaceRewriteResult`. -/
structure InPlaceRewriteResult where
  offset : ℕ
  len : ℕ
  l2Rewrite : InPlaceL2Rewrite
deriving DecidableEq

/-! ## The Ethernet header -/

/-- `RewriteEthParams`. -/
structure RewriteEthParams where
  dstMac : MacAddr
  srcMac : MacAddr
  vlanId : UInt16
  etherType : UInt16
  applyNat : Bool

/-- The bytes `write_eth_header_slice` writes: a tag when the twelve bits of the VLAN id are
not zero. -/
def ethHeader (params : RewriteEthParams) : Bytes :=
  let vid := params.vlanId &&& 0x0fff
  List.ofFn params.dstMac ++ List.ofFn params.srcMac
    ++ (if vid ≠ 0 then toBe 0x8100 ++ toBe vid else []) ++ toBe params.etherType

/-- `write_eth_header_slice`. -/
def writeEthHeaderSlice (params : RewriteEthParams) : Edit Bytes Unit := do
  require fun b => (ethHeader params).length ≤ b.length
  modify fun b => writeAt b 0 (ethHeader params)

/-- `descriptor_view_in_same_umem_frame`. -/
def descriptorViewInSameUmemFrame (rxAddr txAddr len : ℕ) : Bool :=
  let frameBase := rxAddr / UMEM_FRAME_SIZE * UMEM_FRAME_SIZE
  frameBase ≤ txAddr && txAddr + len < 2 ^ 64 && txAddr + len ≤ frameBase + UMEM_FRAME_SIZE

/-- `classify_in_place_l2_rewrite`: where the frame is sent from, and how it gets there. -/
def classifyInPlaceL2Rewrite (rxAddr currentL3 targetEthLen frameLen : ℕ) :
    Option (ℕ × InPlaceL2Rewrite) :=
  if targetEthLen = currentL3 then some (rxAddr, .sameLength)
  else if currentL3 = 14 ∧ targetEthLen = 18 then
    if rxAddr < 4 then some (rxAddr, .vlanPushMemmoveNoHeadroom)
    else if descriptorViewInSameUmemFrame rxAddr (rxAddr - 4) frameLen then
      some (rxAddr - 4, .vlanPushDescriptor)
    else some (rxAddr, .vlanPushMemmoveNoHeadroom)
  else if currentL3 = 18 ∧ targetEthLen = 14 then
    if 2 ^ 64 ≤ rxAddr + 4 then none
    else if descriptorViewInSameUmemFrame rxAddr (rxAddr + 4) frameLen then
      some (rxAddr + 4, .vlanPopDescriptor)
    else some (rxAddr, .unsupportedMemmove)
  else some (rxAddr, .unsupportedMemmove)

/-- `EthRewritePlan`, with its `RewritePrep`. -/
structure EthRewritePlan where
  l3 : ℕ
  stampTrusted : Bool
  payloadLen : ℕ
  ethLen : ℕ
  frameLen : ℕ
  txOffset : ℕ
  l2Rewrite : InPlaceL2Rewrite
  applyNat : Bool
  skipTtl : Bool

/-- The metadata with the L3 offset the frame was found to have; an L4 offset that came with a
wrong L3 offset goes too. -/
def cohereOffsets (fpm : ForwardPacketMeta) (l3 : ℕ) (stampTrusted : Bool) : ForwardPacketMeta :=
  { fpm with
    l3Offset := UInt16.ofNat l3
    l4Offset := if stampTrusted then fpm.l4Offset else UInt16.ofNat l3 }

/-- `rewrite_plan_eth_from_parts`. -/
def rewritePlanEthFromParts (area : MmapArea) (desc : XdpDesc) (fpm : ForwardPacketMeta)
    (params : RewriteEthParams) : Option EthRewritePlan := do
  let frame ← slice area desc.addr.toNat desc.len.toNat
  let checked ← nibbleCheckedL3 frame fpm.l3Offset fpm.addrFamily
  if desc.len.toNat ≤ checked.l3 then none
  else
    let payloadLen :=
      (trimL3Payload (frame.drop checked.l3)
        (cohereOffsets fpm checked.l3 checked.stampTrusted)).length
    let ethLen := if 0 < params.vlanId then 18 else 14
    let frameLen := ethLen + payloadLen
    let (txOffset, l2Rewrite) ←
      classifyInPlaceL2Rewrite desc.addr.toNat checked.l3 ethLen frameLen
    some
      { l3 := checked.l3
        stampTrusted := checked.stampTrusted
        payloadLen
        ethLen
        frameLen
        txOffset
        l2Rewrite
        applyNat := params.applyNat
        skipTtl := fpm.metaFlags &&& 0x80 ≠ 0 }

/-- `frame.get_mut(..len)?` handed to a program. -/
def onHead {α : Type} (len : ℕ) (m : Edit Bytes α) : Edit Bytes α :=
  within (fun b => if len ≤ b.length then some (b.take len) else none)
    (fun b t => t ++ b.drop len) m

theorem onHead_run {α : Type} {len : ℕ} {b : Bytes} (m : Edit Bytes α) (h : len ≤ b.length) :
    (onHead len m).run b = ((m.run (b.take len)).1, (m.run (b.take len)).2 ++ b.drop len) :=
  within_run (by rw [if_pos h])

/-- The part of `rewrite_commit_eth_from_plan` that moves the payload, on the rest of the UMEM
frame. -/
def moveAndWriteHeader (plan : EthRewritePlan) (params : RewriteEthParams) :
    Edit Bytes Unit := do
  require fun b => plan.frameLen ≤ b.length ∧ plan.l3 + plan.payloadLen ≤ b.length
  modify fun b => writeAt b plan.ethLen (sub b plan.l3 plan.payloadLen)
  onHead plan.ethLen (writeEthHeaderSlice params)

/-- `rewrite_commit_eth_from_plan`. -/
def rewriteCommitEthFromPlan (desc : XdpDesc) (plan : EthRewritePlan)
    (params : RewriteEthParams) : Edit MmapArea Unit :=
  if plan.l2Rewrite = .vlanPushMemmoveNoHeadroom ∨ plan.l2Rewrite = .unsupportedMemmove then
    onSliceMut desc.addr.toNat (UMEM_FRAME_SIZE - desc.addr.toNat % UMEM_FRAME_SIZE)
      (moveAndWriteHeader plan params)
  else
    onSliceMut plan.txOffset plan.frameLen (onHead plan.ethLen (writeEthHeaderSlice params))

/-- The L3 payload the plan found, in the frame as it was received. -/
def plannedL3Payload (area : MmapArea) (desc : XdpDesc) (plan : EthRewritePlan) : Option Bytes := do
  let frame ← slice area desc.addr.toNat desc.len.toNat
  getRange frame plan.l3 plan.payloadLen

/-! ## The generic rewrite -/

/-- `rewrite_eth_params`. -/
def rewriteEthParams (fpm : ForwardPacketMeta) (decision : SessionDecision)
    (applyNatOnFabric : Bool) : Option RewriteEthParams := do
  let dstMac ← decision.neighborMac
  let srcMac ← decision.srcMac
  let etherType ←
    if fpm.addrFamily = AF_INET then some 0x0800
    else if fpm.addrFamily = AF_INET6 then some 0x86dd
    else none
  some
    { dstMac
      srcMac
      vlanId := decision.txVlanId
      etherType
      applyNat := if decision.disposition = .fabricRedirect then applyNatOnFabric else true }

/-- The gates every rewrite of an IPv4 packet has. -/
def ipv4Gates (l3Payload : Bytes) (skipTtl : Bool) : Bool :=
  let ihl := ipv4Ihl l3Payload 0
  20 ≤ l3Payload.length && 20 ≤ ihl && ihl ≤ l3Payload.length
    && (skipTtl || 1 < byteAt l3Payload 8)

/-- `validate_generic_rewrite_v4`. -/
def validateGenericRewriteV4 (l3Payload : Bytes) (fpm : ForwardPacketMeta) (nat : NatDecision)
    (applyNat skipTtl : Bool) : Option Unit :=
  if !ipv4Gates l3Payload skipTtl then none
  else if applyNat && nat ≠ NatDecision.default && !ipv4IsNonFirstFragment l3Payload then
    match l4ChecksumFieldDeltaV4 fpm.protocol with
    | some delta => if l3Payload.length < ipv4Ihl l3Payload 0 + delta + 2 then none else some ()
    | none => some ()
  else some ()

/-- `validate_generic_rewrite_v6`. -/
def validateGenericRewriteV6 (l3Payload : Bytes) (fpm : ForwardPacketMeta) (nat : NatDecision)
    (applyNat skipTtl : Bool) : Option ℕ :=
  if l3Payload.length < 40 then none
  else if !skipTtl && byteAt l3Payload 7 ≤ 1 then none
  else
    match v6RelL4Offset l3Payload fpm.l3Offset fpm.l4Offset fpm.addrFamily with
    | none => none
    | some relL4 =>
      if applyNat && nat ≠ NatDecision.default && !ipv6IsNonFirstFragment l3Payload then
        match l4ChecksumFieldDeltaV6 fpm.protocol with
        | some delta => if l3Payload.length < relL4 + delta + 2 then none else some relL4
        | none => some relL4
      else some relL4

/-- `packet[at] -= 1`. -/
def decrement (i : ℕ) : Edit Bytes Unit := modify fun b => writeAt b i [byteAt b i - 1]

/-- A step of a rewrite that only some packets need. -/
def doIf (c : Bool) (m : Edit Bytes Unit) : Edit Bytes Unit := if c then m else pure ()

/-- `rewrite_apply_v4`. -/
def rewriteApplyV4 (ipStart : ℕ) (fpm : ForwardPacketMeta) (nat : NatDecision)
    (applyNat skipTtl : Bool) (expectedPorts : Option (UInt16 × UInt16)) : Edit Bytes Unit := do
  require fun packet => ipStart + 20 ≤ packet.length
  let ihl ← read fun packet => ipv4Ihl packet ipStart
  require fun packet => 20 ≤ ihl ∧ ipStart + ihl ≤ packet.length
  let oldTtl ← read fun packet => byteAt packet (ipStart + 8)
  require fun _ => skipTtl ∨ 1 < oldTtl
  let oldSrc ← read fun packet => ipv4At packet (ipStart + 12)
  let oldDst ← read fun packet => ipv4At packet (ipStart + 16)
  let nonFirstFragment ← read fun packet => ipv4IsNonFirstFragment (packet.drop ipStart)
  let repairedPorts ←
    unwrapOr (onTail ipStart (restoreL4TupleFromMeta fpm ihl nonFirstFragment)) false
  let enforced ←
    unwrapOr (enforceExpectedPorts fpm.addrFamily fpm.protocol expectedPorts nonFirstFragment)
      false
  doIf applyNat (onTail ipStart (applyNatIpv4 fpm.protocol nat nonFirstFragment))
  doIf (!skipTtl) (decrement (ipStart + 8))
  onTail ipStart (onHead ihl (adjustIpv4HeaderChecksum oldSrc oldDst oldTtl))
  doIf (repairedPorts && !enforced)
    (onTail ipStart (recomputeL4ChecksumIpv4 ihl fpm.protocol true))

/-- `rewrite_apply_v6`. -/
def rewriteApplyV6 (ipStart : ℕ) (fpm : ForwardPacketMeta) (nat : NatDecision)
    (applyNat skipTtl : Bool) (expectedPorts : Option (UInt16 × UInt16)) : Edit Bytes Unit := do
  require fun packet => ipStart + 40 ≤ packet.length
  require fun packet => skipTtl ∨ 1 < byteAt packet (ipStart + 7)
  let relL4 ← check fun packet =>
    v6RelL4Offset (packet.drop ipStart) fpm.l3Offset fpm.l4Offset fpm.addrFamily
  let nonFirstFragment ← read fun packet => ipv6IsNonFirstFragment (packet.drop ipStart)
  let repairedPorts ←
    unwrapOr (onTail ipStart (restoreL4TupleFromMeta fpm relL4 nonFirstFragment)) false
  let enforced ←
    unwrapOr (enforceExpectedPorts fpm.addrFamily fpm.protocol expectedPorts nonFirstFragment)
      false
  doIf applyNat (onTail ipStart (applyNatIpv6 relL4 fpm.protocol nat nonFirstFragment))
  doIf (!skipTtl) (decrement (ipStart + 7))
  doIf (repairedPorts && !enforced)
    (onTail ipStart (recomputeL4ChecksumIpv6 relL4 fpm.protocol))

/-- The clamp at the end of `rewrite_forwarded_frame_in_place`. -/
def clampSelected (ipStart : ℕ) (addrFamily : UInt8) (selectedTcpMss : UInt16) :
    Edit Bytes Unit := do
  let ahSighted ← read fun packet => ipv6AhSighted packet addrFamily ipStart
  doIf (0 < selectedTcpMss && !ahSighted) (clampTcpMssFrame ipStart selectedTcpMss)

/-- The validation of `rewrite_forwarded_frame_in_place`. -/
def validateGenericRewrite (l3Payload : Bytes) (fpm : ForwardPacketMeta) (nat : NatDecision)
    (applyNat skipTtl : Bool) : Option Unit :=
  if fpm.addrFamily = AF_INET then validateGenericRewriteV4 l3Payload fpm nat applyNat skipTtl
  else if fpm.addrFamily = AF_INET6 then
    (validateGenericRewriteV6 l3Payload fpm nat applyNat skipTtl).map fun _ => ()
  else none

/-- The committing half of `rewrite_forwarded_frame_in_place`, on the frame to send. -/
def rewriteApply (ipStart : ℕ) (fpm : ForwardPacketMeta) (nat : NatDecision)
    (applyNat skipTtl : Bool) (expectedPorts : Option (UInt16 × UInt16)) : Edit Bytes Unit :=
  if fpm.addrFamily = AF_INET then rewriteApplyV4 ipStart fpm nat applyNat skipTtl expectedPorts
  else if fpm.addrFamily = AF_INET6 then
    rewriteApplyV6 ipStart fpm nat applyNat skipTtl expectedPorts
  else decline

/-- `rewrite_forwarded_frame_in_place`. -/
def rewriteForwardedFrameInPlace (desc : XdpDesc) (fpm : ForwardPacketMeta)
    (decision : SessionDecision) (applyNatOnFabric : Bool)
    (expectedPorts : Option (UInt16 × UInt16)) (selectedTcpMss : UInt16) :
    Edit MmapArea InPlaceRewriteResult := do
  let params ← check fun _ => rewriteEthParams fpm decision applyNatOnFabric
  let plan ← check fun area => rewritePlanEthFromParts area desc fpm params
  let fpm := cohereOffsets fpm plan.l3 plan.stampTrusted
  check fun area => (plannedL3Payload area desc plan).bind fun l3Payload =>
    validateGenericRewrite l3Payload fpm decision.nat plan.applyNat plan.skipTtl
  rewriteCommitEthFromPlan desc plan params
  onSliceMut plan.txOffset plan.frameLen do
    rewriteApply plan.ethLen fpm decision.nat plan.applyNat plan.skipTtl expectedPorts
    clampSelected plan.ethLen fpm.addrFamily selectedTcpMss
  pure ⟨plan.txOffset, plan.frameLen, plan.l2Rewrite⟩

/-! ## The descriptor -/

/-- The port gate of both validations: the ports of the packet are the expected ones. -/
def portsExpected (l3Payload : Bytes) (relL4 : ℕ) (protocol : UInt8)
    (expectedPorts : Option (UInt16 × UInt16)) : Bool :=
  match expectedPorts with
  | none => true
  | some (expSrc, expDst) =>
    !(hasL4Ports protocol && relL4 + 4 ≤ l3Payload.length)
      || (get16 l3Payload relL4 == expSrc && get16 l3Payload (relL4 + 2) == expDst)

/-- The checksum field that will be folded: `None` when it is not in the packet, `Some(None)`
when there is none to fold. -/
def foldedField (l3Payload : Bytes) (relL4 : ℕ) (delta : Option ℕ) (foldL4Csum : Bool) :
    Option (Option ℕ) :=
  if !foldL4Csum then some none
  else
    match delta with
    | none => some none
    | some delta =>
      if l3Payload.length < relL4 + delta + 2 then none else some (some (relL4 + delta))

/-- `validate_rewrite_descriptor_ipv4`. -/
def validateRewriteDescriptorIpv4 (l3Payload : Bytes) (skipTtl : Bool) (fpm : ForwardPacketMeta)
    (expectedPorts : Option (UInt16 × UInt16)) (foldL4Csum : Bool) : Option (ℕ × Option ℕ) :=
  let ihl := ipv4Ihl l3Payload 0
  if !ipv4Gates l3Payload skipTtl then none
  else
    match foldedField l3Payload ihl (l4ChecksumFieldDeltaV4 fpm.protocol) foldL4Csum with
    | none => none
    | some field =>
      if portsExpected l3Payload ihl fpm.protocol expectedPorts then some (ihl, field) else none

/-- `validate_rewrite_descriptor_ipv6`. -/
def validateRewriteDescriptorIpv6 (l3Payload : Bytes) (skipTtl : Bool) (fpm : ForwardPacketMeta)
    (expectedPorts : Option (UInt16 × UInt16)) (foldL4Csum : Bool) : Option (ℕ × Option ℕ) :=
  if l3Payload.length < 40 then none
  else if !skipTtl && byteAt l3Payload 7 ≤ 1 then none
  else if ipv6AhSighted l3Payload AF_INET6 0 then none
  else
    match v6RelL4Offset l3Payload fpm.l3Offset fpm.l4Offset fpm.addrFamily with
    | none => none
    | some relL4 =>
      match foldedField l3Payload relL4 (l4ChecksumFieldDeltaV6 fpm.protocol) foldL4Csum with
      | none => none
      | some field =>
        if portsExpected l3Payload relL4 fpm.protocol expectedPorts then some (relL4, field)
        else none

/-- A checksum with a folded difference on top: `!fold(!old + delta)`. -/
def foldDelta (old : UInt16) (delta : ℕ) : UInt16 := checksum16Finish (compl16 old + delta)

/-- A write that only a `Some` needs. -/
def writeIfSome {α : Type} (write : α → Edit Bytes Unit) : Option α → Edit Bytes Unit
  | none => pure ()
  | some a => write a

/-- The L4 checksum of the two descriptor rewrites, at an absolute offset. -/
def foldL4Checksum (ip : ℕ) (field : Option ℕ) (protocol : UInt8) (family : ChecksumFamily)
    (delta : UInt16) : Edit Bytes Unit :=
  match field with
  | none => pure ()
  | some fieldOffset => modify fun b =>
    let old := get16 b (ip + fieldOffset)
    -- an IPv4 UDP datagram without a checksum gets none
    if l4UdpChecksumOptional protocol family && old == 0 then b
    else put16 b (ip + fieldOffset) (canonicalChecksum protocol family (foldDelta old delta.toNat))

/-- `apply_rewrite_descriptor_ipv4`. -/
def applyRewriteDescriptorIpv4 (ip relL4 : ℕ) (field : Option ℕ) (skipTtl applyNat : Bool)
    (fpm : ForwardPacketMeta) (rd : RewriteDescriptor) : Edit Bytes Unit := do
  let l4 := ip + relL4
  doIf applyNat do
    writeIfSome (writeIpv4Src ip) (ipv4Of rd.rewriteSrcIp)
    writeIfSome (writeIpv4Dst ip) (ipv4Of rd.rewriteDstIp)
  doIf (applyNat && hasL4Ports fpm.protocol) do
    writeIfSome (writeL4SrcPort l4) rd.rewriteSrcPort
    writeIfSome (writeL4DstPort l4) rd.rewriteDstPort
  doIf (!skipTtl) (decrement (ip + 8))
  modify fun b =>
    -- `0xFEFF` is a TTL less by one
    let delta := (if applyNat then rd.ipCsumDelta.toNat else 0) + (if skipTtl then 0 else 0xFEFF)
    put16 b (ip + 10) (foldDelta (get16 b (ip + 10)) delta)
  doIf (applyNat && rd.l4CsumDelta ≠ 0)
    (foldL4Checksum ip field fpm.protocol .v4 rd.l4CsumDelta)

/-- `apply_rewrite_descriptor_ipv6`. -/
def applyRewriteDescriptorIpv6 (ip relL4 : ℕ) (field : Option ℕ) (skipTtl applyNat : Bool)
    (fpm : ForwardPacketMeta) (rd : RewriteDescriptor) : Edit Bytes Unit := do
  let l4 := ip + relL4
  doIf applyNat do
    writeIfSome (writeIpv6Src ip) (ipv6Of rd.rewriteSrcIp)
    writeIfSome (writeIpv6Dst ip) (ipv6Of rd.rewriteDstIp)
  doIf (applyNat && hasL4Ports fpm.protocol) do
    writeIfSome (writeL4SrcPort l4) rd.rewriteSrcPort
    writeIfSome (writeL4DstPort l4) rd.rewriteDstPort
  doIf (!skipTtl) (decrement (ip + 7))
  doIf (applyNat && rd.l4CsumDelta ≠ 0)
    (foldL4Checksum ip field fpm.protocol .v6 rd.l4CsumDelta)

/-- The validation of `apply_rewrite_descriptor`. -/
def validateRewriteDescriptor (l3Payload : Bytes) (fpm : ForwardPacketMeta) (rd : RewriteDescriptor)
    (applyNat skipTtl : Bool) (expectedPorts : Option (UInt16 × UInt16)) :
    Option (ℕ × Option ℕ) :=
  let foldL4Csum := applyNat && rd.l4CsumDelta ≠ 0
  if !l3Payload.isEmpty && isNonFirstFragment l3Payload fpm.addrFamily then none
  else if rd.etherType = 0x0800 then
    validateRewriteDescriptorIpv4 l3Payload skipTtl fpm expectedPorts foldL4Csum
  else if rd.etherType = 0x86dd then
    validateRewriteDescriptorIpv6 l3Payload skipTtl fpm expectedPorts foldL4Csum
  else none

/-- The parameters `apply_rewrite_descriptor` takes from its descriptor. -/
def RewriteDescriptor.ethParams (rd : RewriteDescriptor) : RewriteEthParams where
  dstMac := rd.dstMac
  srcMac := rd.srcMac
  vlanId := rd.txVlanId
  etherType := rd.etherType
  applyNat := !rd.fabricRedirect || rd.applyNatOnFabric

/-- The committing half of `apply_rewrite_descriptor`, on the frame to send. -/
def applyDescriptor (plan : EthRewritePlan) (relL4 : ℕ) (field : Option ℕ)
    (fpm : ForwardPacketMeta) (rd : RewriteDescriptor) : Edit Bytes Unit :=
  if rd.etherType = 0x0800 then
    applyRewriteDescriptorIpv4 plan.ethLen relL4 field plan.skipTtl plan.applyNat fpm rd
  else if rd.etherType = 0x86dd then
    applyRewriteDescriptorIpv6 plan.ethLen relL4 field plan.skipTtl plan.applyNat fpm rd
  else decline

/-- `apply_rewrite_descriptor`. -/
def applyRewriteDescriptor (desc : XdpDesc) (fpm : ForwardPacketMeta) (rd : RewriteDescriptor)
    (expectedPorts : Option (UInt16 × UInt16)) : Edit MmapArea InPlaceRewriteResult := do
  require fun _ => rd.nat64 = false
  require fun _ => ¬(rd.nptv6 ∧ rd.etherType ≠ 0x86dd)
  let plan ← check fun area => rewritePlanEthFromParts area desc fpm rd.ethParams
  let fpm := cohereOffsets fpm plan.l3 plan.stampTrusted
  let offsets ← check fun area => (plannedL3Payload area desc plan).bind fun l3Payload =>
    validateRewriteDescriptor l3Payload fpm rd plan.applyNat plan.skipTtl expectedPorts
  rewriteCommitEthFromPlan desc plan rd.ethParams
  onSliceMut plan.txOffset plan.frameLen (applyDescriptor plan offsets.1 offsets.2 fpm rd)
  pure ⟨plan.txOffset, plan.frameLen, plan.l2Rewrite⟩

end Xpf.Frames
