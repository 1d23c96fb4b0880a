/-
Where the headers of a frame are: `userspace-dp/src/afxdp/frame/inspect.rs`.

The rewrites below work on a frame whose L3 and L4 offsets come from the metadata the XDP
program stamped, from the Ethernet type or from a walk of the IPv6 extension headers, and
this file has the three. A frame is its bytes and every offset is a natural number; the
sums of the source stay far below `usize`, so its `checked_add`s never fail.

The walk keeps of `ExtChainWalk` what the rewrites read: how it ended, the first Fragment
header, whether a Fragment header with an offset was seen, and whether AH was.
-/
import Xpf.ByteBuffer

set_option autoImplicit false

namespace Xpf.Frames

open Xpf.ByteBuffer

/-! ## Families, protocols, metadata -/

def AF_INET : UInt8 := 2
def AF_INET6 : UInt8 := 10

def PROTO_ICMP : UInt8 := 1
def PROTO_TCP : UInt8 := 6
def PROTO_UDP : UInt8 := 17
def PROTO_ICMPV6 : UInt8 := 58

/-- `SHIM_PROTO_FRAGMENT_NO_L4`. -/
def SHIM_PROTO_FRAGMENT_NO_L4 : UInt8 := 255

/-- `ForwardPacketMeta`, the fields the rewrites read. -/
structure ForwardPacketMeta where
  l3Offset : UInt16
  l4Offset : UInt16
  pktLen : UInt16
  addrFamily : UInt8
  protocol : UInt8
  metaFlags : UInt8
  flowSrcPort : UInt16
deriving DecidableEq

/-- `has_l4_ports`: the protocols that start with a port pair. -/
def hasL4Ports (protocol : UInt8) : Bool := protocol == PROTO_TCP || protocol == PROTO_UDP

/-- `icmp_identifier_bearing`: the query types, which have an identifier. -/
def icmpIdentifierBearing (protocol icmpType : UInt8) : Bool :=
  if protocol = PROTO_ICMP then [0, 8, 13, 14, 15, 16].contains icmpType
  else if protocol = PROTO_ICMPV6 then [128, 129].contains icmpType
  else false

/-! ## The IPv6 extension-header walk -/

/-- `ExtChainOutcome`. -/
inductive ExtChainOutcome
  | l4 (offset : ℕ) (protocol : UInt8)
  | noNextHeader
  | truncated
  | nonFirstFragment
  | overLimit
deriving DecidableEq

/-- `ExtChainFragment`. -/
structure ExtChainFragment where
  bytes : Option Bytes
  headerOffset : ℕ
deriving DecidableEq

/-- What the walk has seen on its way. -/
structure Sightings where
  fragment : Option ExtChainFragment
  nonFirstFragmentOffsetSeen : Bool
  ahPresent : Bool
deriving DecidableEq

/-- `ExtChainWalk`. -/
structure ExtChainWalk extends Sightings where
  outcome : ExtChainOutcome
deriving DecidableEq

def MAX_IPV6_EXT_HEADERS : ℕ := 8

/-- `IPV6_GENERIC_EXT_HEADERS`. -/
def IPV6_GENERIC_EXT_HEADERS : List UInt8 := [0, 43, 60, 135, 139, 140, 253, 254]

/-- `ipv6_ext_header_is_traversable`. -/
def ipv6ExtHeaderIsTraversable (protocol : UInt8) : Bool :=
  IPV6_GENERIC_EXT_HEADERS.contains protocol || protocol == 44 || protocol == 51

/-- `record_fragment_sighting`: the Fragment header at `offset`, when it is readable. -/
def recordFragmentSighting (buf : Bytes) (offset : ℕ) (seen : Sightings) :
    Option Bytes × Sightings :=
  let header := getRange buf offset 8
  let seen :=
    if seen.fragment.isNone then { seen with fragment := some ⟨header, offset⟩ } else seen
  match header with
  | some f =>
    if get16 f 2 &&& 0xFFF8 ≠ 0 then (header, { seen with nonFirstFragmentOffsetSeen := true })
    else (header, seen)
  | none => (header, seen)

/-- One round of `walk_ipv6_ext_chain`: the next header, or the end of the walk. -/
def extHeaderStep (buf : Bytes) (last : Bool) (protocol : UInt8) (offset : ℕ) (seen : Sightings) :
    (UInt8 × ℕ × Sightings) ⊕ ExtChainWalk :=
  -- a header that would have to be stepped over in the last round is over the limit
  if last && ipv6ExtHeaderIsTraversable protocol then
    if protocol = 44 then .inr ⟨(recordFragmentSighting buf offset seen).2, .overLimit⟩
    else .inr ⟨seen, .overLimit⟩
  else if IPV6_GENERIC_EXT_HEADERS.contains protocol then
    match getRange buf offset 2 with
    | none => .inr ⟨seen, .truncated⟩
    | some opt =>
      let next := offset + ((byteAt opt 1).toNat + 1) * 8
      -- a Routing header is read up to its type
      if protocol = 43 ∧ (getRange buf offset 4).isNone then .inr ⟨seen, .truncated⟩
      else if buf.length < next then .inr ⟨seen, .truncated⟩
      else .inl (byteAt opt 0, next, seen)
  else if protocol = 51 then
    match getRange buf offset 2 with
    | none => .inr ⟨seen, .truncated⟩
    | some opt =>
      let next := offset + ((byteAt opt 1).toNat + 2) * 4
      let seen := { seen with ahPresent := true }
      if buf.length < next then .inr ⟨seen, .truncated⟩
      else .inl (byteAt opt 0, next, seen)
  else if protocol = 44 then
    match recordFragmentSighting buf offset seen with
    | (none, seen) => .inr ⟨seen, .truncated⟩
    | (some frag, seen) =>
      if buf.length < offset + 8 then .inr ⟨seen, .truncated⟩
      else if seen.nonFirstFragmentOffsetSeen then .inr ⟨seen, .nonFirstFragment⟩
      else .inl (byteAt frag 0, offset + 8, seen)
  else if protocol = 59 then .inr ⟨seen, .noNextHeader⟩
  else .inr ⟨seen, .l4 offset protocol⟩

/-- The loop of `walk_ipv6_ext_chain`, with the rounds that are left. -/
def walkExtHeaders (buf : Bytes) : ℕ → UInt8 → ℕ → Sightings → ExtChainWalk
  | 0, _, _, seen => ⟨seen, .overLimit⟩
  | n + 1, protocol, offset, seen =>
    match extHeaderStep buf (n == 0) protocol offset seen with
    | .inl (protocol, offset, seen) => walkExtHeaders buf n protocol offset seen
    | .inr walk => walk

/-- `walk_ipv6_ext_chain`. -/
def walkIpv6ExtChain (buf : Bytes) (l3 : ℕ) : ExtChainWalk :=
  if buf.length < l3 + 40 then ⟨⟨none, false, false⟩, .truncated⟩
  else
    walkExtHeaders buf MAX_IPV6_EXT_HEADERS (byteAt buf (l3 + 6)) (l3 + 40) ⟨none, false, false⟩

/-- A round goes on behind its header, or ends the walk at it. -/
theorem extHeaderStep_offset (buf : Bytes) (last : Bool) (protocol : UInt8) (offset : ℕ)
    (seen : Sightings) :
    (∃ protocol' offset' seen', extHeaderStep buf last protocol offset seen
        = .inl (protocol', offset', seen') ∧ offset ≤ offset')
      ∨ ∃ walk, extHeaderStep buf last protocol offset seen = .inr walk
        ∧ ∀ l4 p, walk.outcome = .l4 l4 p → l4 = offset := by
  unfold extHeaderStep
  dsimp only
  repeat' split
  all_goals first
    | exact .inl ⟨_, _, _, rfl, by omega⟩
    | exact .inr ⟨_, rfl, by intro l4 p h; cases h; rfl⟩
    | exact .inr ⟨_, rfl, by intro l4 p h; cases h⟩

/-- The walk only goes on. -/
theorem walkExtHeaders_offset_le (buf : Bytes) (n : ℕ) (protocol : UInt8) (offset : ℕ)
    (seen : Sightings) {l4 : ℕ} {p : UInt8}
    (h : (walkExtHeaders buf n protocol offset seen).outcome = .l4 l4 p) : offset ≤ l4 := by
  induction n generalizing protocol offset seen with
  | zero => cases h
  | succ n ih =>
    rw [walkExtHeaders] at h
    rcases extHeaderStep_offset buf (n == 0) protocol offset seen with
      ⟨protocol', offset', seen', hs, hle⟩ | ⟨walk, hs, hl4⟩
    · rw [hs] at h
      exact Nat.le_trans hle (ih _ _ _ h)
    · rw [hs] at h
      exact Nat.le_of_eq (hl4 l4 p h).symm

/-- `ipv6_ah_sighted`. -/
def ipv6AhSighted (buf : Bytes) (addrFamily : UInt8) (l3 : ℕ) : Bool :=
  if addrFamily ≠ AF_INET6 then false
  else if buf.length ≤ l3 + 6 then false
  else if !ipv6ExtHeaderIsTraversable (byteAt buf (l3 + 6)) then false
  else (walkIpv6ExtChain buf l3).ahPresent

/-! ## Fragments -/

/-- `ipv4_is_non_first_fragment`. -/
def ipv4IsNonFirstFragment (packet : Bytes) : Bool :=
  8 ≤ packet.length && get16 packet 6 &&& 0x1FFF ≠ 0

/-- `ipv6_is_non_first_fragment`. -/
def ipv6IsNonFirstFragment (packet : Bytes) : Bool :=
  (walkIpv6ExtChain packet 0).nonFirstFragmentOffsetSeen

/-- `is_non_first_fragment`. -/
def isNonFirstFragment (packet : Bytes) (addrFamily : UInt8) : Bool :=
  if addrFamily = AF_INET then ipv4IsNonFirstFragment packet
  else if addrFamily = AF_INET6 then ipv6IsNonFirstFragment packet
  else false

/-! ## The L3 offset -/

/-- `frame_l3_offset`: the offset the Ethernet type gives. -/
def frameL3Offset (frame : Bytes) : Option ℕ :=
  if frame.length < 14 then none
  else
    let ethProto := get16 frame 12
    if ethProto = 0x8100 ∨ ethProto = 0x88a8 then
      if frame.length < 18 then none else some 18
    else some 14

/-- The version nibble of a family. -/
def expectedVersion (addrFamily : UInt8) : Option UInt8 :=
  if addrFamily = AF_INET then some 4 else if addrFamily = AF_INET6 then some 6 else none

/-- `CheckedL3`. -/
structure CheckedL3 where
  l3 : ℕ
  stampTrusted : Bool
deriving DecidableEq

/-- The byte at `i` is there and has the version nibble. -/
def nibbleAt (frame : Bytes) (i : ℕ) (version : UInt8) : Bool :=
  i < frame.length && byteAt frame i >>> 4 == version

/-- `nibble_trusted_stamp`. -/
def nibbleTrustedStamp (frame : Bytes) (l3Offset : UInt16) (addrFamily : UInt8) : Option ℕ :=
  match expectedVersion addrFamily with
  | none => none
  | some version =>
    if (l3Offset = 14 ∨ l3Offset = 18) ∧ nibbleAt frame l3Offset.toNat version then
      some l3Offset.toNat
    else none

/-- `nibble_checked_l3`: the stamp when the byte it points at agrees with the family, else
the offset of the wire. -/
def nibbleCheckedL3 (frame : Bytes) (l3Offset : UInt16) (addrFamily : UInt8) : Option CheckedL3 :=
  if l3Offset = 0 ∧ (expectedVersion addrFamily).any (nibbleAt frame 0) then some ⟨0, true⟩
  else
    match nibbleTrustedStamp frame l3Offset addrFamily with
    | some l3 => some ⟨l3, true⟩
    | none => (frameL3Offset frame).map fun l3 => ⟨l3, false⟩

/-! ## The L4 offset -/

/-- The header length of an IPv4 header. -/
def ipv4Ihl (packet : Bytes) (l3 : ℕ) : ℕ := (byteAt packet l3 &&& 0x0f).toNat * 4

/-- The L4 offset of a walk that reached it. -/
def ExtChainOutcome.l4Offset : ExtChainOutcome → Option ℕ
  | .l4 offset _ => some offset
  | _ => none

/-- `frame_l4_offset`. -/
def frameL4Offset (frame : Bytes) (addrFamily : UInt8) : Option ℕ :=
  match frameL3Offset frame with
  | none => none
  | some l3 =>
    if addrFamily = AF_INET then
      let ihl := ipv4Ihl frame l3
      if frame.length < l3 + 20 then none
      else if ihl < 20 ∨ frame.length < l3 + ihl then none
      else if ipv4IsNonFirstFragment (frame.drop l3) then none
      else some (l3 + ihl)
    else if addrFamily = AF_INET6 then (walkIpv6ExtChain frame l3).outcome.l4Offset
    else none

/-- The L4 header of a frame is behind an IP header. -/
theorem frameL4Offset_ge {frame : Bytes} {addrFamily : UInt8} {l3 l4 : ℕ}
    (h3 : frameL3Offset frame = some l3) (h4 : frameL4Offset frame addrFamily = some l4) :
    l3 + 20 ≤ l4 := by
  unfold frameL4Offset at h4
  rw [h3] at h4
  dsimp only at h4
  split_ifs at h4 with hf _ hihl
  · obtain rfl := Option.some.inj h4
    omega
  · unfold walkIpv6ExtChain at h4
    split_ifs at h4
    · simp [ExtChainOutcome.l4Offset] at h4
    · unfold ExtChainOutcome.l4Offset at h4
      split at h4
      next o p ho =>
        have := walkExtHeaders_offset_le _ _ _ _ _ ho
        obtain rfl := Option.some.inj h4
        omega
      next => simp at h4

theorem frameL3Offset_ge {frame : Bytes} {l3 : ℕ} (h : frameL3Offset frame = some l3) :
    14 ≤ l3 := by
  unfold frameL3Offset at h
  dsimp only at h
  split_ifs at h <;> simp at h <;> omega

/-- `packet_rel_l4_offset`. -/
def packetRelL4Offset (packet : Bytes) (addrFamily : UInt8) : Option ℕ :=
  if addrFamily = AF_INET then
    let ihl := ipv4Ihl packet 0
    if packet.length < 20 then none
    else if ihl < 20 ∨ packet.length < ihl then none
    else if ipv4IsNonFirstFragment packet then none
    else some ihl
  else if addrFamily = AF_INET6 then (walkIpv6ExtChain packet 0).outcome.l4Offset
  else none

/-- `packet_rel_l4_offset_and_protocol`, for IPv6. -/
def ipv6RelL4OffsetAndProtocol (packet : Bytes) : Option (ℕ × UInt8) :=
  let walk := walkIpv6ExtChain packet 0
  match walk.outcome with
  | .l4 offset protocol => some (offset, protocol)
  | .nonFirstFragment =>
    match walk.fragment with
    | some ⟨some _, headerOffset⟩ => some (headerOffset + 8, SHIM_PROTO_FRAGMENT_NO_L4)
    | _ => none
  | _ => none

/-- `v6_rel_l4_offset`: the stamped offsets when they are plausible, else the walk. -/
def v6RelL4Offset (packet : Bytes) (l3Offset l4Offset : UInt16) (addrFamily : UInt8) : Option ℕ :=
  let metaRel := (l4Offset - l3Offset).toNat
  if 40 ≤ metaRel ∧ l3Offset < l4Offset then some metaRel
  else packetRelL4Offset packet addrFamily

/-! ## The end of the datagram -/

/-- `x.clamp(lo, hi)`. -/
def clampLen (x lo hi : ℕ) : ℕ := max lo (min x hi)

/-- `ipv4_declared_l3_end`. -/
def ipv4DeclaredL3End (frame : Bytes) (l3 : ℕ) : Option ℕ :=
  let ihl := ipv4Ihl frame l3
  if frame.length < l3 + 20 then none
  else if ihl < 20 ∨ frame.length < l3 + ihl then none
  else some (clampLen (l3 + (get16 frame (l3 + 2)).toNat) (l3 + ihl) frame.length)

/-- `ipv6_declared_l3_end`. -/
def ipv6DeclaredL3End (frame : Bytes) (l3 : ℕ) : Option ℕ :=
  if frame.length < l3 + 40 then none
  else some (clampLen (l3 + 40 + (get16 frame (l3 + 4)).toNat) (l3 + 40) frame.length)

/-- `declared_l3_end`. -/
def declaredL3End (frame : Bytes) (l3 : ℕ) (addrFamily : UInt8) : Option ℕ :=
  if addrFamily = AF_INET then ipv4DeclaredL3End frame l3
  else if addrFamily = AF_INET6 then ipv6DeclaredL3End frame l3
  else none

/-- The length the metadata has for the payload, when `declared_l3_end` has none. -/
def metaL3Len (rawLen : ℕ) (fpm : ForwardPacketMeta) : Option ℕ :=
  let metaLen := fpm.pktLen.toNat
  if 20 ≤ metaLen ∧ metaLen ≤ rawLen then some metaLen
  else
    let l3 := fpm.l3Offset.toNat
    if (l3 = 14 ∨ l3 = 18) ∧ l3 < metaLen ∧ 20 ≤ metaLen - l3 ∧ metaLen - l3 ≤ rawLen then
      some (metaLen - l3)
    else none

/-- The length an IP header that cannot be trusted still gives. -/
def lastResortLen (raw : Bytes) : ℕ :=
  if raw.length < 4 then raw.length
  else if byteAt raw 0 >>> 4 = 4 then
    let ipTotalLen := (get16 raw 2).toNat
    if 0 < ipTotalLen ∧ ipTotalLen < raw.length then ipTotalLen else raw.length
  else if byteAt raw 0 >>> 4 = 6 ∧ 40 ≤ raw.length then
    let ip6Total := 40 + (get16 raw 4).toNat
    if 0 < ip6Total ∧ ip6Total < raw.length then ip6Total else raw.length
  else raw.length

/-- `trim_l3_payload`: the datagram without what Ethernet has padded it with. -/
def trimL3Payload (raw : Bytes) (fpm : ForwardPacketMeta) : Bytes :=
  match declaredL3End raw 0 fpm.addrFamily with
  | some declaredEnd => raw.take declaredEnd
  | none =>
    match metaL3Len raw.length fpm with
    | some len => raw.take len
    | none => raw.take (lastResortLen raw)

theorem length_trimL3Payload_le (raw : Bytes) (fpm : ForwardPacketMeta) :
    (trimL3Payload raw fpm).length ≤ raw.length := by
  unfold trimL3Payload
  split
  · rw [List.length_take]
    omega
  · split <;> (rw [List.length_take]; omega)

end Xpf.Frames
