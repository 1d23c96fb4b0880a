/-
Checksums of a rewritten frame: `userspace-dp/src/afxdp/frame/checksum.rs`.

A checksum field is kept right in two ways. The generic rewrite updates it for each field
it changes, by the words that leave and the words that come (`checksum16Adjust`). The
descriptor of a cached flow has one precomputed difference (`computeIpCsumDelta`,
`computeL4CsumDelta`). Two rules hang on the zero checksum: an IPv4 UDP datagram may have
none and keeps it, and a computed zero is sent as `0xFFFF` where zero means none.

The 32-bit accumulators of the incremental updates add at most a few dozen words, so they
are natural numbers here; the full sum over a segment wraps and is a `UInt32`.
-/
import Xpf.Edits
import Xpf.FrameInspect
import Xpf.OnesComplement
import Mathlib.Data.Fintype.Pi

set_option autoImplicit false

namespace Xpf.Frames

open Xpf.ByteBuffer Xpf.Edits Xpf.Edits.Edit Xpf.OnesComplement

/-! ## Addresses, decisions, flows -/

/-- The octets of an `Ipv4Addr`. -/
abbrev Ipv4Addr := Fin 4 → UInt8

/-- The octets of an `Ipv6Addr`. -/
abbrev Ipv6Addr := Fin 16 → UInt8

/-- `IpAddr`. -/
inductive IpAddr
  | v4 (ip : Ipv4Addr)
  | v6 (ip : Ipv6Addr)
deriving DecidableEq

/-- `NatDecision`. -/
structure NatDecision where
  rewriteSrc : Option IpAddr := none
  rewriteDst : Option IpAddr := none
  rewriteSrcPort : Option UInt16 := none
  rewriteDstPort : Option UInt16 := none
  sourceNatIcmp : Option (UInt8 × UInt8) := none
  nat64 : Bool := false
  nptv6 : Bool := false
deriving DecidableEq

/-- `NatDecision::default()`. -/
def NatDecision.default : NatDecision := {}

/-- `SessionFlow`, with the ports of its `forward_key`. -/
structure SessionFlow where
  srcIp : IpAddr
  dstIp : IpAddr
  srcPort : UInt16
  dstPort : UInt16

/-- `ChecksumFamily`. -/
inductive ChecksumFamily
  | v4
  | v6
deriving DecidableEq

/-- `nat_folds_l4_checksum`: a single-sided NPTv6 rewrite leaves the sum as it is. -/
def natFoldsL4Checksum (nat : NatDecision) : Bool :=
  !nat.nptv6 || (nat.rewriteSrc.isSome && nat.rewriteDst.isSome)

/-! ## Words and sums -/

/-- `(!u32::from(w)) & 0xffff`. -/
def compl16 (w : UInt16) : ℕ := 0xFFFF - w.toNat

/-- `ipv4_words`. -/
def ipv4Words (ip : Ipv4Addr) : List UInt16 := [fromBe (ip 0) (ip 1), fromBe (ip 2) (ip 3)]

/-- `ipv6_words_from_octets`. -/
def ipv6WordsFromOctets (octets : Ipv6Addr) : List UInt16 :=
  [fromBe (octets 0) (octets 1), fromBe (octets 2) (octets 3), fromBe (octets 4) (octets 5),
    fromBe (octets 6) (octets 7), fromBe (octets 8) (octets 9), fromBe (octets 10) (octets 11),
    fromBe (octets 12) (octets 13), fromBe (octets 14) (octets 15)]

/-- `checksum16_word_delta`. -/
def checksum16WordDelta (sum : ℕ) (old new : UInt16) : ℕ := sum + compl16 old + new.toNat

/-- The word pairs of two addresses, added one after the other. -/
def addWordsDelta (sum : ℕ) (old new : List UInt16) : ℕ :=
  (old.zip new).foldl (fun sum w => checksum16WordDelta sum w.1 w.2) sum

/-- `checksum16_fold_delta`. -/
def checksum16FoldDelta (sum : ℕ) : UInt16 := UInt16.ofNat (foldAll sum)

/-- `add_ip_word_delta`. -/
def addIpWordDelta (sum : ℕ) : IpAddr → IpAddr → ℕ
  | .v4 old, .v4 new => addWordsDelta sum (ipv4Words old) (ipv4Words new)
  | .v6 old, .v6 new => addWordsDelta sum (ipv6WordsFromOctets old) (ipv6WordsFromOctets new)
  | _, _ => sum

/-- An address pair of the IPv4 header, which only two IPv4 addresses have a share in. -/
def addIpv4HeaderDelta (sum : ℕ) (old : IpAddr) (new : Option IpAddr) : ℕ :=
  match new, old with
  | some (.v4 new), .v4 old => addWordsDelta sum (ipv4Words old) (ipv4Words new)
  | _, _ => sum

/-- `compute_ip_csum_delta`. -/
def computeIpCsumDelta (flow : SessionFlow) (nat : NatDecision) : UInt16 :=
  let sum := addIpv4HeaderDelta 0 flow.srcIp nat.rewriteSrc
  let sum := addIpv4HeaderDelta sum flow.dstIp nat.rewriteDst
  checksum16FoldDelta sum

/-- An address pair of `compute_l4_csum_delta`. -/
def addOptIpWordDelta (sum : ℕ) (old : IpAddr) (new : Option IpAddr) : ℕ :=
  match new with
  | some new => addIpWordDelta sum old new
  | none => sum

/-- A port pair of `compute_l4_csum_delta`. -/
def addOptPortDelta (sum : ℕ) (old : UInt16) (new : Option UInt16) : ℕ :=
  match new with
  | some new => checksum16WordDelta sum old new
  | none => sum

/-- `compute_l4_csum_delta`. -/
def computeL4CsumDelta (flow : SessionFlow) (nat : NatDecision) : UInt16 :=
  if !natFoldsL4Checksum nat then 0
  else
    let sum := addOptIpWordDelta 0 flow.srcIp nat.rewriteSrc
    let sum := addOptIpWordDelta sum flow.dstIp nat.rewriteDst
    let sum := addOptPortDelta sum flow.srcPort nat.rewriteSrcPort
    let sum := addOptPortDelta sum flow.dstPort nat.rewriteDstPort
    checksum16FoldDelta sum

/-! ## Which field, and what a zero means -/

/-- `l4_checksum_field_delta_v4`. -/
def l4ChecksumFieldDeltaV4 (protocol : UInt8) : Option ℕ :=
  if protocol = PROTO_TCP then some 16 else if protocol = PROTO_UDP then some 6 else none

/-- `l4_checksum_field_delta_v6`. -/
def l4ChecksumFieldDeltaV6 (protocol : UInt8) : Option ℕ :=
  if protocol = PROTO_TCP then some 16
  else if protocol = PROTO_UDP then some 6
  else if protocol = PROTO_ICMPV6 then some 2
  else none

/-- `l4_udp_checksum_optional`. -/
def l4UdpChecksumOptional (protocol : UInt8) (family : ChecksumFamily) : Bool :=
  family == .v4 && protocol == PROTO_UDP

/-- `checksum_family_of`. -/
def checksumFamilyOf (addrFamily : UInt8) : Option ChecksumFamily :=
  if addrFamily = AF_INET then some .v4 else if addrFamily = AF_INET6 then some .v6 else none

/-- `adjust_zero_checksum_illegal`. -/
def adjustZeroChecksumIllegal (protocol : UInt8) : ChecksumFamily → Bool
  | .v4 => protocol == PROTO_UDP
  | .v6 => protocol == PROTO_UDP || protocol == PROTO_ICMPV6

/-- A computed checksum as it is sent. -/
def canonicalChecksum (protocol : UInt8) (family : ChecksumFamily) (updated : UInt16) : UInt16 :=
  if adjustZeroChecksumIllegal protocol family && updated == 0 then 0xFFFF else updated

/-! ## Full and incremental sums -/

/-- `checksum16_add_bytes`: the words of a byte string on top of a wrapping sum, an odd last
byte as the high one. The vector path of the source gives the same sum. -/
def checksum16AddBytes : UInt32 → Bytes → UInt32
  | sum, hi :: lo :: rest => checksum16AddBytes (sum + (fromBe hi lo).toUInt32) rest
  | sum, [last] => sum + (last.toUInt32 <<< 8)
  | sum, [] => sum

/-- `checksum16_finish`. -/
def checksum16Finish (sum : ℕ) : UInt16 := UInt16.ofNat (0xFFFF - foldAll sum)

/-- `checksum16_adjust`. -/
def checksum16Adjust (checksum : UInt16) (oldWords newWords : List UInt16) : UInt16 :=
  let sum := oldWords.foldl (fun sum w => sum + compl16 w) (compl16 checksum)
  let sum := newWords.foldl (fun sum w => sum + w.toNat) sum
  checksum16Finish sum

/-- `checksum16_adjust_ipv6_addr_bytes`. -/
def checksum16AdjustIpv6AddrBytes (checksum : UInt16) (oldAddr newAddr : Ipv6Addr) : UInt16 :=
  checksum16Finish
    (addWordsDelta (compl16 checksum) (ipv6WordsFromOctets oldAddr) (ipv6WordsFromOctets newAddr))

/-- `checksum16_ipv6`. -/
def checksum16Ipv6 (src dst : Bytes) (nextHeader : UInt8) (payload : Bytes) : UInt16 :=
  let len := payload.length
  let sum := checksum16AddBytes 0 src
  let sum := checksum16AddBytes sum dst
  let sum := checksum16AddBytes sum
    [UInt8.ofNat (len / 16777216), UInt8.ofNat (len / 65536), UInt8.ofNat (len / 256),
      UInt8.ofNat len]
  let sum := checksum16AddBytes sum [0, 0, 0, nextHeader]
  let sum := checksum16AddBytes sum payload
  checksum16Finish sum.toNat

/-- `saturate_len16`. -/
def saturateLen16 (len : ℕ) : UInt16 := if len < 65536 then UInt16.ofNat len else 0xFFFF

/-- `checksum16_ipv4`. -/
def checksum16Ipv4 (src dst : Bytes) (protocol : UInt8) (payload : Bytes) : UInt16 :=
  let sum := checksum16AddBytes 0 src
  let sum := checksum16AddBytes sum dst
  let sum := checksum16AddBytes sum [0, protocol]
  let sum := checksum16AddBytes sum (toBe (saturateLen16 payload.length))
  let sum := checksum16AddBytes sum payload
  checksum16Finish sum.toNat

/-! ## Fields in the packet -/

/-- `u16::from_be_bytes([*packet.get(off)?, *packet.get(off + 1)?])`. -/
def readWord (off : ℕ) : Edit Bytes UInt16 :=
  check fun b => if off + 1 < b.length then some (get16 b off) else none

/-- `packet.get_mut(off..off + 2)?.copy_from_slice(&v.to_be_bytes())`. -/
def writeWord (off : ℕ) (v : UInt16) : Edit Bytes Unit := do
  require fun b => off + 2 ≤ b.length
  modify fun b => put16 b off v

/-- The four octets of an address field. -/
def ipv4At (packet : Bytes) (off : ℕ) : Ipv4Addr := fun i => byteAt packet (off + i)

/-- The sixteen octets of an address field. -/
def ipv6At (packet : Bytes) (off : ℕ) : Ipv6Addr := fun i => byteAt packet (off + i)

/-- `adjust_ipv4_header_checksum`, on the header. -/
def adjustIpv4HeaderChecksum (oldSrc oldDst : Ipv4Addr) (oldTtl : UInt8) : Edit Bytes Unit := do
  require fun b => 20 ≤ b.length
  let current ← read fun b => get16 b 10
  let newSrc ← read fun b => ipv4At b 12
  let newDst ← read fun b => ipv4At b 16
  let oldTtlWord ← read fun b => fromBe oldTtl (byteAt b 9)
  let newTtlWord ← read fun b => get16 b 8
  let updated := checksum16Adjust current (ipv4Words oldSrc) (ipv4Words newSrc)
  let updated := checksum16Adjust updated (ipv4Words oldDst) (ipv4Words newDst)
  let updated := checksum16Adjust updated [oldTtlWord] [newTtlWord]
  writeWord 10 updated

/-- The value of an L4 checksum field after an update of it. `skipZero` is the rule that an
IPv4 UDP datagram without a checksum gets none. -/
def updatedField (protocol : UInt8) (family : ChecksumFamily) (skipZero : Bool)
    (update : UInt16 → UInt16) (current : UInt16) : UInt16 :=
  if skipZero && l4UdpChecksumOptional protocol family && current == 0 then current
  else canonicalChecksum protocol family (update current)

/-- The frame of every `adjust_l4_checksum_*`: nothing to do where the protocol has no field,
a decline where the field is not in the packet, else read, update, write. -/
def adjustL4Checksum (field : Option ℕ) (protocol : UInt8) (family : ChecksumFamily)
    (skipZero : Bool) (update : UInt16 → UInt16) : Edit Bytes Unit :=
  match field with
  | none => pure ()
  | some off => do
    let current ← readWord off
    if skipZero && l4UdpChecksumOptional protocol family && current == 0 then pure ()
    else writeWord off (canonicalChecksum protocol family (update current))

/-- `adjust_l4_checksum_ipv4`. -/
def adjustL4ChecksumIpv4 (ihl : ℕ) (protocol : UInt8) (oldSrc newSrc oldDst newDst : Ipv4Addr) :
    Edit Bytes Unit :=
  adjustL4Checksum ((l4ChecksumFieldDeltaV4 protocol).map (ihl + ·)) protocol .v4 false
    fun current =>
      checksum16Adjust (checksum16Adjust current (ipv4Words oldSrc) (ipv4Words newSrc))
        (ipv4Words oldDst) (ipv4Words newDst)

/-- `adjust_l4_checksum_ipv4_words`. -/
def adjustL4ChecksumIpv4Words (ihl : ℕ) (protocol : UInt8) (oldWords newWords : List UInt16) :
    Edit Bytes Unit :=
  adjustL4Checksum ((l4ChecksumFieldDeltaV4 protocol).map (ihl + ·)) protocol .v4 true
    fun current => checksum16Adjust current oldWords newWords

/-- `adjust_l4_checksum_ipv4_src` and `adjust_l4_checksum_ipv4_dst`. -/
def adjustL4ChecksumIpv4Addr (ihl : ℕ) (protocol : UInt8) (old new : Ipv4Addr) :
    Edit Bytes Unit :=
  adjustL4ChecksumIpv4Words ihl protocol (ipv4Words old) (ipv4Words new)

/-- `adjust_l4_checksum_ipv6_words`. -/
def adjustL4ChecksumIpv6Words (relL4 : ℕ) (protocol : UInt8) (oldWords newWords : List UInt16) :
    Edit Bytes Unit :=
  adjustL4Checksum ((l4ChecksumFieldDeltaV6 protocol).map (relL4 + ·)) protocol .v6 false
    fun current => checksum16Adjust current oldWords newWords

/-- `adjust_l4_checksum_ipv6_addr_bytes`. -/
def adjustL4ChecksumIpv6AddrBytes (relL4 : ℕ) (protocol : UInt8) (oldAddr newAddr : Ipv6Addr) :
    Edit Bytes Unit :=
  adjustL4Checksum ((l4ChecksumFieldDeltaV6 protocol).map (relL4 + ·)) protocol .v6 false
    fun current => checksum16AdjustIpv6AddrBytes current oldAddr newAddr

/-- `adjust_l4_checksum_port`. -/
def adjustL4ChecksumPort (l4Offset : ℕ) (protocol : UInt8) (family : ChecksumFamily)
    (oldPort newPort : UInt16) : Edit Bytes Unit :=
  adjustL4Checksum ((l4ChecksumFieldDeltaV4 protocol).map (l4Offset + ·)) protocol family true
    fun current => checksum16Adjust current [oldPort] [newPort]

/-- One arm of a recompute: the field zeroed, summed over and written, declined when the
segment is shorter than its header. -/
def recomputeField (l4 field headerLen : ℕ) (zeroIllegal : Bool) (sum : Bytes → UInt16) :
    Edit Bytes Unit := do
  require fun b => headerLen ≤ b.length - l4
  writeWord (l4 + field) 0
  let s ← read sum
  writeWord (l4 + field) (if zeroIllegal && s == 0 then 0xFFFF else s)

/-- `recompute_l4_checksum_ipv4`. -/
def recomputeL4ChecksumIpv4 (ihl : ℕ) (protocol : UInt8) (zeroOffset : Bool) :
    Edit Bytes Unit := do
  require fun b => ihl ≤ b.length
  let sum := fun b => checksum16Ipv4 (sub b 12 4) (sub b 16 4) protocol (b.drop ihl)
  if protocol = PROTO_TCP then recomputeField ihl 16 20 false sum
  else if protocol = PROTO_UDP then recomputeField ihl 6 8 zeroOffset sum
  else pure ()

/-- `recompute_l4_checksum_ipv6`. -/
def recomputeL4ChecksumIpv6 (relL4 : ℕ) (protocol : UInt8) : Edit Bytes Unit := do
  require fun b => relL4 ≤ b.length
  let src ← check fun b => getRange b 8 16
  let dst ← check fun b => getRange b 24 16
  let sum := fun b => checksum16Ipv6 src dst protocol (b.drop relL4)
  if protocol = PROTO_TCP then recomputeField relL4 16 20 false sum
  else if protocol = PROTO_UDP then recomputeField relL4 6 8 true sum
  else if protocol = PROTO_ICMPV6 then recomputeField relL4 2 4 true sum
  else pure ()

/-! ## What the field operations do -/

section

variable {b : Bytes} {off : ℕ}

theorem readWord_run (h : off + 2 ≤ b.length) :
    (readWord off).run b = (some (get16 b off), b) := by
  rw [readWord, check_run, if_pos (by omega)]

theorem writeWord_run (v : UInt16) (h : off + 2 ≤ b.length) :
    (writeWord off v).run b = (some (), put16 b off v) := by
  rw [writeWord, require_bind_run, if_pos h, modify_run]

/-- **An update of a field in the packet** writes the updated value and nothing else. -/
theorem adjustL4Checksum_run (protocol : UInt8) (family : ChecksumFamily) (skipZero : Bool)
    (update : UInt16 → UInt16) (h : off + 2 ≤ b.length) :
    (adjustL4Checksum (some off) protocol family skipZero update).run b
      = (some (), put16 b off (updatedField protocol family skipZero update (get16 b off))) := by
  rw [adjustL4Checksum, bind_run_some (readWord_run h), updatedField]
  split
  · rw [pure_run, put16_get16]
  · exact writeWord_run _ h

end

end Xpf.Frames
