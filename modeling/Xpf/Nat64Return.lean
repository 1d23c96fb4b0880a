/-
The way back: checksums behind an IPv6 header, and the round trip.

The translator of the other direction adjusts or computes checksums by the same rules, with a
Fragment header between the IPv6 header and the segment where the packet is a first fragment.
A TCP segment or UDP datagram that has gone through both translators is what it was, its
checksum included: the two adjustments add up to whole turns. The one word a turn changes is a
TCP checksum of `0xFFFF`, which comes back as zero.
-/
import Xpf.Nat64Sums

set_option autoImplicit false

namespace Xpf.Nat64

open Xpf.ByteBuffer Xpf.Frames Xpf.OnesComplement Xpf.WordSums

/-! ## The translated packet -/

/-- The headers in front of a translated segment. -/
def v6Headers (packet : Bytes) (srcV6 dstV6 : Ipv6Addr) (preserveTtl : Bool) (payloadLen : UInt16)
    (nextHeader : UInt8) (isFragment : Bool) : Bytes :=
  ipv6HeaderStart (byteAt packet 1) payloadLen (if isFragment then 44 else nextHeader)
      (if preserveTtl then byteAt packet 8 else byteAt packet 8 - 1)
    ++ List.ofFn srcV6 ++ List.ofFn dstV6
    ++ (if isFragment then
        fragmentHeader nextHeader (get16 packet 6 &&& 0x1FFF) isFragment (get16 packet 4)
      else [])

/-- The segment of an IPv4 packet, up to the length its header declares. -/
def v4Segment (packet : Bytes) : Bytes :=
  sub packet (ipv4Ihl packet 0) ((get16 packet 2).toNat - ipv4Ihl packet 0)

/-- Whether an IPv4 packet is a fragment with more to come. -/
def v4More (packet : Bytes) : Bool := get16 packet 6 &&& 0x2000 ≠ 0

/-- Where the segment of the translated packet begins. -/
def v6SegmentOffset (isFragment : Bool) : ℕ := 40 + if isFragment then 8 else 0

/-- What a translated packet is made of. -/
structure WrittenV6 (packet : Bytes) (srcV6 dstV6 : Ipv6Addr) (preserveTtl : Bool) (out : Bytes)
    (nextHeader : UInt8) (l4' : Bytes) : Prop where
  whole : 20 ≤ packet.length
  mapped : nextHeaderOf (byteAt packet 9) = some nextHeader
  first : get16 packet 6 &&& 0x1FFF = 0
  unfragmented : byteAt packet 9 = PROTO_ICMP → v4More packet = false
  summed : v4More packet = true → byteAt packet 9 = PROTO_UDP →
    getRange packet (ipv4Ihl packet 0 + 6) 2 ≠ some [0, 0]
  segment : (get16 packet 2).toNat ≤ packet.length
  same : byteAt packet 9 ≠ PROTO_ICMP → l4' = v4Segment packet
  fits : l4'.length + (if v4More packet then 8 else 0) ≤ 65535
  written : finishL4V4ToV6
      (v6Headers packet srcV6 dstV6 preserveTtl
        (UInt16.ofNat ((if v4More packet then 8 else 0) + l4'.length)) nextHeader (v4More packet)
        ++ l4')
      (v4More packet) nextHeader (v6SegmentOffset (v4More packet)) (sub packet 12 8)
      (List.ofFn srcV6 ++ List.ofFn dstV6) = some out

theorem writeV4ToV6Translate_some {capacity : ℕ} {packet out : Bytes} {srcV6 dstV6 : Ipv6Addr}
    {embeddedSrcPort : Option UInt16} {preserveTtl : Bool}
    (h : writeV4ToV6Translate capacity packet srcV6 dstV6 embeddedSrcPort preserveTtl = some out) :
    ∃ nextHeader l4', WrittenV6 packet srcV6 dstV6 preserveTtl out nextHeader l4' := by
  simp only [writeV4ToV6Translate, Option.bind_eq_bind, Option.ite_none_left_eq_some,
    Option.bind_eq_some_iff] at h
  obtain ⟨hgate, -, hlen, nextHeader, hnext, hoffset, hicmp, hudp, -, hrest⟩ := h
  rw [not_or] at hgate hlen
  -- the translated message of an ICMP packet, else the segment as it is
  have hl4 : ∃ l4', (byteAt packet 9 ≠ PROTO_ICMP → l4' = v4Segment packet)
      ∧ ∃ payloadLen, checkedIpv6PayloadLen (if v4More packet then 8 else 0) l4'.length
          = some payloadLen
        ∧ finishL4V4ToV6
          (v6Headers packet srcV6 dstV6 preserveTtl payloadLen nextHeader (v4More packet) ++ l4')
          (v4More packet) nextHeader (v6SegmentOffset (v4More packet)) (sub packet 12 8)
          (List.ofFn srcV6 ++ List.ofFn dstV6) = some out := by
    by_cases hproto : byteAt packet 9 = PROTO_ICMP
    · rw [if_pos hproto] at hrest
      simp only [Option.bind_eq_some_iff] at hrest
      obtain ⟨l4', -, payloadLen, hpayload, hfin⟩ := hrest
      exact ⟨l4', fun hne => absurd hproto hne, payloadLen, hpayload, hfin⟩
    · rw [if_neg hproto] at hrest
      simp only [Option.bind_none, Option.bind_some, Option.ite_none_left_eq_some,
        Option.bind_eq_some_iff] at hrest
      obtain ⟨-, payloadLen, hpayload, hfin⟩ := hrest
      exact ⟨v4Segment packet, fun _ => rfl, payloadLen, hpayload, hfin⟩
  obtain ⟨l4', hsame, payloadLen, hpayload, hfin⟩ := hl4
  rw [checkedIpv6PayloadLen, Option.ite_none_left_eq_some] at hpayload
  obtain ⟨hfits, hpayload⟩ := hpayload
  obtain rfl := Option.some.inj hpayload
  refine ⟨nextHeader, l4', ?_⟩
  constructor
  · exact Nat.not_lt.mp hgate.1
  · exact hnext
  · exact not_not.mp hoffset
  · intro hproto
    rw [Bool.eq_false_iff]
    exact fun hmore => hicmp ⟨hproto, hmore⟩
  · intro hmore hproto hzero
    exact hudp ⟨hmore, hproto, hzero⟩
  · exact Nat.not_lt.mp hlen.2
  · exact hsame
  · omega
  · exact hfin

/-! ## The headers -/

section Headers

variable (packet : Bytes) (srcV6 dstV6 : Ipv6Addr) (preserveTtl : Bool) (payloadLen : UInt16)
  (nextHeader : UInt8) (isFragment : Bool)

theorem length_v6Headers :
    (v6Headers packet srcV6 dstV6 preserveTtl payloadLen nextHeader isFragment).length
      = v6SegmentOffset isFragment := by
  cases isFragment <;> simp [v6Headers, ipv6HeaderStart, fragmentHeader, v6SegmentOffset]

theorem length_ipv6HeaderStart (tos hopLimit : UInt8) :
    (ipv6HeaderStart tos payloadLen nextHeader hopLimit).length = 8 := rfl

theorem v6Headers_addresses :
    sub (v6Headers packet srcV6 dstV6 preserveTtl payloadLen nextHeader isFragment) 8 32
      = List.ofFn srcV6 ++ List.ofFn dstV6 := by
  rw [v6Headers, List.append_assoc, List.append_assoc, sub,
    List.drop_left' (length_ipv6HeaderStart _ _ _ _), ← List.append_assoc, List.take_left' (by simp)]

end Headers

/-! ## Checksums behind an IPv6 header -/

section Sums

variable {hdr l4 out v4SrcDst v6SrcDst : Bytes} {field l4Off : ℕ} {protocol : UInt8}
  {isFragment : Bool}

/-- The two ways to a TCP or UDP checksum behind a new IPv6 header. -/
theorem finishL4V4ToV6_ports (hoff : hdr.length = v6SegmentOffset isFragment)
    (hfield : checksumField protocol = some field) (hlen : l4.length ≤ 65535)
    (hsummed : isFragment = true → protocol = PROTO_UDP → getRange l4 6 2 ≠ some [0, 0])
    (h : finishL4V4ToV6 (hdr ++ l4) isFragment protocol (v6SegmentOffset isFragment) v4SrcDst
      v6SrcDst = some out) :
    ∃ c, field + 2 ≤ l4.length ∧ out = hdr ++ put16 l4 field c
      ∧ (protocol = PROTO_TCP ∨ get16 l4 6 ≠ 0 →
        c = adjusted protocol v4SrcDst v6SrcDst (get16 l4 field))
      ∧ (protocol = PROTO_UDP → get16 l4 6 = 0 →
        c = canonicalChecksum protocol .v6 (checksum16Finish
          (pseudoSum (sub hdr 8 16) (sub hdr 24 16) protocol l4.length
            + wordSum (put16 l4 field 0)))) := by
  have hports : protocol = PROTO_TCP ∨ protocol = PROTO_UDP :=
    (checksumField_cases hfield).imp And.left And.left
  have hudp6 : protocol = PROTO_UDP → field = 6 := by
    intro hudp
    rw [hudp] at hfield
    exact (Option.some.inj hfield).symm
  -- the field is adjusted unless it is the zero of a whole datagram
  have hadjust : ∀ out, adjustL4ChecksumV4ToV6Incremental (hdr ++ l4) protocol
        (v6SegmentOffset isFragment) v4SrcDst v6SrcDst = some out →
      (protocol = PROTO_UDP → getRange l4 6 2 ≠ some [0, 0]) →
      ∃ c, field + 2 ≤ l4.length ∧ out = hdr ++ put16 l4 field c
        ∧ (protocol = PROTO_TCP ∨ get16 l4 6 ≠ 0 →
          c = adjusted protocol v4SrcDst v6SrcDst (get16 l4 field))
        ∧ (protocol = PROTO_UDP → get16 l4 6 = 0 →
          c = canonicalChecksum protocol .v6 (checksum16Finish
            (pseudoSum (sub hdr 8 16) (sub hdr 24 16) protocol l4.length
              + wordSum (put16 l4 field 0)))) := by
    intro out hout hne
    obtain ⟨hroom, rfl⟩ := adjust_behind hoff hfield hout
    refine ⟨_, hroom, rfl, fun _ => rfl, ?_⟩
    intro hudp hget
    have h6 := hudp6 hudp
    exact absurd ((getRange_zero_iff l4 6).mpr ⟨by omega, hget⟩) (hne hudp)
  cases isFragment with
  | true =>
    rw [finishL4V4ToV6, if_pos rfl, if_pos hports] at h
    exact hadjust out h (hsummed rfl)
  | false =>
    have hrange : getRange (hdr ++ l4) (v6SegmentOffset false + 6) 2 = getRange l4 6 2 :=
      getRange_behind hoff 6 2
    have h40 : hdr.length = 40 := hoff
    rw [finishL4V4ToV6, if_neg Bool.false_ne_true, hrange] at h
    by_cases hzero : getRange l4 6 2 = some [0, 0] ∧ protocol = PROTO_UDP
    · obtain ⟨hzero, hudp⟩ := hzero
      have h6 := hudp6 hudp
      obtain ⟨h8, hget⟩ := (getRange_zero_iff l4 6).mp hzero
      have hno : ¬(protocol = PROTO_TCP
          ∨ (protocol = PROTO_UDP ∧ getRange l4 6 2 ≠ some [0, 0])) := by
        rw [hudp, hzero]
        decide
      rw [if_neg hno, recomputeL4ChecksumAfterNat64V4ToV6, if_neg, hudp, if_neg (by decide),
        if_pos rfl] at h
      · obtain ⟨-, rfl⟩ := recomputeAt_behind h40 h
        rw [sub_append_left (by omega), sub_append_left (by omega), canonicalizeZeroChecksum_eq,
          checksum16Ipv6Pseudo_eq _ _ _ (by simp [sub]) (by simp [sub]) (by rwa [length_put16]),
          length_put16, h6, hudp]
        refine ⟨_, by omega, rfl, ?_, fun _ _ => rfl⟩
        rintro (htcp | hne)
        · exact absurd htcp (by decide)
        · exact absurd hget hne
      · rw [List.length_append]
        omega
    · rw [if_pos] at h
      · exact hadjust out h fun hudp hz => hzero ⟨hz, hudp⟩
      · exact hports.imp_right fun hudp => ⟨hudp, fun hz => hzero ⟨hz, hudp⟩⟩

/-- The message of an ICMP packet is summed up anew, with its pseudo-header. -/
theorem finishL4V4ToV6_icmp (hoff : hdr.length = 40) (hlen : l4.length ≤ 65535)
    (h : finishL4V4ToV6 (hdr ++ l4) false PROTO_ICMPV6 40 v4SrcDst v6SrcDst = some out) :
    4 ≤ l4.length ∧ out = hdr ++ put16 l4 2 (canonicalChecksum PROTO_ICMPV6 .v6 (checksum16Finish
      (pseudoSum (sub hdr 8 16) (sub hdr 24 16) PROTO_ICMPV6 l4.length
        + wordSum (put16 l4 2 0)))) := by
  have hno : ¬(PROTO_ICMPV6 = PROTO_TCP
      ∨ (PROTO_ICMPV6 = PROTO_UDP ∧ getRange (hdr ++ l4) (40 + 6) 2 ≠ some [0, 0])) := by
    rintro (h | ⟨h, -⟩) <;> exact absurd h (by decide)
  rw [finishL4V4ToV6, if_neg Bool.false_ne_true, if_neg hno, recomputeL4ChecksumAfterNat64V4ToV6,
    if_neg, if_neg (by decide), if_neg (by decide), if_pos rfl] at h
  · obtain ⟨hfour, rfl⟩ := recomputeAt_behind hoff h
    refine ⟨hfour, ?_⟩
    rw [sub_append_left (by omega), sub_append_left (by omega), canonicalizeZeroChecksum_eq,
      checksum16Ipv6Pseudo_eq _ _ _ (by simp [sub]) (by simp [sub]) (by rwa [length_put16]),
      length_put16]
  · rw [List.length_append]
    omega

end Sums

/-- What a receiver finds in a translated packet, its segment behind the headers. -/
structure SumsV6 (packet : Bytes) (srcV6 dstV6 : Ipv6Addr) (out : Bytes) (protocol : UInt8) (off : ℕ)
    (l4 : Bytes) : Prop where
  addresses : sub out 8 32 = List.ofFn srcV6 ++ List.ofFn dstV6
  payload : ∀ field, checksumField protocol = some field →
    out.drop off = put16 l4 field (get16 out (off + field))
  kept : protocol = PROTO_TCP ∨ (protocol = PROTO_UDP ∧ get16 l4 6 ≠ 0) →
    checksum16Ipv6Pseudo (sub out 8 16) (sub out 24 16) protocol (out.drop off)
      = checksum16Ipv4Pseudo (sub packet 12 4) (sub packet 16 4) protocol l4
  computed : protocol = PROTO_UDP → get16 l4 6 = 0 →
    checksum16Ipv6Pseudo (sub out 8 16) (sub out 24 16) protocol (out.drop off) = 0
  sent : protocol = PROTO_UDP → get16 out (off + 6) ≠ 0
  icmp : protocol = PROTO_ICMPV6 →
    checksum16Ipv6Pseudo (sub out 8 16) (sub out 24 16) protocol (out.drop off) = 0

section Receiver

variable {packet hdr l4 : Bytes} {srcV6 dstV6 : Ipv6Addr} {protocol : UInt8} {off : ℕ}

/-- A TCP segment or UDP datagram behind its headers. -/
theorem SumsV6.of_ports {field : ℕ} {c : UInt16} (hpacket : 20 ≤ packet.length)
    (hoff : hdr.length = off) (h40 : 40 ≤ off)
    (haddr : sub hdr 8 32 = List.ofFn srcV6 ++ List.ofFn dstV6)
    (hfield : checksumField protocol = some field) (hl4 : l4.length ≤ 65535)
    (hroom : field + 2 ≤ l4.length)
    (hadj : protocol = PROTO_TCP ∨ get16 l4 6 ≠ 0 →
      c = adjusted protocol (sub packet 12 8) (List.ofFn srcV6 ++ List.ofFn dstV6) (get16 l4 field))
    (hnew : protocol = PROTO_UDP → get16 l4 6 = 0 →
      c = canonicalChecksum protocol .v6 (checksum16Finish
        (pseudoSum (sub hdr 8 16) (sub hdr 24 16) protocol l4.length + wordSum (put16 l4 field 0)))) :
    SumsV6 packet srcV6 dstV6 (hdr ++ put16 l4 field c) protocol off l4 := by
  have hdrop : (hdr ++ put16 l4 field c).drop off = put16 l4 field c := List.drop_left' hoff
  have hget := fun i => get16_behind (put16 l4 field c) hoff i
  have hsub : ∀ i n, i + n ≤ 40 → sub (hdr ++ put16 l4 field c) i n = sub hdr i n := by
    intro i n hn
    exact sub_append_left (by omega)
  have heven := field_even hfield
  have hput : (put16 l4 field c).length ≤ 65535 := by rwa [length_put16]
  -- the sum of the receiver
  have hsum := checksum16Ipv6Pseudo_eq (sub hdr 8 16) (sub hdr 24 16) protocol
    (by simp [sub]) (by simp [sub]) hput
  rw [length_put16] at hsum
  constructor
  · rw [hsub 8 32 (by omega), haddr]
  · intro field' hfield'
    obtain rfl : field = field' := by
      rw [hfield] at hfield'
      exact Option.some.inj hfield'
    rw [hdrop, hget, get16_put16 _ hroom]
  · intro hkept
    have hc := hadj (hkept.imp_right And.right)
    rw [hdrop, hsub 8 16 (by omega), hsub 24 16 (by omega), hsum,
      checksum16Ipv4Pseudo_eq _ _ _ (by simp [sub]) (by simp [sub]) hl4]
    apply finish_eq_of_mod _ (pseudoSum_ne_zero hfield _ _ _ _) (pseudoSum_ne_zero hfield _ _ _ _)
    have hw := wordSum_adjusted protocol (sub packet 12 8) (List.ofFn srcV6 ++ List.ofFn dstV6)
      heven hroom
    rw [← hc, ← haddr] at hw
    rw [pseudoSum_sub (i := 8) (n := 16) rfl (by omega), pseudoSum_sub (i := 12) (n := 4) rfl (by omega)]
    change (wordSum (sub hdr 8 32) + _) % 65535 = _ at hw
    change (wordSum (sub hdr 8 32) + protocol.toNat + _ + _) % 65535
      = (wordSum (sub packet 12 8) + protocol.toNat + _ + _) % 65535
    omega
  · intro hudp hnone
    have hc := hnew hudp hnone
    rw [hdrop, hsub 8 16 (by omega), hsub 24 16 (by omega), hsum, hc]
    exact finish_recomputed _ _ _ heven hroom
  · intro hudp
    have h6 : field = 6 := by
      rw [hudp] at hfield
      exact (Option.some.inj hfield).symm
    rw [hget 6, ← h6, get16_put16 _ hroom]
    by_cases hnone : get16 l4 6 = 0
    · rw [hnew hudp hnone, hudp]
      exact canonicalChecksum_ne_zero rfl _
    · rw [hadj (.inr hnone), adjusted, hudp]
      exact bump_ne_zero rfl _ _
  · intro hicmp
    rw [hicmp] at hfield
    cases hfield

theorem SumsV6.of_icmp (hlen : hdr.length = 40)
    (haddr : sub hdr 8 32 = List.ofFn srcV6 ++ List.ofFn dstV6) {l4' : Bytes}
    (hfour : 4 ≤ l4'.length) (hl4 : l4'.length ≤ 65535) :
    SumsV6 packet srcV6 dstV6
      (hdr ++ put16 l4' 2 (canonicalChecksum PROTO_ICMPV6 .v6 (checksum16Finish
        (pseudoSum (sub hdr 8 16) (sub hdr 24 16) PROTO_ICMPV6 l4'.length
          + wordSum (put16 l4' 2 0))))) PROTO_ICMPV6 40 l4 := by
  have htcp : ¬PROTO_ICMPV6 = PROTO_TCP := by decide
  have hudp : ¬PROTO_ICMPV6 = PROTO_UDP := by decide
  constructor
  · rw [sub_append_left (by omega), haddr]
  · intro field hfield
    cases hfield
  · rintro (h | ⟨h, -⟩)
    · exact absurd h htcp
    · exact absurd h hudp
  · exact fun h => absurd h hudp
  · exact fun h => absurd h hudp
  · intro _
    rw [sub_append_left (by omega), sub_append_left (by omega), List.drop_left' hlen,
      checksum16Ipv6Pseudo_eq _ _ _ (by simp [sub]) (by simp [sub]) (by rwa [length_put16]), length_put16]
    exact finish_recomputed _ _ _ rfl (by omega)

end Receiver

/-- The zero checksum of a datagram is at one place in the packet and in its segment. -/
theorem getRange_v4Segment {packet : Bytes} (hlen : (get16 packet 2).toNat ≤ packet.length)
    (h : getRange (v4Segment packet) 6 2 = some [0, 0]) :
    getRange packet (ipv4Ihl packet 0 + 6) 2 = some [0, 0] := by
  obtain ⟨hle, hsub⟩ := getRange_eq_some h
  rw [v4Segment, sub, List.length_take, List.length_drop] at hle
  rw [v4Segment, ByteBuffer.sub_sub packet (by omega)] at hsub
  rw [getRange_of_le (by omega), hsub]

/-- A field that is there is adjusted. -/
theorem adjust_behind_eq {hdr l4 : Bytes} {l4Off field : ℕ} {protocol : UInt8}
    (hoff : hdr.length = l4Off) (hfield : checksumField protocol = some field)
    (hreach : field + 2 ≤ l4.length) (oldAddrs newAddrs : Bytes) :
    adjustL4ChecksumIncremental (hdr ++ l4) protocol l4Off oldAddrs newAddrs
      = some (hdr ++ put16 l4 field (adjusted protocol oldAddrs newAddrs (get16 l4 field))) := by
  cases hout : adjustL4ChecksumIncremental (hdr ++ l4) protocol l4Off oldAddrs newAddrs with
  | none =>
    rw [adjustL4ChecksumIncremental, hfield] at hout
    dsimp only at hout
    rw [if_neg] at hout
    · cases hout
    · rw [List.length_append]
      omega
  | some out =>
    obtain ⟨-, rfl⟩ := adjust_behind hoff hfield hout
    rfl

/-- The translator of IPv4 packets when every gate is open, with the segment it writes. -/
theorem writeV4ToV6Translate_open {capacity : ℕ} {packet : Bytes} {srcV6 dstV6 : Ipv6Addr}
    {embeddedSrcPort : Option UInt16} {nextHeader : UInt8} (l4' : Bytes) (hihl : 20 ≤ ipv4Ihl packet 0)
    (httl : ¬byteAt packet 8 ≤ 1) (htotal : ipv4Ihl packet 0 ≤ (get16 packet 2).toNat)
    (hlen : (get16 packet 2).toNat ≤ packet.length)
    (hnext : nextHeaderOf (byteAt packet 9) = some nextHeader)
    (hoffset : get16 packet 6 &&& 0x1FFF = 0)
    (hfrag : ¬(byteAt packet 9 = PROTO_ICMP ∧ v4More packet = true))
    (hudp : ¬(v4More packet = true ∧ byteAt packet 9 = PROTO_UDP
      ∧ getRange packet (ipv4Ihl packet 0 + 6) 2 = some [0, 0]))
    (hcap : v6SegmentOffset (v4More packet) ≤ capacity)
    (hl4 : (if byteAt packet 9 = PROTO_ICMP then
        translateIcmpv4MessageToIcmpv6 (capacity - v6SegmentOffset (v4More packet))
          (v4Segment packet) ⟨dstV6, fun i => srcV6 (Fin.castAdd 4 i), embeddedSrcPort⟩
      else if capacity - v6SegmentOffset (v4More packet) < (v4Segment packet).length then none
      else some (v4Segment packet)) = some l4')
    (hfits : (if v4More packet then 8 else 0) + l4'.length ≤ 65535) :
    writeV4ToV6Translate capacity packet srcV6 dstV6 embeddedSrcPort false
      = finishL4V4ToV6 (v6Headers packet srcV6 dstV6 false
          (UInt16.ofNat ((if v4More packet then 8 else 0) + l4'.length)) nextHeader (v4More packet)
        ++ l4') (v4More packet) nextHeader (v6SegmentOffset (v4More packet)) (sub packet 12 8)
        (List.ofFn srcV6 ++ List.ofFn dstV6) := by
  have hshort : ¬(packet.length < 20 ∨ ipv4Ihl packet 0 < 20 ∨ packet.length < ipv4Ihl packet 0) := by
    omega
  have htail : ¬((get16 packet 2).toNat < ipv4Ihl packet 0
      ∨ packet.length < (get16 packet 2).toNat) := by
    omega
  have hmore : decide (get16 packet 6 &&& 0x2000 ≠ 0) = v4More packet := rfl
  have hseg : sub packet (ipv4Ihl packet 0) ((get16 packet 2).toNat - ipv4Ihl packet 0)
      = v4Segment packet := rfl
  have hoff : 40 + (if v4More packet then 8 else 0) = v6SegmentOffset (v4More packet) := rfl
  have hpayload : checkedIpv6PayloadLen (if v4More packet then 8 else 0) l4'.length
      = some (UInt16.ofNat ((if v4More packet then 8 else 0) + l4'.length)) := by
    rw [checkedIpv6PayloadLen, if_neg (by omega)]
  rw [writeV4ToV6Translate]
  dsimp only [Option.bind_eq_bind]
  rw [hmore, hseg, if_neg hshort, if_neg (by simpa using httl), if_neg htail, hnext,
    Option.bind_some, if_neg (not_not.mpr hoffset), if_neg hfrag, if_neg hudp, hoff,
    if_neg (by omega)]
  by_cases hicmp : byteAt packet 9 = PROTO_ICMP
  · rw [if_pos hicmp] at hl4
    rw [if_pos hicmp, hl4, Option.bind_some, hpayload, Option.bind_some]
    rfl
  · rw [if_neg hicmp, Option.ite_none_left_eq_some] at hl4
    obtain rfl := Option.some.inj hl4.2
    rw [if_neg hicmp, if_neg hl4.1, Option.bind_some, hpayload, Option.bind_some]
    rfl

/-- **The translator of IPv4 packets on a TCP segment or UDP datagram with a checksum.** -/
theorem writeV4ToV6Translate_ports {field : ℕ} (capacity : ℕ) (packet : Bytes)
    (srcV6 dstV6 : Ipv6Addr) (embeddedSrcPort : Option UInt16) (hihl : 20 ≤ ipv4Ihl packet 0) (httl : ¬byteAt packet 8 ≤ 1)
    (htotal : ipv4Ihl packet 0 ≤ (get16 packet 2).toNat)
    (hlen : (get16 packet 2).toNat ≤ packet.length)
    (hfield : checksumField (byteAt packet 9) = some field)
    (hoffset : get16 packet 6 &&& 0x1FFF = 0)
    (hsum : byteAt packet 9 = PROTO_UDP → getRange packet (ipv4Ihl packet 0 + 6) 2 ≠ some [0, 0])
    (hreach : field + 2 ≤ (v4Segment packet).length)
    (hroom : v6SegmentOffset (v4More packet) + (v4Segment packet).length ≤ capacity)
    (hfits : (if v4More packet then 8 else 0) + (v4Segment packet).length ≤ 65535) :
    writeV4ToV6Translate capacity packet srcV6 dstV6 embeddedSrcPort false
      = some (v6Headers packet srcV6 dstV6 false
          (UInt16.ofNat ((if v4More packet then 8 else 0) + (v4Segment packet).length))
          (byteAt packet 9) (v4More packet)
        ++ put16 (v4Segment packet) field (adjusted (byteAt packet 9) (sub packet 12 8)
          (List.ofFn srcV6 ++ List.ofFn dstV6) (get16 (v4Segment packet) field))) := by
  have hports : byteAt packet 9 = PROTO_TCP ∨ byteAt packet 9 = PROTO_UDP :=
    (checksumField_cases hfield).imp And.left And.left
  have hicmp : byteAt packet 9 ≠ PROTO_ICMP := by
    rcases hports with h | h <;> rw [h] <;> decide
  have hnext : nextHeaderOf (byteAt packet 9) = some (byteAt packet 9) := by
    rw [nextHeaderOf, if_neg hicmp, if_pos hports]
  rw [writeV4ToV6Translate_open (v4Segment packet) hihl httl htotal hlen hnext hoffset
    (fun h => hicmp h.1) (fun h => hsum h.2.1 h.2.2) (by omega)
    (by rw [if_neg hicmp, if_neg (by omega)]) hfits]
  have hoff := length_v6Headers packet srcV6 dstV6 false
    (UInt16.ofNat ((if v4More packet then 8 else 0) + (v4Segment packet).length)) (byteAt packet 9)
    (v4More packet)
  have hadj := adjust_behind_eq hoff hfield hreach (sub packet 12 8)
    (List.ofFn srcV6 ++ List.ofFn dstV6)
  have hzero : byteAt packet 9 = PROTO_UDP → getRange (v4Segment packet) 6 2 ≠ some [0, 0] :=
    fun h hz => hsum h (getRange_v4Segment hlen hz)
  -- the field is adjusted, in a fragment and in a whole packet
  rw [finishL4V4ToV6]
  by_cases hmore : v4More packet = true
  · rw [if_pos hmore, if_pos hports]
    exact hadj
  · rw [if_neg hmore, if_pos]
    · exact hadj
    · rw [getRange_behind hoff]
      exact hports.imp_right fun h => ⟨h, hzero h⟩

/-- The checksum of a segment that has been there and back: a turn takes the one word it can
take, a TCP checksum of `0xFFFF`, to the other zero. -/
def returnedChecksum (protocol : UInt8) (c : UInt16) : UInt16 :=
  if protocol = PROTO_TCP ∧ c = 0xFFFF then 0 else c

theorem wordsDelta_back (old new : List UInt16) :
    wordsDelta old new + wordsDelta new old = 65535 * (old.length + new.length) := by
  have h1 := wordsDelta_add old new
  have h2 := wordsDelta_add new old
  omega

theorem length_words16_pos {b : Bytes} (h : b ≠ []) : 0 < (words16 b).length := by
  cases b with
  | nil => exact absurd rfl h
  | cons hi rest =>
    cases rest with
    | nil => exact Nat.one_pos
    | cons lo rest => exact Nat.succ_pos _

/-- **Adjusting there and back** is whole turns. -/
theorem adjusted_adjusted {protocol : UInt8} {field : ℕ} (hfield : checksumField protocol = some field)
    {oldAddrs : Bytes} (newAddrs : Bytes) (hne : oldAddrs ≠ []) {c : UInt16}
    (hc : protocol = PROTO_UDP → c ≠ 0) :
    adjusted protocol newAddrs oldAddrs (adjusted protocol oldAddrs newAddrs c)
      = returnedChecksum protocol c := by
  have hturns : wordsDelta (words16 oldAddrs) (words16 newAddrs)
      + wordsDelta (words16 newAddrs) (words16 oldAddrs)
      = 0 + 65535 * ((words16 oldAddrs).length + (words16 newAddrs).length) := by
    rw [wordsDelta_back, Nat.zero_add]
  have hpos := length_words16_pos hne
  rw [adjusted, adjusted, bump_bump, hturns, returnedChecksum]
  rcases checksumField_cases hfield with ⟨rfl, -⟩ | ⟨rfl, -⟩
  · by_cases hffff : c = 0xFFFF
    · have hzero : compl16 c = 0 := compl16_eq_zero.mpr hffff
      have hfold : foldAll (compl16 c
          + (0 + 65535 * ((words16 oldAddrs).length + (words16 newAddrs).length))) = 0xFFFF :=
        foldAll_eq_of le_rfl (by omega) (by omega)
      rw [if_pos ⟨rfl, hffff⟩, bump, finish_eq_zero.mpr hfold]
      exact canonicalChecksum_of_legal rfl 0
    · have hne : compl16 c + 0 ≠ 0 := fun h => hffff (compl16_eq_zero.mp (by omega))
      rw [if_neg fun h => hffff h.2, bump_turn _ (.inl hne), bump_zero]
      exact canonicalChecksum_of_legal rfl c
  · have hno : ¬(PROTO_UDP = PROTO_TCP ∧ c = 0xFFFF) := fun h => absurd h.1 (by decide)
    rw [if_neg hno, bump_turn _ (.inr rfl), bump_zero]
    exact canonicalChecksum_of_ne (hc rfl)

/-- The Fragment header of a first fragment. -/
def leadingFragment (packet : Bytes) : Option Ipv6FragInfo :=
  (ipv6FragmentHeader packet).filter Ipv6FragInfo.more

/-- The packet that comes back: the traffic class and the addresses it had, two hops less, no
extension headers but the Fragment header of a first fragment, and its segment. -/
def returnedPacket (packet : Bytes) (protocol : UInt8) (l4 : Bytes) : Bytes :=
  let fragment := (leadingFragment packet).elim [] fun info =>
    fragmentHeader protocol 0 true info.ident.toUInt16
  ipv6HeaderStart (trafficClassOf packet) (UInt16.ofNat (fragment.length + l4.length))
      (if (leadingFragment packet).isSome then 44 else protocol) (byteAt packet 7 - 1 - 1)
    ++ sub packet 8 32 ++ fragment ++ l4

/-- The fragment fields of a packet that is no later fragment. -/
theorem v6FragmentFields_first {packet : Bytes} (hfirst : ipv6IsNonFirstFragment packet = false)
    (totalLen : ℕ) (noV6FragHeader : Bool) (rawId : UInt32) :
    (∀ info, leadingFragment packet = some info →
        v6FragmentFields packet totalLen noV6FragHeader rawId = (0x2000, info.ident.toUInt16))
      ∧ (leadingFragment packet = none →
        (v6FragmentFields packet totalLen noV6FragHeader rawId).1 = 0
          ∨ (v6FragmentFields packet totalLen noV6FragHeader rawId).1 = 0x4000) := by
  rw [v6FragmentFields, leadingFragment]
  cases hinfo : ipv6FragmentHeader packet with
  | none =>
    refine ⟨fun info h => absurd h (by simp), fun _ => ?_⟩
    dsimp only
    by_cases hplain : (noV6FragHeader || decide (totalLen ≤ 1260)) = true
    · left
      rw [if_pos hplain]
    · right
      rw [if_neg hplain]
  | some info =>
    have hoff : info.offsetUnits = 0 := by
      by_contra hne
      rw [nonFirst_of_offset hinfo hne] at hfirst
      cases hfirst
    have hfields : info.ipv4Fields = ((if info.more then 0x2000 else 0) ||| 0, info.ident.toUInt16) := by
      rw [Ipv6FragInfo.ipv4Fields, hoff]
      rfl
    constructor
    · intro info' h
      obtain ⟨heq, hmore⟩ := Option.filter_eq_some_iff.mp h
      obtain rfl := Option.some.inj heq
      dsimp only
      rw [hfields, if_pos hmore]
      rfl
    · intro h
      have hmore : info.more ≠ true := by
        intro hmore
        rw [Option.filter_some_pos hmore] at h
        cases h
      left
      dsimp only
      rw [hfields, if_neg hmore]
      rfl

theorem v6FragmentFields_bits {packet : Bytes} (hfirst : ipv6IsNonFirstFragment packet = false)
    (totalLen : ℕ) (noV6FragHeader : Bool) (rawId : UInt32) :
    (v6FragmentFields packet totalLen noV6FragHeader rawId).1 &&& 0x1FFF = 0
      ∧ decide ((v6FragmentFields packet totalLen noV6FragHeader rawId).1 &&& 0x2000 ≠ 0)
        = (leadingFragment packet).isSome := by
  obtain ⟨hlead, hwhole⟩ := v6FragmentFields_first hfirst totalLen noV6FragHeader rawId
  cases hinfo : leadingFragment packet with
  | none =>
    -- with or without DF
    rcases hwhole hinfo with hw | hw <;> rw [hw] <;> exact ⟨by decide, by decide⟩
  | some info =>
    have hw : (v6FragmentFields packet totalLen noV6FragHeader rawId).1 = 0x2000 := by
      rw [hlead info hinfo]
    rw [hw, Option.isSome_some]
    exact ⟨by decide, by decide⟩

/-- An IPv4 packet as its header reads. -/
structure Reads (mid : Bytes) (trafficClass : UInt8) (identification fragWord : UInt16)
    (ttl protocol : UInt8) (addrs seg : Bytes) : Prop where
  ihl : ipv4Ihl mid 0 = 20
  tos : byteAt mid 1 = trafficClass
  total : (get16 mid 2).toNat = 20 + seg.length
  ident : get16 mid 4 = identification
  frag : get16 mid 6 = fragWord
  hops : byteAt mid 8 = ttl
  proto : byteAt mid 9 = protocol
  addresses : sub mid 12 8 = addrs
  length : mid.length = 20 + seg.length
  segment : v4Segment mid = seg

/-- A written header reads as it was written. -/
theorem reads_written (trafficClass : UInt8) (identification fragWord : UInt16)
    (ttl protocol : UInt8) (src dst : Ipv4Addr) (seg : Bytes) (hlen : 20 + seg.length ≤ 65535) :
    Reads (withHeaderChecksum (ipv4Header trafficClass (UInt16.ofNat (20 + seg.length))
        identification fragWord ttl protocol src dst ++ seg))
      trafficClass identification fragWord ttl protocol (List.ofFn src ++ List.ofFn dst) seg := by
  have h20 := length_ipv4Header trafficClass (UInt16.ofNat (20 + seg.length)) identification fragWord
    ttl protocol src dst
  have haddr := ipv4Header_addresses trafficClass (UInt16.ofNat (20 + seg.length)) identification
    fragWord ttl protocol src dst
  have hzero := get16_ipv4Header_checksum trafficClass (UInt16.ofNat (20 + seg.length)) identification
    fragWord ttl protocol src dst
  generalize hhdr : ipv4Header trafficClass (UInt16.ofNat (20 + seg.length)) identification fragWord
    ttl protocol src dst = hdr at h20 haddr hzero
  obtain ⟨-, hdrop, hsub⟩ := withHeaderChecksum_parts seg h20 hzero
  have hbyte : ∀ i, i < 10 → byteAt (withHeaderChecksum (hdr ++ seg)) i = byteAt hdr i :=
    fun i hi => byteAt_withHeaderChecksum _ h20 hi
  -- a word of the header in front of its checksum
  have hword : ∀ i v, i + 1 < 10 → [byteAt hdr i, byteAt hdr (i + 1)] = toBe v →
      get16 (withHeaderChecksum (hdr ++ seg)) i = v := by
    intro i v hi hv
    rw [get16, hbyte i (by omega), hbyte (i + 1) hi, ← fromBe_toBe v, ← hv]
    rfl
  have htotal : (get16 (withHeaderChecksum (hdr ++ seg)) 2).toNat = 20 + seg.length := by
    rw [hword 2 (UInt16.ofNat (20 + seg.length)) (by omega) (by rw [← hhdr]; rfl), UInt16.toNat_ofNat',
      Nat.mod_eq_of_lt (by omega)]
  have hihl : ipv4Ihl (withHeaderChecksum (hdr ++ seg)) 0 = 20 := by
    have hfirst : byteAt hdr 0 = 0x45 := by
      rw [← hhdr]
      rfl
    rw [ipv4Ihl, hbyte 0 (by omega), hfirst]
    rfl
  constructor
  · exact hihl
  · rw [hbyte 1 (by omega), ← hhdr]
    rfl
  · exact htotal
  · exact hword 4 _ (by omega) (by rw [← hhdr]; rfl)
  · exact hword 6 _ (by omega) (by rw [← hhdr]; rfl)
  · rw [hbyte 8 (by omega), ← hhdr]
    rfl
  · rw [hbyte 9 (by omega), ← hhdr]
    rfl
  · rw [hsub 12 8 (by omega) (by omega), haddr]
  · rw [withHeaderChecksum, length_put16, List.length_append, h20]
  · rw [v4Segment, hihl, htotal, sub, hdrop, Nat.add_sub_cancel_left, List.take_length]

section Back

variable {mid addrs seg : Bytes} {trafficClass ttl protocol : UInt8} {identification fragWord : UInt16}

/-- The whole of the packet behind its header is the segment. -/
theorem Reads.drop (h : Reads mid trafficClass identification fragWord ttl protocol addrs seg) :
    mid.drop 20 = seg := by
  have hseg := h.segment
  rw [v4Segment, h.ihl, h.total, sub, List.take_of_length_le] at hseg
  · exact hseg
  · rw [List.length_drop, h.length]

/-- **A packet that reads so goes back to IPv6.** -/
theorem Reads.back (h : Reads mid trafficClass identification fragWord ttl protocol addrs seg)
    {field : ℕ} (capacity : ℕ) (srcV6 dstV6 : Ipv6Addr) (embeddedSrcPort : Option UInt16)
    (httl : ¬ttl ≤ 1) (hfield : checksumField protocol = some field)
    (hoffset : fragWord &&& 0x1FFF = 0) (hsum : protocol = PROTO_UDP → get16 seg 6 ≠ 0)
    (hreach : field + 2 ≤ seg.length) (hroom : 48 + seg.length ≤ capacity)
    (hfits : 8 + seg.length ≤ 65535) :
    writeV4ToV6Translate capacity mid srcV6 dstV6 embeddedSrcPort false
      = some (v6Headers mid srcV6 dstV6 false
          (UInt16.ofNat ((if v4More mid then 8 else 0) + seg.length)) protocol (v4More mid)
        ++ put16 seg field (adjusted protocol addrs (List.ofFn srcV6 ++ List.ofFn dstV6)
          (get16 seg field))) := by
  have hihl := h.ihl
  have htotal := h.total
  have hlen := h.length
  have hnone : byteAt mid 9 = PROTO_UDP → getRange mid (ipv4Ihl mid 0 + 6) 2 ≠ some [0, 0] := by
    intro hudp hzero
    rw [h.proto] at hudp
    obtain ⟨-, hget⟩ := (getRange_zero_iff _ _).mp hzero
    rw [hihl, ← get16_drop, h.drop] at hget
    exact hsum hudp hget
  have hmore : v6SegmentOffset (v4More mid) ≤ 48 ∧ (if v4More mid then 8 else 0) ≤ 8 := by
    rw [v6SegmentOffset]
    split_ifs <;> omega
  have hwrite := writeV4ToV6Translate_ports capacity mid srcV6 dstV6
    embeddedSrcPort (by omega) (by rwa [h.hops]) (by omega) (by omega) (by rwa [h.proto])
    (by rwa [h.frag]) hnone (by rwa [h.segment]) (by rw [h.segment]; omega)
    (by rw [h.segment]; omega)
  rw [h.segment, h.proto, h.addresses] at hwrite
  exact hwrite

end Back

theorem ofFn_addresses {packet : Bytes} (h : 40 ≤ packet.length) :
    List.ofFn (ipv6At packet 8) ++ List.ofFn (ipv6At packet 24) = sub packet 8 32 := by
  have h8 := ofFn_byteAt (b := packet) (i := 8) (n := 16) (by omega)
  have h24 := ofFn_byteAt (b := packet) (i := 24) (n := 16) (by omega)
  have happ := sub_append_sub packet 8 16 16
  rw [← h8, ← h24] at happ
  exact happ.symm

/-- The headers the way back writes for what it has read. -/
theorem v6Headers_returned {packet mid addrs seg : Bytes} {protocol : UInt8} {totalLen : ℕ}
    {noV6FragHeader : Bool} {rawId : UInt32} (hpacket : 40 ≤ packet.length)
    (hfirst : ipv6IsNonFirstFragment packet = false)
    (h : Reads mid (trafficClassOf packet)
      (v6FragmentFields packet totalLen noV6FragHeader rawId).2
      (v6FragmentFields packet totalLen noV6FragHeader rawId).1 (byteAt packet 7 - 1) protocol addrs
      seg) (l4 : Bytes) (hlen : l4.length = seg.length) :
    v6Headers mid (ipv6At packet 8) (ipv6At packet 24) false
        (UInt16.ofNat ((if v4More mid then 8 else 0) + seg.length)) protocol (v4More mid) ++ l4
      = returnedPacket packet protocol l4 := by
  obtain ⟨hlead, -⟩ := v6FragmentFields_first hfirst totalLen noV6FragHeader rawId
  obtain ⟨hoff, hmore⟩ := v6FragmentFields_bits hfirst totalLen noV6FragHeader rawId
  rw [v6Headers, returnedPacket, List.append_assoc _ (List.ofFn (ipv6At packet 8)),
    ofFn_addresses hpacket, h.tos,
    h.hops, h.frag, h.ident, v4More, h.frag, hmore, hoff, ← hlen]
  cases hinfo : leadingFragment packet with
  | none => rfl
  | some info =>
    rw [hlead info hinfo]
    rfl

end Xpf.Nat64
