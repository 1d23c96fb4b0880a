/-
Why a packet was not translated.

A translator only says that there is no packet. The dispatcher asks one of two predicates
afterwards whether fragmentation was the reason, and counts the drop if it was. Both are
compared here with the translators on packets that nothing else keeps from being translated.
The one for IPv6 names exactly the packets that are dropped. The one for IPv4 misses a kind:
the first fragment of a UDP datagram without a checksum.
-/
import Xpf.Nat64Length
import Xpf.Nat64Return

set_option autoImplicit false

namespace Xpf.Nat64

open Xpf.ByteBuffer Xpf.Frames

/-! ## IPv6 to IPv4 -/

/-- Nothing but its fragmentation keeps the packet from being translated. -/
structure FragmentsAside6 (capacity : ℕ) (packet : Bytes) (off : ℕ) (protocol : UInt8) (l4 : Bytes) :
    Prop where
  whole : 40 ≤ packet.length
  eligible : nat64V6TranslationIneligible packet = false
  hops : ¬byteAt packet 7 ≤ 1
  region : v6L4Region packet = some (off, protocol, l4)
  ports : protocol = PROTO_TCP ∨ protocol = PROTO_UDP → l4MinLen protocol ≤ l4.length
    ∧ 20 + l4.length ≤ 65535
  message : ¬(protocol = PROTO_TCP ∨ protocol = PROTO_UDP) → protocol = PROTO_ICMPV6
    ∧ ∃ n, icmpOutputLen l4 = some n ∧ 20 + n ≤ 65535
  room : 20 + l4.length ≤ capacity

/-- The first fragment of a message that has more. -/
theorem fragment_more {packet : Bytes} (hfirst : ipv6IsNonFirstFragment packet = false) :
    (ipv6FragmentHeader packet).any Ipv6FragInfo.real
        = (ipv6FragmentHeader packet).any Ipv6FragInfo.more
      ∧ (ipv6FragmentHeader packet).any Ipv6FragInfo.leading
        = (ipv6FragmentHeader packet).any Ipv6FragInfo.more := by
  cases hinfo : ipv6FragmentHeader packet with
  | none => exact ⟨rfl, rfl⟩
  | some info =>
    have hoff : info.offsetUnits = 0 := by
      by_contra hne
      rw [nonFirst_of_offset hinfo hne] at hfirst
      cases hfirst
    simp [Ipv6FragInfo.real, Ipv6FragInfo.leading, hoff]

/-- The predicate for a packet that is no later fragment. -/
theorem v6ToV4IsFragmentDrop_first {packet : Bytes} {off : ℕ} {protocol : UInt8}
    (hfirst : ipv6IsNonFirstFragment packet = false)
    (hwalk : ipv6L4OffsetAndProtocol packet = some (off, protocol)) :
    v6ToV4IsFragmentDrop packet = true
      ↔ (ipv6FragmentHeader packet).any Ipv6FragInfo.more = true
        ∧ (protocol = PROTO_ICMPV6
          ∨ (protocol = PROTO_UDP ∧ getRange packet (off + 6) 2 = some [0, 0])) := by
  rw [v6ToV4IsFragmentDrop, hfirst, if_neg Bool.false_ne_true]
  cases hinfo : ipv6FragmentHeader packet with
  | none => simp
  | some info =>
    have hoff : info.offsetUnits = 0 := by
      by_contra hne
      rw [nonFirst_of_offset hinfo hne] at hfirst
      cases hfirst
    dsimp only
    rw [if_neg (not_not.mpr hoff), hwalk, Option.any_some]
    cases info.more <;> simp

/-- The preflight on a packet that nothing but its fragmentation keeps from being translated. -/
theorem v6ToV4OutputLen_aside {capacity : ℕ} {packet : Bytes} {off : ℕ} {protocol : UInt8}
    {l4 : Bytes} (h : FragmentsAside6 capacity packet off protocol l4)
    (hfirst : ipv6IsNonFirstFragment packet = false) :
    v6ToV4OutputLen packet = none
      ↔ (ipv6FragmentHeader packet).any Ipv6FragInfo.more = true
        ∧ (protocol = PROTO_ICMPV6
          ∨ (protocol = PROTO_UDP ∧ getRange packet (off + 6) 2 = some [0, 0])) := by
  obtain ⟨hreal, hlead⟩ := fragment_more hfirst
  have hgate : ¬(packet.length < 40 ∨ nat64V6TranslationIneligible packet = true
      ∨ byteAt packet 7 ≤ 1) := by
    rintro (hlen | hine | hhop)
    · exact absurd h.whole (by omega)
    · rw [h.eligible] at hine
      cases hine
    · exact h.hops hhop
  rw [v6ToV4OutputLen, if_neg hgate, h.region, hfirst]
  dsimp only [Option.bind_eq_bind, Option.bind_some]
  rw [if_neg Bool.false_ne_true, hlead, l4OutputLen, hreal]
  by_cases hports : protocol = PROTO_TCP ∨ protocol = PROTO_UDP
  · obtain ⟨hmin, hfits⟩ := h.ports hports
    have hicmp : protocol ≠ PROTO_ICMPV6 := by
      rcases hports with hp | hp <;> rw [hp] <;> decide
    have hrange : protocol = PROTO_UDP → getRange packet (off + 6) 2 = getRange l4 6 2 := by
      intro hudp
      rw [hudp] at hmin
      exact region_getRange h.region hmin
    rw [if_pos hports, Option.bind_some, totalLenOf, if_pos hfits, ite_eq_left_iff]
    simp only [hicmp, false_or, reduceCtorEq, imp_false, not_not]
    constructor
    · rintro ⟨hudp, hmore, hzero⟩
      exact ⟨hmore, hudp, (hrange hudp).trans hzero⟩
    · rintro ⟨hmore, hudp, hzero⟩
      exact ⟨hudp, hmore, (hrange hudp).symm.trans hzero⟩
  · obtain ⟨hicmp, n, hn, hfits⟩ := h.message hports
    have hudp : protocol ≠ PROTO_UDP := fun hp => hports (.inr hp)
    rw [if_neg hports, if_pos hicmp, if_neg fun hp => hudp hp.1, hn]
    by_cases hmore : (ipv6FragmentHeader packet).any Ipv6FragInfo.more = true
    · rw [if_pos hmore]
      simp [hmore, hicmp]
    · rw [if_neg hmore, Option.bind_some, totalLenOf, if_pos hfits]
      simp [hmore]

/-- **The predicate for IPv6 packets is exact.** -/
theorem v6ToV4IsFragmentDrop_exact (rawId : UInt32) {capacity : ℕ} {packet : Bytes} {off : ℕ}
    {protocol : UInt8} {l4 : Bytes} (h : FragmentsAside6 capacity packet off protocol l4)
    (snatV4 dstV4 : Ipv4Addr) (noV6FragHeader : Bool) (embeddedDstPort : Option UInt16) :
    writeV6ToV4Translate rawId capacity packet snatV4 dstV4 noV6FragHeader embeddedDstPort false = none
      ↔ v6ToV4IsFragmentDrop packet = true := by
  cases hlater : ipv6IsNonFirstFragment packet with
  | true =>
    rw [writeV6ToV4Translate_later hlater, v6ToV4IsFragmentDrop, hlater, if_pos rfl]
    simp
  | false =>
    have hwalk := (v6L4Region_eq_some h.region).1
    have htrans : Translatable capacity packet := by
      rw [translatable_iff h.region]
      refine ⟨h.room, ?_, ?_⟩
      · intro htcp
        have hmin := (h.ports (.inl htcp)).1
        rwa [htcp] at hmin
      · intro hudp
        have hmin := (h.ports (.inr hudp)).1
        rwa [hudp] at hmin
    have hlen := written_length_first rawId capacity packet snatV4 dstV4 noV6FragHeader
      embeddedDstPort hlater
    rw [v6ToV4IsFragmentDrop_first hlater hwalk, ← v6ToV4OutputLen_aside h hlater,
      Option.eq_none_iff_forall_ne_some]
    constructor
    · intro hnone
      rw [Option.eq_none_iff_forall_ne_some]
      intro n hn
      obtain ⟨out, hout, -⟩ := Option.map_eq_some_iff.mp ((hlen n).mpr ⟨hn, htrans⟩)
      exact hnone out hout
    · intro hnone out hout
      have hsome := (hlen out.length).mp (by rw [hout]; rfl)
      rw [hnone] at hsome
      cases hsome.1

/-- The first fragment of a UDP datagram without a checksum. -/
def udpFragment6 : Bytes :=
  [0x60, 0, 0, 0, 0, 16, 44, 64,
    0x20, 0x01, 0x0d, 0xb8, 0, 0, 0, 0, 0, 0, 0, 0, 0, 0, 0, 1,
    0x00, 0x64, 0xff, 0x9b, 0, 0, 0, 0, 0, 0, 0, 0, 192, 0, 2, 1,
    17, 0, 0, 1, 0, 0, 0, 9,
    3, 232, 0, 53, 0, 8, 0, 0]

theorem v6ToV4IsFragmentDrop_exact_udp :
    writeV6ToV4Translate 7 1500 udpFragment6 ![203, 0, 113, 5] ![192, 0, 2, 1] false none false
      = none := by
  have haside : FragmentsAside6 1500 udpFragment6 48 17 [3, 232, 0, 53, 0, 8, 0, 0] := by
    constructor
    · decide
    · decide
    · decide
    · decide
    · decide
    · exact fun h => absurd (.inr rfl) h
    · decide
  rw [v6ToV4IsFragmentDrop_exact 7 haside]
  decide

/-! ## IPv4 to IPv6 -/

/-- Nothing but its fragmentation keeps the packet from being translated. -/
structure FragmentsAside4 (capacity : ℕ) (packet : Bytes) (embedded : EmbeddedV4ToV6) : Prop where
  ihl : 20 ≤ ipv4Ihl packet 0
  hops : ¬byteAt packet 8 ≤ 1
  total : ipv4Ihl packet 0 ≤ (get16 packet 2).toNat
  whole : (get16 packet 2).toNat ≤ packet.length
  ports : byteAt packet 9 = PROTO_TCP ∨ byteAt packet 9 = PROTO_UDP →
    l4MinLen (byteAt packet 9) ≤ (v4Segment packet).length
      ∧ 8 + (v4Segment packet).length ≤ 65535 ∧ 48 + (v4Segment packet).length ≤ capacity
  message : ¬(byteAt packet 9 = PROTO_TCP ∨ byteAt packet 9 = PROTO_UDP) →
    byteAt packet 9 = PROTO_ICMP ∧ 40 ≤ capacity
      ∧ ∃ l4', translateIcmpv4MessageToIcmpv6 (capacity - 40) (v4Segment packet) embedded = some l4'
        ∧ l4'.length ≤ 65535

theorem recomputeAt_isSome {hdr l4 : Bytes} {l4Off minLen : ℕ} (hoff : hdr.length = l4Off)
    (hlen : minLen ≤ l4.length) (field : ℕ) (sum : Bytes → UInt16) :
    (recomputeAt (hdr ++ l4) l4Off field minLen sum).isSome = true := by
  rw [recomputeAt, if_neg]
  · rfl
  · rw [List.length_append]
    omega

/-- A checksum whose field is there can be finished. -/
theorem finishL4V4ToV6_isSome {hdr : Bytes} {isFragment : Bool} (l4 : Bytes) (nextHeader : UInt8)
    (hoff : hdr.length = v6SegmentOffset isFragment)
    (hlen : (if nextHeader = PROTO_ICMPV6 then 4 else l4MinLen nextHeader) ≤ l4.length)
    (hproto : nextHeader = PROTO_TCP ∨ nextHeader = PROTO_UDP ∨ nextHeader = PROTO_ICMPV6)
    (v4SrcDst v6SrcDst : Bytes) :
    (finishL4V4ToV6 (hdr ++ l4) isFragment nextHeader (v6SegmentOffset isFragment) v4SrcDst
      v6SrcDst).isSome = true := by
  have hadj : ∀ field, checksumField nextHeader = some field → field + 2 ≤ l4.length →
      (adjustL4ChecksumV4ToV6Incremental (hdr ++ l4) nextHeader (v6SegmentOffset isFragment) v4SrcDst
        v6SrcDst).isSome = true := by
    intro field hfield hreach
    rw [adjustL4ChecksumV4ToV6Incremental, adjust_behind_eq hoff hfield hreach]
    rfl
  have hnew : isFragment = false → (recomputeL4ChecksumAfterNat64V4ToV6 (hdr ++ l4)
      nextHeader).isSome = true ∨ nextHeader = PROTO_TCP := by
    rintro rfl
    have h40 : hdr.length = 40 := hoff
    have hroom : ¬(hdr ++ l4).length < 40 := by
      rw [List.length_append]
      omega
    rcases hproto with rfl | rfl | rfl
    · exact .inr rfl
    · left
      rw [recomputeL4ChecksumAfterNat64V4ToV6, if_neg hroom, if_neg (by decide), if_pos rfl]
      exact recomputeAt_isSome h40 hlen _ _
    · left
      rw [recomputeL4ChecksumAfterNat64V4ToV6, if_neg hroom, if_neg (by decide), if_neg (by decide),
        if_pos rfl]
      exact recomputeAt_isSome h40 hlen _ _
  rw [finishL4V4ToV6]
  rcases hproto with rfl | rfl | rfl
  · -- TCP, which is always adjusted
    have hread := hadj 16 rfl hlen
    split_ifs with hfrag hports hsum
    · exact hread
    · rfl
    · exact hread
    · exact absurd (.inl rfl) hsum
  · -- UDP
    have hread := hadj 6 rfl hlen
    split_ifs with hfrag hports hsum
    · exact hread
    · rfl
    · exact hread
    · exact (hnew (by simpa using hfrag)).resolve_right (by decide)
  · -- ICMPv6, which is never adjusted
    split_ifs with hfrag hports hsum
    · exact absurd hports (by decide)
    · rfl
    · rcases hsum with h | ⟨h, -⟩ <;> exact absurd h (by decide)
    · exact (hnew (by simpa using hfrag)).resolve_right (by decide)

theorem translateIcmpv4MessageToIcmpv6_length {capacity : ℕ} {src l4' : Bytes}
    {embedded : EmbeddedV4ToV6}
    (h : translateIcmpv4MessageToIcmpv6 capacity src embedded = some l4') : 4 ≤ l4'.length := by
  -- an error is its type, code and checksum, and more
  have herror : ∀ t c rest, writeIcmpv6ErrorWithEmbedded capacity src t c rest embedded = some l4' →
      4 ≤ l4'.length := by
    intro t c rest herr
    simp only [writeIcmpv6ErrorWithEmbedded, Option.bind_eq_bind, Option.bind_eq_some_iff,
      Option.ite_none_left_eq_some, Option.some.injEq] at herr
    obtain ⟨_, -, quote, -, -, rfl⟩ := herr
    rw [List.length_append, List.length_append]
    exact le_trans (Nat.le_add_right 4 _) (Nat.le_add_right _ _)
  unfold translateIcmpv4MessageToIcmpv6 at h
  dsimp only at h
  split_ifs at h with h1 h2 h3 h4 h5 h6
  · rw [← Option.some.inj h, length_writeAt]
    omega
  · rw [← Option.some.inj h, length_writeAt]
    omega
  · exact herror _ _ _ h
  · split at h
    · cases h
    · exact herror _ _ _ h

/-- The predicate for an IPv4 packet with a header. -/
theorem v4ToV6IsFragmentDrop_iff {packet : Bytes} (hihl : 20 ≤ ipv4Ihl packet 0)
    (hlen : ipv4Ihl packet 0 ≤ packet.length) :
    v4ToV6IsFragmentDrop packet = true
      ↔ get16 packet 6 &&& 0x1FFF ≠ 0 ∨ (v4More packet = true ∧ byteAt packet 9 = PROTO_ICMP) := by
  rw [v4ToV6IsFragmentDrop]
  dsimp only
  rw [if_neg (by omega), if_neg (by omega)]
  by_cases hoff : get16 packet 6 &&& 0x1FFF = 0
  · rw [if_neg (not_not.mpr hoff)]
    by_cases hmore : get16 packet 6 &&& 0x2000 = 0
    · simp [hoff, hmore, v4More]
    · simp [hoff, hmore, v4More]
  · simp [hoff]

/-- **The predicate for IPv4 packets names every packet that is dropped but one kind**, the
first fragment of a UDP datagram without a checksum. -/
theorem v4ToV6IsFragmentDrop_exact {capacity : ℕ} {packet : Bytes} {srcV6 dstV6 : Ipv6Addr}
    {embeddedSrcPort : Option UInt16}
    (h : FragmentsAside4 capacity packet
      ⟨dstV6, fun i => srcV6 (Fin.castAdd 4 i), embeddedSrcPort⟩) :
    writeV4ToV6Translate capacity packet srcV6 dstV6 embeddedSrcPort false = none
      ↔ v4ToV6IsFragmentDrop packet = true
        ∨ (v4More packet = true ∧ byteAt packet 9 = PROTO_UDP
          ∧ getRange packet (ipv4Ihl packet 0 + 6) 2 = some [0, 0]) := by
  have hihl := h.ihl
  have htotal := h.total
  have hwhole := h.whole
  rw [v4ToV6IsFragmentDrop_iff hihl (by omega)]
  constructor
  · intro hnone
    by_contra hno
    rw [not_or, not_or, not_not] at hno
    obtain ⟨⟨hoffset, hfrag⟩, hudp⟩ := hno
    have hfrag : ¬(byteAt packet 9 = PROTO_ICMP ∧ v4More packet = true) := fun hp => hfrag ⟨hp.2, hp.1⟩
    by_cases hports : byteAt packet 9 = PROTO_TCP ∨ byteAt packet 9 = PROTO_UDP
    · obtain ⟨hmin, hfits, hroom⟩ := h.ports hports
      have hicmp : byteAt packet 9 ≠ PROTO_ICMP := by
        rcases hports with hp | hp <;> rw [hp] <;> decide
      have hicmp6 : byteAt packet 9 ≠ PROTO_ICMPV6 := by
        rcases hports with hp | hp <;> rw [hp] <;> decide
      have hnext : nextHeaderOf (byteAt packet 9) = some (byteAt packet 9) := by
        rw [nextHeaderOf, if_neg hicmp, if_pos hports]
      have hoff : v6SegmentOffset (v4More packet) ≤ 48 ∧ (if v4More packet then 8 else 0) ≤ 8 := by
        rw [v6SegmentOffset]
        split_ifs <;> omega
      rw [writeV4ToV6Translate_open (v4Segment packet) hihl h.hops htotal hwhole hnext hoffset
        hfrag hudp (by omega) (by rw [if_neg hicmp, if_neg (by omega)]) (by omega)] at hnone
      have hsome := finishL4V4ToV6_isSome (v4Segment packet) (byteAt packet 9)
        (length_v6Headers packet srcV6 dstV6 false
          (UInt16.ofNat ((if v4More packet then 8 else 0) + (v4Segment packet).length))
          (byteAt packet 9) (v4More packet))
        (by rwa [if_neg hicmp6]) (hports.imp_right .inl) (sub packet 12 8)
        (List.ofFn srcV6 ++ List.ofFn dstV6)
      rw [hnone] at hsome
      cases hsome
    · obtain ⟨hicmp, hcap, l4', hl4, hfits⟩ := h.message hports
      have hmore : v4More packet = false := by
        rw [Bool.eq_false_iff]
        exact fun hm => hfrag ⟨hicmp, hm⟩
      have hoff : v6SegmentOffset (v4More packet) = 40 := by
        rw [hmore]
        rfl
      have hnext : nextHeaderOf (byteAt packet 9) = some PROTO_ICMPV6 := by
        rw [hicmp]
        rfl
      rw [writeV4ToV6Translate_open l4' hihl h.hops htotal hwhole hnext hoffset
        hfrag hudp (by omega) (by rw [if_pos hicmp, hoff, hl4])
        (by rw [hmore, if_neg Bool.false_ne_true]; omega)] at hnone
      have hsome := finishL4V4ToV6_isSome l4' PROTO_ICMPV6
        (length_v6Headers packet srcV6 dstV6 false
          (UInt16.ofNat ((if v4More packet then 8 else 0) + l4'.length)) PROTO_ICMPV6 (v4More packet))
        (by rw [if_pos rfl]; exact translateIcmpv4MessageToIcmpv6_length hl4) (.inr (.inr rfl))
        (sub packet 12 8) (List.ofFn srcV6 ++ List.ofFn dstV6)
      rw [hnone] at hsome
      cases hsome
  · intro hdrop
    rw [Option.eq_none_iff_forall_ne_some]
    intro out hout
    obtain ⟨nextHeader, l4', hw⟩ := writeV4ToV6Translate_some hout
    rcases hdrop with (hoff | ⟨hmore, hicmp⟩) | ⟨hmore, hudp, hzero⟩
    · exact hoff hw.first
    · rw [hw.unfragmented hicmp] at hmore
      cases hmore
    · exact hw.summed hmore hudp hzero

/-- The first fragment of a UDP datagram without a checksum. -/
def udpFragment4 : Bytes :=
  [69, 0, 0, 28, 0, 8, 0x20, 0, 63, 17, 93, 194, 203, 0, 113, 5, 192, 0, 2, 1,
    3, 232, 0, 53, 0, 8, 0, 0]

theorem v4ToV6IsFragmentDrop_exact_udp :
    v4ToV6IsFragmentDrop udpFragment4 = false
      ∧ writeV4ToV6Translate 1500 udpFragment4 (ipv6At udpPacket6 8) (ipv6At udpPacket6 24) none false
        = none := by
  have haside : FragmentsAside4 1500 udpFragment4
      ⟨ipv6At udpPacket6 24, fun i => ipv6At udpPacket6 8 (Fin.castAdd 4 i), none⟩ := by
    constructor
    · decide
    · decide
    · decide
    · decide
    · decide
    · intro h
      exact absurd (.inr (by decide)) h
  refine ⟨by decide, ?_⟩
  rw [v4ToV6IsFragmentDrop_exact haside]
  decide

end Xpf.Nat64
