/-
The size preflight of NAT64 against the translator.

The MTU decision is made on `v6ToV4OutputLen`, before anything is built. It goes through its
own gates and does not call the translator, so what it promises is proved here: the lengths of
the two agree on every packet, malformed ones and ICMP errors with their quotes included, and
a packet that passes the preflight is refused by the translator only when it is a later
fragment, its L4 header is cut short or the buffer is too small.
-/
import Xpf.Nat64Sums

set_option autoImplicit false

namespace Xpf.Nat64

open Xpf.ByteBuffer Xpf.Frames

/-! ## Lengths -/

@[simp] theorem length_withHeaderChecksum (out : Bytes) :
    (withHeaderChecksum out).length = out.length := length_put16 _ _ _

@[simp] theorem length_finalizeIcmpv4Checksum (icmp : Bytes) :
    (finalizeIcmpv4Checksum icmp).length = icmp.length := by
  rw [finalizeIcmpv4Checksum]
  split_ifs
  · rfl
  · dsimp only
    rw [length_put16, length_put16]

/-- The bytes of an L4 header up to the end of its checksum. -/
def l4MinLen (protocol : UInt8) : ℕ :=
  if protocol = PROTO_TCP then 18 else if protocol = PROTO_UDP then 8 else 4

theorem recomputeAt_eq {packet : Bytes} {l4Off field minLen : ℕ} (sum : Bytes → UInt16) :
    (recomputeAt packet l4Off field minLen sum).map List.length
      = if packet.length - l4Off < minLen then none else some packet.length := by
  rw [recomputeAt]
  split_ifs
  · rfl
  · dsimp only
    rw [Option.map_some, length_put16, length_put16]

theorem adjustL4ChecksumIncremental_length {packet : Bytes} {protocol : UInt8} {l4Off field : ℕ}
    {oldAddrs newAddrs : Bytes} (hfield : checksumField protocol = some field) :
    (adjustL4ChecksumIncremental packet protocol l4Off oldAddrs newAddrs).map List.length
      = if packet.length < l4Off + field + 2 then none else some packet.length := by
  rw [adjustL4ChecksumIncremental, hfield]
  dsimp only
  split_ifs
  · rfl
  · rw [Option.map_some, length_put16]
  · rw [Option.map_some, length_put16]

/-- A packet that reads zero where its UDP checksum is has the field. -/
theorem length_of_getRange {b c : Bytes} {i n : ℕ} (h : getRange b i n = some c) :
    i + n ≤ b.length := (getRange_eq_some h).1

/-- **The L4 checksum is finished exactly when its field is there**, and nothing is added. -/
theorem finishL4V6ToV4_length (out : Bytes) {l4Protocol protocol : UInt8} (v6SrcDst : Bytes)
    (v4Src v4Dst : Ipv4Addr) (hproto : ipv4ProtocolOf l4Protocol = some protocol)
    (hout : 20 ≤ out.length) :
    (finishL4V6ToV4 out protocol v6SrcDst v4Src v4Dst).map List.length
      = if out.length < 20 + l4MinLen protocol then none else some out.length := by
  have hcases : protocol = PROTO_TCP ∨ protocol = PROTO_UDP ∨ protocol = PROTO_ICMP := by
    unfold ipv4ProtocolOf at hproto
    split_ifs at hproto with h1 h2
    · exact .inr (.inr (Option.some.inj hproto).symm)
    · obtain rfl := Option.some.inj hproto
      rcases h2 with h | h
      · exact .inl h
      · exact .inr (.inl h)
  rw [finishL4V6ToV4]
  rcases hcases with rfl | rfl | rfl
  · rw [if_pos (.inl rfl), adjustL4ChecksumV6ToV4Incremental,
      adjustL4ChecksumIncremental_length rfl]
    rfl
  · have hmin : l4MinLen PROTO_UDP = 8 := rfl
    by_cases hzero : getRange out 26 2 = some [0, 0]
    · have hlen := length_of_getRange hzero
      have hno : ¬(PROTO_UDP = PROTO_TCP ∨ (PROTO_UDP = PROTO_UDP ∧ getRange out 26 2 ≠ some [0, 0])) := by
        rw [hzero]
        decide
      rw [if_neg hno, recomputeL4ChecksumAfterNat64V6ToV4, if_neg (by omega), if_neg (by decide),
        if_pos rfl, recomputeAt_eq, hmin]
      rw [if_neg (by omega), if_neg (by omega)]
    · rw [if_pos (.inr ⟨rfl, hzero⟩), adjustL4ChecksumV6ToV4Incremental,
        adjustL4ChecksumIncremental_length rfl]
      rfl
  · have hmin : l4MinLen PROTO_ICMP = 4 := rfl
    have hno : ¬(PROTO_ICMP = PROTO_TCP
        ∨ (PROTO_ICMP = PROTO_UDP ∧ getRange out 26 2 ≠ some [0, 0])) := by
      rintro (h | ⟨h, -⟩) <;> exact absurd h (by decide)
    rw [if_neg hno, recomputeL4ChecksumAfterNat64V6ToV4, if_neg (by omega),
      if_neg (by decide), if_neg (by decide), if_pos rfl, recomputeAt_eq, hmin]
    by_cases hshort : out.length < 20 + 4
    · rw [if_pos hshort, if_pos (by omega)]
    · rw [if_neg hshort, if_neg (by omega)]

/-! ## ICMP messages -/

/-- What the quote of an error keeps of its L4 header is behind its IPv6 header. -/
theorem layout_l4_length {embedded : Bytes} {layout : EmbeddedV6ToV4Layout}
    (h : embeddedV6ToV4Layout embedded = some layout) :
    layout.l4.length + 40 ≤ embedded.length ∧ layout.l4.length + 40 ≤ MAX_EMBEDDED_LEN := by
  simp only [embeddedV6ToV4Layout, Option.bind_eq_bind, Option.ite_none_left_eq_some,
    Option.bind_eq_some_iff, Option.some.injEq] at h
  obtain ⟨-, ⟨l4Offset, l4Protocol⟩, -, -, ipv4Protocol, -, hoff, hend, rfl⟩ := h
  dsimp only at hoff hend ⊢
  rw [not_or] at hoff hend
  rw [sub, List.length_take, List.length_drop, List.length_take]
  rw [List.length_take] at hend
  omega

@[simp] theorem length_setQuotedPort (out : Bytes) (i : ℕ) (port : Option UInt16) :
    (setQuotedPort out i port).length = out.length := by
  cases port with
  | none => rfl
  | some port => exact length_put16 _ _ _

@[simp] theorem length_setQuotedType (out : Bytes) (i : ℕ) (t : Option (UInt8 × UInt8)) :
    (setQuotedType out i t).length = out.length := by
  cases t with
  | none => rfl
  | some t => exact length_writeAt _ _ _

/-- **The length of a translated quote.** -/
theorem translateEmbeddedV6ToV4_length (embedded : Bytes) (map : EmbeddedV6ToV4) :
    (translateEmbeddedV6ToV4 MAX_EMBEDDED_LEN embedded map).map List.length
      = (embeddedV6ToV4Layout embedded).map fun layout => 20 + layout.l4.length := by
  unfold translateEmbeddedV6ToV4
  cases hlayout : embeddedV6ToV4Layout embedded with
  | none => rfl
  | some layout =>
    obtain ⟨-, hmax⟩ := layout_l4_length hlayout
    dsimp only [Option.bind_eq_bind, Option.bind_some]
    rw [if_neg (by omega), Option.map_some, Option.map_some, length_withHeaderChecksum]
    split_ifs <;> simp

theorem writeIcmpv4ErrorWithEmbedded_length {src restOfHeader : Bytes} (v4Type v4Code : UInt8)
    (embedded : EmbeddedV6ToV4) (hrest : restOfHeader.length = 4) (hlen : 8 ≤ src.length) :
    (writeIcmpv4ErrorWithEmbedded src.length src v4Type v4Code restOfHeader embedded).map List.length
      = (embeddedV6ToV4Layout (src.drop 8)).map fun layout => 8 + 20 + layout.l4.length := by
  have hquote := translateEmbeddedV6ToV4_length (src.drop 8) embedded
  rw [writeIcmpv4ErrorWithEmbedded, getFrom, if_pos hlen]
  dsimp only [Option.bind_eq_bind, Option.bind_some]
  cases hlayout : embeddedV6ToV4Layout (src.drop 8) with
  | none =>
    rw [hlayout, Option.map_none, Option.map_eq_none_iff] at hquote
    rw [hquote]
    rfl
  | some layout =>
    obtain ⟨hroom, -⟩ := layout_l4_length hlayout
    rw [List.length_drop] at hroom
    rw [hlayout, Option.map_some, Option.map_eq_some_iff] at hquote
    obtain ⟨quote, hq, hqlen⟩ := hquote
    rw [hq, Option.bind_some, if_neg (by omega), Option.map_some, Option.map_some,
      length_finalizeIcmpv4Checksum, List.length_append, List.length_append, hrest, hqlen]
    congr 1
    change 4 + 4 + (20 + layout.l4.length) = _
    omega

theorem translatedIcmpv6ErrorL4Len_eq {src : Bytes} (h : 8 ≤ src.length)
    (hmap : byteAt src 0 = ICMPV6_PACKET_TOO_BIG
      ∨ (mapIcmpv6ErrorToIcmpv4 (byteAt src 0) (byteAt src 1)).isSome = true) :
    translatedIcmpv6ErrorL4Len src
      = (embeddedV6ToV4Layout (src.drop 8)).map fun layout => 8 + 20 + layout.l4.length := by
  have hpass : ¬(byteAt src 0 ≠ ICMPV6_PACKET_TOO_BIG
      ∧ (mapIcmpv6ErrorToIcmpv4 (byteAt src 0) (byteAt src 1)).isNone = true) := by
    rintro ⟨hne, hnone⟩
    rcases hmap with hptb | hsome
    · exact hne hptb
    · rw [Option.isNone_iff_eq_none] at hnone
      rw [hnone] at hsome
      cases hsome
  rw [translatedIcmpv6ErrorL4Len, if_neg (by omega), if_neg hpass]
  cases embeddedV6ToV4Layout (src.drop 8) <;> rfl

/-- **The length of a translated ICMPv6 message**, in the room of the message. -/
theorem translateIcmpv6MessageToIcmpv4_length (src : Bytes) (embedded : EmbeddedV6ToV4) :
    (translateIcmpv6MessageToIcmpv4 src.length src embedded).map List.length
      = icmpOutputLen src := by
  rw [translateIcmpv6MessageToIcmpv4, icmpOutputLen]
  dsimp only
  by_cases hshort : src.length < 4
  · -- too short for a type with an answer
    rw [if_pos hshort, Option.map_none]
    split_ifs with hnil hecho herr
    · rfl
    · omega
    · rw [translatedIcmpv6ErrorL4Len, if_pos (by omega)]
    · rfl
  have hnil : src ≠ [] := by
    rintro rfl
    exact hshort (by simp)
  rw [if_neg hshort, if_neg hnil]
  by_cases hecho : byteAt src 0 = ICMPV6_ECHO_REQUEST ∨ byteAt src 0 = ICMPV6_ECHO_REPLY
  · have hwhole : (byteAt src 0 = ICMPV6_ECHO_REQUEST ∨ byteAt src 0 = ICMPV6_ECHO_REPLY)
        ∧ 4 ≤ src.length := ⟨hecho, by omega⟩
    rw [if_pos hecho, if_neg (Nat.lt_irrefl _), if_pos hwhole, Option.map_some,
      length_finalizeIcmpv4Checksum, length_writeAt]
  have hnot : ¬((byteAt src 0 = ICMPV6_ECHO_REQUEST ∨ byteAt src 0 = ICMPV6_ECHO_REPLY)
      ∧ 4 ≤ src.length) := fun h => hecho h.1
  rw [if_neg hecho, if_neg hnot]
  by_cases hptb : byteAt src 0 = ICMPV6_PACKET_TOO_BIG
  · have herr : byteAt src 0 = ICMPV6_PACKET_TOO_BIG ∨ byteAt src 0 = ICMPV6_DEST_UNREACHABLE
        ∨ byteAt src 0 = ICMPV6_TIME_EXCEEDED ∨ byteAt src 0 = ICMPV6_PARAMETER_PROBLEM := .inl hptb
    rw [if_pos hptb, if_pos herr]
    by_cases hlen : src.length < 8
    · rw [if_pos hlen, translatedIcmpv6ErrorL4Len, if_pos hlen]
      rfl
    · rw [if_neg hlen, writeIcmpv4ErrorWithEmbedded_length _ _ _ rfl (by omega),
        translatedIcmpv6ErrorL4Len_eq (by omega) (.inl hptb)]
  rw [if_neg hptb]
  by_cases herr : byteAt src 0 = ICMPV6_DEST_UNREACHABLE ∨ byteAt src 0 = ICMPV6_TIME_EXCEEDED
      ∨ byteAt src 0 = ICMPV6_PARAMETER_PROBLEM
  · have herr' : byteAt src 0 = ICMPV6_PACKET_TOO_BIG ∨ byteAt src 0 = ICMPV6_DEST_UNREACHABLE
        ∨ byteAt src 0 = ICMPV6_TIME_EXCEEDED ∨ byteAt src 0 = ICMPV6_PARAMETER_PROBLEM := .inr herr
    rw [if_pos herr, if_pos herr']
    by_cases hlen : src.length < 8
    · rw [translatedIcmpv6ErrorL4Len, if_pos hlen]
      cases mapIcmpv6ErrorToIcmpv4 (byteAt src 0) (byteAt src 1) with
      | none => rfl
      | some tc =>
        dsimp only
        rw [writeIcmpv4ErrorWithEmbedded, getFrom, if_neg (by omega)]
        rfl
    · cases hmap : mapIcmpv6ErrorToIcmpv4 (byteAt src 0) (byteAt src 1) with
      | none =>
        rw [translatedIcmpv6ErrorL4Len, if_neg hlen, if_pos ⟨hptb, by rw [hmap]; rfl⟩]
        rfl
      | some tc =>
        dsimp only
        rw [writeIcmpv4ErrorWithEmbedded_length _ _ _ rfl (by omega),
          translatedIcmpv6ErrorL4Len_eq (by omega) (.inr (by rw [hmap]; rfl))]
  · have hother : ¬(byteAt src 0 = ICMPV6_PACKET_TOO_BIG ∨ byteAt src 0 = ICMPV6_DEST_UNREACHABLE
        ∨ byteAt src 0 = ICMPV6_TIME_EXCEEDED ∨ byteAt src 0 = ICMPV6_PARAMETER_PROBLEM) := by
      rintro (h | h)
      · exact hptb h
      · exact herr h
    rw [if_neg herr, if_neg hother]
    rfl

/-! ## The whole packet -/

/-- The tail of the translator: a header of twenty bytes, its total length checked, the two
checksums. -/
theorem finished_length {hdr l4 : Bytes} {l4Protocol protocol : UInt8} (v6SrcDst : Bytes)
    (v4Src v4Dst : Ipv4Addr) (hproto : ipv4ProtocolOf l4Protocol = some protocol)
    (hhdr : hdr.length = 20) :
    ((finishL4V6ToV4 (hdr ++ l4) protocol v6SrcDst v4Src v4Dst).bind
        fun out => some (withHeaderChecksum out)).map List.length
      = if l4.length < l4MinLen protocol then none else some (20 + l4.length) := by
  have hlen : (hdr ++ l4).length = 20 + l4.length := by rw [List.length_append, hhdr]
  have hfin := finishL4V6ToV4_length (hdr ++ l4) v6SrcDst v4Src v4Dst hproto (by omega)
  rw [hlen] at hfin
  by_cases hshort : l4.length < l4MinLen protocol
  · rw [if_pos (by omega), Option.map_eq_none_iff] at hfin
    rw [hfin, if_pos hshort]
    rfl
  · rw [if_neg (by omega), Option.map_eq_some_iff] at hfin
    obtain ⟨out, hout, hlen⟩ := hfin
    rw [hout, if_neg hshort, Option.bind_some, Option.map_some, length_withHeaderChecksum, hlen]

/-- The L4 region is a range of the packet. -/
theorem v6L4Region_eq_some {packet l4 : Bytes} {off : ℕ} {protocol : UInt8}
    (h : v6L4Region packet = some (off, protocol, l4)) :
    ipv6L4OffsetAndProtocol packet = some (off, protocol) ∧ off + l4.length ≤ packet.length
      ∧ l4 = sub packet off l4.length := by
  simp only [v6L4Region, Option.bind_eq_bind, Option.bind_eq_some_iff,
    Option.ite_none_left_eq_some, Option.some.injEq, Prod.mk.injEq] at h
  obtain ⟨⟨o, p⟩, hwalk, -, range, hrange, rfl, rfl, rfl⟩ := h
  obtain ⟨hle, rfl⟩ := getRange_eq_some hrange
  dsimp only at hle
  refine ⟨hwalk, ?_, ?_⟩
  · rw [length_sub hle]
    exact hle
  · rw [length_sub hle]

/-- Where the L4 header has its checksum field, both gates read the same bytes. -/
theorem region_getRange {packet l4 : Bytes} {off : ℕ} {protocol : UInt8}
    (h : v6L4Region packet = some (off, protocol, l4)) {i n : ℕ} (hlen : i + n ≤ l4.length) :
    getRange packet (off + i) n = getRange l4 i n := by
  obtain ⟨-, hle, hsub⟩ := v6L4Region_eq_some h
  rw [getRange_of_le hlen, getRange_of_le (by omega)]
  conv_rhs => rw [hsub]
  rw [sub_sub packet hlen]

/-- What the translator needs besides the preflight: room for the longest outcome, and an L4
header that reaches its checksum. -/
structure Translatable (capacity : ℕ) (packet : Bytes) : Prop where
  room : ∀ r, v6L4Region packet = some r → 20 + r.2.2.length ≤ capacity
  tcp : ∀ r, v6L4Region packet = some r → r.2.1 = PROTO_TCP → 18 ≤ r.2.2.length
  udp : ∀ r, v6L4Region packet = some r → r.2.1 = PROTO_UDP → 8 ≤ r.2.2.length

theorem icmpOutputLen_ge {l4 : Bytes} {n : ℕ} (h : icmpOutputLen l4 = some n) : 4 ≤ n := by
  unfold icmpOutputLen at h
  dsimp only at h
  split_ifs at h with h1 h2 h3
  · obtain rfl := Option.some.inj h
    exact h2.2
  · unfold translatedIcmpv6ErrorL4Len at h
    split_ifs at h
    obtain ⟨layout, -, h⟩ := Option.bind_eq_some_iff.mp h
    obtain rfl := Option.some.inj h
    omega

theorem translatable_iff {capacity off : ℕ} {packet l4 : Bytes} {l4Protocol : UInt8}
    (h : v6L4Region packet = some (off, l4Protocol, l4)) :
    Translatable capacity packet ↔ 20 + l4.length ≤ capacity
      ∧ (l4Protocol = PROTO_TCP → 18 ≤ l4.length) ∧ (l4Protocol = PROTO_UDP → 8 ≤ l4.length) := by
  constructor
  · intro ht
    exact ⟨ht.room _ h, ht.tcp _ h, ht.udp _ h⟩
  · rintro ⟨hroom, htcp, hudp⟩
    constructor
    all_goals
      intro r hr
      rw [h] at hr
      obtain rfl := Option.some.inj hr
    · exact hroom
    · exact htcp
    · exact hudp

/-- The header of a translated TCP or UDP packet has to reach its checksum. -/
theorem l4MinLen_iff {l4Protocol : UInt8} (h : l4Protocol = PROTO_TCP ∨ l4Protocol = PROTO_UDP)
    (len : ℕ) :
    len < l4MinLen l4Protocol
      ↔ ¬((l4Protocol = PROTO_TCP → 18 ≤ len) ∧ (l4Protocol = PROTO_UDP → 8 ≤ len)) := by
  rcases h with rfl | rfl
  · have hmin : l4MinLen PROTO_TCP = 18 := rfl
    have hne : ¬PROTO_TCP = PROTO_UDP := by decide
    simp only [hmin, hne, true_implies, false_implies, and_true, Nat.not_le]
  · have hmin : l4MinLen PROTO_UDP = 8 := rfl
    have hne : ¬PROTO_UDP = PROTO_TCP := by decide
    simp only [hmin, hne, true_implies, false_implies, true_and, Nat.not_le]

/-- The length of what is written for a packet that is no later fragment. -/
theorem written_length_first (rawId : UInt32) (capacity : ℕ) (packet : Bytes) (snatV4 dstV4 : Ipv4Addr)
    (noV6FragHeader : Bool) (embeddedDstPort : Option UInt16)
    (hfirst : ipv6IsNonFirstFragment packet = false) (n : ℕ) :
    (writeV6ToV4Translate rawId capacity packet snatV4 dstV4 noV6FragHeader embeddedDstPort
        false).map List.length = some n
      ↔ v6ToV4OutputLen packet = some n ∧ Translatable capacity packet := by
  rw [writeV6ToV4Translate, v6ToV4OutputLen]
  dsimp only [Option.bind_eq_bind]
  by_cases hgate : packet.length < 40 ∨ nat64V6TranslationIneligible packet = true
  · rw [if_pos hgate, if_pos (or_assoc.mp (.inl hgate))]
    simp
  by_cases hhop : byteAt packet 7 ≤ 1
  · rw [if_neg hgate, if_pos (by simpa using hhop), if_pos (.inr (.inr hhop))]
    simp
  have hpass : ¬(packet.length < 40 ∨ nat64V6TranslationIneligible packet = true
      ∨ byteAt packet 7 ≤ 1) := by
    rintro (h | h | h)
    · exact hgate (.inl h)
    · exact hgate (.inr h)
    · exact hhop h
  rw [if_neg hgate, if_neg (by simpa using hhop), if_neg hpass, hfirst]
  simp only [if_neg Bool.false_ne_true]
  cases hregion : v6L4Region packet with
  | none => simp
  | some r =>
    obtain ⟨off, l4Protocol, l4⟩ := r
    dsimp only [Option.bind_some]
    rw [translatable_iff hregion]
    -- one case for each protocol that has a counterpart
    by_cases hicmp : l4Protocol = PROTO_ICMPV6
    · subst hicmp
      have hno4 : ¬PROTO_ICMPV6 = PROTO_TCP := by decide
      have hno6 : ¬PROTO_ICMPV6 = PROTO_UDP := by decide
      have hproto : ipv4ProtocolOf PROTO_ICMPV6 = some PROTO_ICMP := rfl
      rw [hproto, l4OutputLen]
      dsimp only [Option.bind_some]
      simp only [hno4, hno6, false_and, true_and, or_self, if_false, if_true, false_implies,
        and_true]
      by_cases hreal : (ipv6FragmentHeader packet).any Ipv6FragInfo.real = true
      · simp [hreal]
      rw [if_neg hreal, if_neg hreal]
      have hlen := translateIcmpv6MessageToIcmpv4_length l4 ⟨dstV4, snatV4, embeddedDstPort⟩
      by_cases hroom : capacity < 20 + l4.length
      · rw [if_pos hroom]
        simp only [Option.map_none, reduceCtorEq, false_iff, not_and, Nat.not_le]
        exact fun _ => hroom
      rw [if_neg hroom]
      cases hl4 : translateIcmpv6MessageToIcmpv4 l4.length l4 ⟨dstV4, snatV4, embeddedDstPort⟩ with
      | none =>
        rw [hl4] at hlen
        rw [← hlen]
        simp
      | some out =>
        rw [hl4, Option.map_some] at hlen
        have hge := icmpOutputLen_ge hlen.symm
        have hmin : ¬out.length < l4MinLen PROTO_ICMP := Nat.not_lt.mpr hge
        rw [← hlen, Option.bind_some, Option.bind_some, totalLenOf]
        by_cases hbig : 65535 < 20 + out.length
        · rw [if_pos hbig, if_neg (by omega)]
          simp
        · rw [if_neg hbig, if_pos (by omega),
            finished_length _ _ _ hproto (length_ipv4Header _ _ _ _ _ _ _ _), if_neg hmin]
          simp only [iff_self_and]
          exact fun _ => Nat.not_lt.mp hroom
    by_cases hports : l4Protocol = PROTO_TCP ∨ l4Protocol = PROTO_UDP
    · have hproto : ipv4ProtocolOf l4Protocol = some l4Protocol := by
        rw [ipv4ProtocolOf, if_neg hicmp, if_pos hports]
      rw [hproto, l4OutputLen, if_pos hports]
      dsimp only [Option.bind_some]
      simp only [hicmp, false_and, if_false]
      by_cases hwhole : (l4Protocol = PROTO_TCP → 18 ≤ l4.length)
          ∧ (l4Protocol = PROTO_UDP → 8 ≤ l4.length)
      · -- the field is there, so both gates read it
        have hgates : (l4Protocol = PROTO_UDP
              ∧ (ipv6FragmentHeader packet).any Ipv6FragInfo.leading = true
              ∧ getRange packet (off + 6) 2 = some [0, 0])
            ↔ (l4Protocol = PROTO_UDP
              ∧ (ipv6FragmentHeader packet).any Ipv6FragInfo.leading = true
              ∧ getRange l4 6 2 = some [0, 0]) := by
          constructor
          · rintro ⟨hudp, hlead, hzero⟩
            have h8 := hwhole.2 hudp
            rw [region_getRange hregion (by omega)] at hzero
            exact ⟨hudp, hlead, hzero⟩
          · rintro ⟨hudp, hlead, hzero⟩
            have h8 := hwhole.2 hudp
            rw [← region_getRange hregion (by omega)] at hzero
            exact ⟨hudp, hlead, hzero⟩
        have hmin := mt (l4MinLen_iff hports l4.length).mp (not_not.mpr hwhole)
        simp only [hgates]
        by_cases hzero : l4Protocol = PROTO_UDP
            ∧ (ipv6FragmentHeader packet).any Ipv6FragInfo.leading = true
            ∧ getRange l4 6 2 = some [0, 0]
        · rw [if_pos hzero, if_pos hzero]
          simp
        rw [if_neg hzero, if_neg hzero, totalLenOf]
        by_cases hroom : capacity < 20 + l4.length
        · rw [if_pos hroom]
          simp only [Option.map_none, reduceCtorEq, false_iff, not_and]
          exact fun _ hle => absurd hle (by omega)
        rw [if_neg hroom]
        by_cases hbig : 65535 < 20 + l4.length
        · rw [if_pos hbig, if_neg (by omega)]
          simp
        · rw [if_neg hbig, if_pos (by omega),
            finished_length _ _ _ hproto (length_ipv4Header _ _ _ _ _ _ _ _), if_neg hmin]
          simp only [iff_self_and]
          exact fun _ => ⟨Nat.not_lt.mp hroom, hwhole⟩
      · -- cut short, the translator finds no field to adjust
        have hmin := (l4MinLen_iff hports l4.length).mpr hwhole
        constructor
        · intro h
          exfalso
          split_ifs at h
          · cases h
          · cases h
          · cases h
          · rw [finished_length _ _ _ hproto (length_ipv4Header _ _ _ _ _ _ _ _), if_pos hmin] at h
            cases h
        · rintro ⟨-, -, h⟩
          exact absurd h hwhole
    · have hproto : ipv4ProtocolOf l4Protocol = none := by
        rw [ipv4ProtocolOf, if_neg hicmp, if_neg hports]
      rw [hproto, l4OutputLen, if_neg hports, if_neg hicmp]
      simp

/-- Nothing is written for a later fragment. -/
theorem writeV6ToV4Translate_later {packet : Bytes} (hlater : ipv6IsNonFirstFragment packet = true)
    (rawId : UInt32) (capacity : ℕ) (snatV4 dstV4 : Ipv4Addr) (noV6FragHeader preserveTtl : Bool)
    (embeddedDstPort : Option UInt16) :
    writeV6ToV4Translate rawId capacity packet snatV4 dstV4 noV6FragHeader embeddedDstPort preserveTtl
      = none := by
  rw [Option.eq_none_iff_forall_ne_some]
  intro out hout
  obtain ⟨_, _, _, _, hw⟩ := writeV6ToV4Translate_some hout
  rw [hw.notLater] at hlater
  cases hlater

/-- **The preflight is exact.** For every packet, address mapping, option and buffer: the
translator writes `n` bytes exactly when the packet is no later fragment, the preflight says
`n`, the buffer has the room and the L4 header reaches its checksum. -/
theorem preflight_exact (rawId : UInt32) (capacity : ℕ) (packet : Bytes) (snatV4 dstV4 : Ipv4Addr)
    (noV6FragHeader : Bool) (embeddedDstPort : Option UInt16) (n : ℕ) :
    (writeV6ToV4Translate rawId capacity packet snatV4 dstV4 noV6FragHeader embeddedDstPort
        false).map List.length = some n
      ↔ ipv6IsNonFirstFragment packet = false ∧ v6ToV4OutputLen packet = some n
        ∧ Translatable capacity packet := by
  cases hlater : ipv6IsNonFirstFragment packet with
  | true =>
    rw [writeV6ToV4Translate_later hlater]
    simp
  | false =>
    rw [written_length_first rawId capacity packet snatV4 dstV4 noV6FragHeader embeddedDstPort hlater]
    simp

example : v6ToV4OutputLen udpPacket6 = some 28 := by decide

end Xpf.Nat64
