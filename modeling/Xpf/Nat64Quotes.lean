/-
The packets that translated ICMP errors quote.

An ICMPv6 error about a translated packet carries that packet back in its IPv6 form. The sender
is on the IPv4 side and looks for its own packet in the quote, so the quote is translated the
other way round: the addresses of the error with source and destination exchanged, the
session's port, and a header that verifies.
-/
import Xpf.Nat64Length

set_option autoImplicit false

namespace Xpf.Nat64

open Xpf.ByteBuffer Xpf.Frames

/-- What the sender of a quoted packet finds at the beginning of the quote. -/
structure QuoteV4 (quote : Bytes) (src dst : Ipv4Addr) (dstPort : Option UInt16) : Prop where
  version : byteAt quote 0 = 0x45
  header : checksum16 (quote.take 20) = 0
  addresses : sub quote 12 8 = List.ofFn src ++ List.ofFn dst
  port : ∀ p, dstPort = some p → byteAt quote 9 = PROTO_TCP ∨ byteAt quote 9 = PROTO_UDP →
    24 ≤ quote.length → get16 quote 22 = p

section Edits

variable {hdr l4 : Bytes}

/-- Edits of the quoted segment leave its header alone. -/
theorem setQuotedPort_behind (hlen : hdr.length = 20) (i : ℕ) (port : Option UInt16) :
    setQuotedPort (hdr ++ l4) (20 + i) port = hdr ++ setQuotedPort l4 i port := by
  cases port with
  | none => rfl
  | some port => exact put16_behind hlen i port

theorem setQuotedType_behind (hlen : hdr.length = 20) (i : ℕ) (t : Option (UInt8 × UInt8)) :
    setQuotedType (hdr ++ l4) (20 + i) t = hdr ++ setQuotedType l4 i t := by
  cases t with
  | none => rfl
  | some t =>
    rw [setQuotedType, ← hlen, writeAt_append_right]
    rfl

end Edits

theorem layout_protocol {embedded : Bytes} {layout : EmbeddedV6ToV4Layout}
    (h : embeddedV6ToV4Layout embedded = some layout) :
    ipv4ProtocolOf layout.l4Protocol = some layout.ipv4Protocol := by
  simp only [embeddedV6ToV4Layout, Option.bind_eq_bind, Option.ite_none_left_eq_some,
    Option.bind_eq_some_iff, Option.some.injEq] at h
  obtain ⟨-, ⟨l4Offset, l4Protocol⟩, -, -, ipv4Protocol, hproto, -, -, rfl⟩ := h
  exact hproto

theorem ipv4ProtocolOf_ports {l4Protocol protocol : UInt8}
    (h : ipv4ProtocolOf l4Protocol = some protocol)
    (hports : protocol = PROTO_TCP ∨ protocol = PROTO_UDP) :
    l4Protocol = PROTO_TCP ∨ l4Protocol = PROTO_UDP := by
  unfold ipv4ProtocolOf at h
  split_ifs at h with hicmp hp
  · rw [← Option.some.inj h] at hports
    exact absurd hports (by decide)
  · exact hp

/-- The quote is the written header and the segment, with its port or its type changed. -/
theorem translateEmbeddedV6ToV4_parts {capacity : ℕ} {embedded quote : Bytes} {map : EmbeddedV6ToV4}
    (h : translateEmbeddedV6ToV4 capacity embedded map = some quote) :
    ∃ layout seg, embeddedV6ToV4Layout embedded = some layout
      ∧ quote = withHeaderChecksum (ipv4Header layout.trafficClass
          (UInt16.ofNat layout.advertisedTotal) layout.identification layout.fragmentWord
          layout.hopLimit layout.ipv4Protocol map.mappedEmbeddedSrc map.mappedEmbeddedDst ++ seg)
      ∧ (layout.l4Protocol = PROTO_TCP ∨ layout.l4Protocol = PROTO_UDP → 4 ≤ seg.length →
        ∀ p, map.mappedEmbeddedDstPort = some p → get16 seg 2 = p) := by
  simp only [translateEmbeddedV6ToV4, Option.bind_eq_bind, Option.bind_eq_some_iff,
    Option.ite_none_left_eq_some, Option.some.injEq] at h
  obtain ⟨layout, hlayout, -, hquote⟩ := h
  have h20 := length_ipv4Header layout.trafficClass (UInt16.ofNat layout.advertisedTotal)
    layout.identification layout.fragmentWord layout.hopLimit layout.ipv4Protocol
    map.mappedEmbeddedSrc map.mappedEmbeddedDst
  refine ⟨layout, ?_⟩
  simp only [hlayout, true_and]
  generalize ipv4Header layout.trafficClass (UInt16.ofNat layout.advertisedTotal)
    layout.identification layout.fragmentWord layout.hopLimit layout.ipv4Protocol
    map.mappedEmbeddedSrc map.mappedEmbeddedDst = hdr at h20 hquote ⊢
  have hport2 : ∀ port, setQuotedPort (hdr ++ layout.l4) 22 port
      = hdr ++ setQuotedPort layout.l4 2 port := setQuotedPort_behind h20 2
  have hport4 : ∀ port, setQuotedPort (hdr ++ layout.l4) 24 port
      = hdr ++ setQuotedPort layout.l4 4 port := setQuotedPort_behind h20 4
  have htype : ∀ l4 t, setQuotedType (hdr ++ l4) 20 t = hdr ++ setQuotedType l4 0 t :=
    fun l4 t => setQuotedType_behind h20 0 t
  rw [hport2, hport4] at hquote
  by_cases hports : layout.l4Protocol = PROTO_TCP ∨ layout.l4Protocol = PROTO_UDP
  · have hicmp : ¬layout.l4Protocol = PROTO_ICMPV6 := by
      rcases hports with hp | hp <;> rw [hp] <;> decide
    have hno : ∀ n : ℕ, ¬(layout.l4Protocol = PROTO_ICMPV6 ∧ n ≤ layout.l4.length) :=
      fun n hp => hicmp hp.1
    rw [if_neg (hno 6), if_neg (hno 2)] at hquote
    by_cases hfour : 4 ≤ layout.l4.length
    · rw [if_pos ⟨hports, hfour⟩] at hquote
      refine ⟨_, hquote.symm, ?_⟩
      intro _ _ p hp
      rw [hp]
      exact get16_put16 p hfour
    · rw [if_neg fun hp => hfour hp.2] at hquote
      exact ⟨_, hquote.symm, fun _ hlen => absurd hlen hfour⟩
  · -- a quoted echo has an identifier in the place of a port
    have hno : ¬((layout.l4Protocol = PROTO_TCP ∨ layout.l4Protocol = PROTO_UDP)
        ∧ 4 ≤ layout.l4.length) := fun hp => hports hp.1
    rw [if_neg hno] at hquote
    split_ifs at hquote
    all_goals
      first
      | rw [htype] at hquote
        exact ⟨_, hquote.symm, fun hp => absurd hp hports⟩
      | exact ⟨_, hquote.symm, fun hp => absurd hp hports⟩

/-- **A translated quote is the sender's packet.** -/
theorem translateEmbeddedV6ToV4_quote {capacity : ℕ} {embedded quote : Bytes} {map : EmbeddedV6ToV4}
    (h : translateEmbeddedV6ToV4 capacity embedded map = some quote) :
    QuoteV4 quote map.mappedEmbeddedSrc map.mappedEmbeddedDst map.mappedEmbeddedDstPort := by
  obtain ⟨layout, seg, hlayout, rfl, hport⟩ := translateEmbeddedV6ToV4_parts h
  have h20 := length_ipv4Header layout.trafficClass (UInt16.ofNat layout.advertisedTotal)
    layout.identification layout.fragmentWord layout.hopLimit layout.ipv4Protocol
    map.mappedEmbeddedSrc map.mappedEmbeddedDst
  have hzero := get16_ipv4Header_checksum layout.trafficClass (UInt16.ofNat layout.advertisedTotal)
    layout.identification layout.fragmentWord layout.hopLimit layout.ipv4Protocol
    map.mappedEmbeddedSrc map.mappedEmbeddedDst
  obtain ⟨hhead, -, hsub⟩ := withHeaderChecksum_parts seg h20 hzero
  have hbyte := fun i (hi : i < 10) => byteAt_withHeaderChecksum seg h20 hi
  constructor
  · rw [hbyte 0 (by omega)]
    rfl
  · exact hhead
  · rw [hsub 12 8 (by omega) (by omega), ipv4Header_addresses]
  · intro p hp hports hlen
    rw [hbyte 9 (by omega)] at hports
    rw [withHeaderChecksum, length_put16, List.length_append, h20] at hlen
    rw [get16_withHeaderChecksum _ h20 hzero 2]
    exact hport (ipv4ProtocolOf_ports (layout_protocol hlayout) hports) (by omega) p hp

/-- An error is eight bytes and the translated quote. -/
theorem writeIcmpv4ErrorWithEmbedded_drop {capacity : ℕ} {src restOfHeader l4' : Bytes}
    {v4Type v4Code : UInt8} {embedded : EmbeddedV6ToV4} (hrest : restOfHeader.length = 4)
    (h : writeIcmpv4ErrorWithEmbedded capacity src v4Type v4Code restOfHeader embedded = some l4') :
    ∃ embeddedIn, translateEmbeddedV6ToV4 MAX_EMBEDDED_LEN embeddedIn embedded = some (l4'.drop 8) := by
  simp only [writeIcmpv4ErrorWithEmbedded, Option.bind_eq_bind, Option.bind_eq_some_iff,
    Option.ite_none_left_eq_some, Option.some.injEq] at h
  obtain ⟨embeddedIn, -, quote, hquote, -, rfl⟩ := h
  refine ⟨embeddedIn, ?_⟩
  have hlen : ([v4Type, v4Code, 0, 0] ++ restOfHeader).length = 8 := by
    rw [List.length_append, hrest]
    rfl
  have hlong : ¬([v4Type, v4Code, 0, 0] ++ restOfHeader ++ quote).length < 4 := by
    rw [List.length_append, hlen]
    omega
  rw [finalizeIcmpv4Checksum, if_neg hlong]
  dsimp only
  rw [put16_put16, put16, drop_writeAt_of_le (by rw [length_toBe]; omega), List.drop_left' hlen, hquote]

/-- A message that is no echo is an error with a quote. -/
theorem translateIcmpv6MessageToIcmpv4_error {capacity : ℕ} {src l4' : Bytes}
    {embedded : EmbeddedV6ToV4}
    (h : translateIcmpv6MessageToIcmpv4 capacity src embedded = some l4')
    (herr : ¬(byteAt src 0 = ICMPV6_ECHO_REQUEST ∨ byteAt src 0 = ICMPV6_ECHO_REPLY)) :
    ∃ embeddedIn, translateEmbeddedV6ToV4 MAX_EMBEDDED_LEN embeddedIn embedded = some (l4'.drop 8) := by
  unfold translateIcmpv6MessageToIcmpv4 at h
  dsimp only at h
  rw [if_neg herr] at h
  split_ifs at h
  · exact writeIcmpv4ErrorWithEmbedded_drop rfl h
  · split at h
    · cases h
    · exact writeIcmpv4ErrorWithEmbedded_drop rfl h

/-- **Every error that is translated quotes the packet its receiver has sent**: the addresses of
the error exchanged, the session's port, a header that verifies. -/
theorem v6ToV4_quotes (rawId : UInt32) (capacity : ℕ) (packet out : Bytes) (snatV4 dstV4 : Ipv4Addr)
    (noV6FragHeader preserveTtl : Bool) (embeddedDstPort : Option UInt16) (off : ℕ) (l4 : Bytes)
    (h : writeV6ToV4Translate rawId capacity packet snatV4 dstV4 noV6FragHeader embeddedDstPort
      preserveTtl = some out)
    (hregion : v6L4Region packet = some (off, PROTO_ICMPV6, l4))
    (herr : ¬(byteAt l4 0 = ICMPV6_ECHO_REQUEST ∨ byteAt l4 0 = ICMPV6_ECHO_REPLY)) :
    QuoteV4 (out.drop 28) dstV4 snatV4 embeddedDstPort := by
  obtain ⟨l4Protocol, protocol, l4₁, l4', hw⟩ := writeV6ToV4Translate_some h
  obtain ⟨off', hregion'⟩ := hw.region
  rw [hregion] at hregion'
  obtain ⟨rfl, rfl, rfl⟩ : off = off' ∧ PROTO_ICMPV6 = l4Protocol ∧ l4 = l4₁ := by
    simpa using hregion'
  obtain rfl : protocol = PROTO_ICMP := (Option.some.inj hw.mapped).symm
  obtain ⟨finished, hfin, rfl⟩ := hw.written
  obtain ⟨hfour, rfl⟩ := finishL4V6ToV4_icmp (length_ipv4Header _ _ _ _ _ _ _ _) hfin
  obtain ⟨embeddedIn, hquote⟩ := translateIcmpv6MessageToIcmpv4_error (hw.message rfl) herr
  obtain ⟨-, hdrop, -⟩ := withHeaderChecksum_parts
    (put16 l4' 2 (checksum16 (put16 l4' 2 0)))
    (length_ipv4Header (trafficClassOf packet) (UInt16.ofNat (20 + l4'.length))
      (v6FragmentFields packet (20 + l4'.length) noV6FragHeader rawId).2
      (v6FragmentFields packet (20 + l4'.length) noV6FragHeader rawId).1
      (if preserveTtl then byteAt packet 7 else byteAt packet 7 - 1) PROTO_ICMP snatV4 dstV4)
    (get16_ipv4Header_checksum _ _ _ _ _ _ _ _)
  -- the quote is behind the two headers
  rw [show 28 = 20 + 8 from rfl, ← List.drop_drop, hdrop, put16,
    drop_writeAt_of_le (by rw [length_toBe]; omega)]
  exact translateEmbeddedV6ToV4_quote hquote

/-- Port unreachable, about a datagram from 64:ff9b::c000:201 to 2001:db8::1. -/
def unreachable6 : Bytes :=
  [0x60, 0, 0, 0, 0, 56, 58, 64,
    0x20, 0x01, 0x0d, 0xb8, 0, 0, 0, 0, 0, 0, 0, 0, 0, 0, 0, 1,
    0x00, 0x64, 0xff, 0x9b, 0, 0, 0, 0, 0, 0, 0, 0, 192, 0, 2, 1,
    1, 4, 0, 0, 0, 0, 0, 0,
    0x60, 0, 0, 0, 0, 8, 17, 60,
    0x00, 0x64, 0xff, 0x9b, 0, 0, 0, 0, 0, 0, 0, 0, 192, 0, 2, 1,
    0x20, 0x01, 0x0d, 0xb8, 0, 0, 0, 0, 0, 0, 0, 0, 0, 0, 0, 1,
    0, 53, 3, 232, 0, 8, 12, 34]

/-- The same for its sender, 192.0.2.1, which knows 203.0.113.5 and port 40000. -/
def unreachable4 : Bytes :=
  [69, 0, 0, 56, 0, 8, 0, 0, 63, 1, 125, 182, 203, 0, 113, 5, 192, 0, 2, 1,
    3, 3, 84, 93, 0, 0, 0, 0,
    69, 0, 0, 28, 0, 0, 64, 0, 60, 17, 64, 202, 192, 0, 2, 1, 203, 0, 113, 5,
    0, 53, 156, 64, 0, 8, 12, 34]

theorem v6ToV4_quotes_unreachable :
    QuoteV4 (unreachable4.drop 28) ![192, 0, 2, 1] ![203, 0, 113, 5] (some 40000) := by
  have hwrite : writeV6ToV4Translate 7 1500 unreachable6 ![203, 0, 113, 5] ![192, 0, 2, 1] false
      (some 40000) false = some unreachable4 := by decide +kernel
  have hregion : v6L4Region unreachable6 = some (40, PROTO_ICMPV6, unreachable6.drop 40) := by
    decide +kernel
  exact v6ToV4_quotes 7 1500 unreachable6 unreachable4 ![203, 0, 113, 5] ![192, 0, 2, 1] false false
    (some 40000) 40 (unreachable6.drop 40) hwrite hregion (by decide +kernel)

end Xpf.Nat64
