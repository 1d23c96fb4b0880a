/-
The checksums of translated packets.

A receiver adds up the words of the pseudo-header and of the segment and accepts the segment
when the finished sum is zero. Behind a translator that sum is the one of the original segment
where the checksum was adjusted, and zero where it was computed anew, so no translator repairs
a broken segment or breaks a good one. All of this is about residues modulo `0xFFFF`: the
adjustment takes out of the field what the new addresses add.
-/
import Xpf.Nat64Translate

set_option autoImplicit false

namespace Xpf.Nat64

open Xpf.ByteBuffer Xpf.Frames Xpf.OnesComplement Xpf.WordSums

/-! ## Residues -/

theorem sum_words16 (b : Bytes) : ((words16 b).map UInt16.toNat).sum = wordSum b := by
  induction b using words16.induct with
  | case1 hi lo rest ih =>
    rw [words16, List.map_cons, List.sum_cons, ih, wordSum_cons_cons]
  | case2 last =>
    rw [words16, wordSum, List.map_singleton, List.sum_singleton, fromBe_toNat, UInt8.toNat_zero,
      Nat.add_zero]
  | case3 => rfl

theorem finish_add_mod (s : ℕ) : ((checksum16Finish s).toNat + s) % 65535 = 0 := by
  obtain ⟨hle, hmod, -⟩ := foldAll_spec s
  rw [checksum16Finish_toNat]
  omega

/-- Two sums with one residue, neither of them zero, are finished to the same word. -/
theorem finish_eq_of_mod {s t : ℕ} (h : s % 65535 = t % 65535) (hs : s ≠ 0) (ht : t ≠ 0) :
    checksum16Finish s = checksum16Finish t := by
  obtain ⟨hle, hmod, hzero⟩ := foldAll_spec t
  apply checksum16Finish_congr
  apply foldAll_eq_of hle
  · rw [hmod, h]
  · rw [hzero]
    exact ⟨fun h => absurd h ht, fun h => absurd h hs⟩

theorem canonicalChecksum_mod (protocol : UInt8) (family : ChecksumFamily) (w : UInt16) :
    (canonicalChecksum protocol family w).toNat % 65535 = w.toNat % 65535 := by
  rw [canonicalChecksum]
  split_ifs with h
  · simp only [Bool.and_eq_true, beq_iff_eq] at h
    rw [h.2]
    rfl
  · rfl

/-- **An update takes out of the field what it is told is added elsewhere.** -/
theorem bump_mod (protocol : UInt8) (family : ChecksumFamily) (d : ℕ) (c : UInt16) :
    ((bump protocol family d c).toNat + d) % 65535 = c.toNat % 65535 := by
  have hsum := finish_add_mod (compl16 c + d)
  have hcanon := canonicalChecksum_mod protocol family (checksum16Finish (compl16 c + d))
  have hcompl := compl16_add c
  rw [bump]
  omega

/-- A sum that includes its own checksum is accepted, also with zero sent as `0xFFFF`. -/
theorem finish_settled (protocol : UInt8) (family : ChecksumFamily) (s : ℕ) :
    checksum16Finish (s + (canonicalChecksum protocol family (checksum16Finish s)).toNat) = 0 := by
  have hsum := finish_add_mod s
  have hcanon := canonicalChecksum_mod protocol family (checksum16Finish s)
  have hmod : (s + (canonicalChecksum protocol family (checksum16Finish s)).toNat) % 65535 = 0 := by
    omega
  have hne : s + (canonicalChecksum protocol family (checksum16Finish s)).toNat ≠ 0 := by
    intro hzero
    have hs : s = 0 := by omega
    have hffff : checksum16Finish 0 = 0xFFFF := by
      apply UInt16.toNat_inj.mp
      rw [checksum16Finish_toNat, foldAll_of_le (Nat.zero_le _)]
      rfl
    have hcanon : canonicalChecksum protocol family (checksum16Finish s) = 0xFFFF := by
      rw [hs, hffff, canonicalChecksum_of_ne (by decide)]
    rw [hcanon] at hzero
    change s + 65535 = 0 at hzero
    omega
  obtain ⟨hle, hfold, hz⟩ := foldAll_spec
    (s + (canonicalChecksum protocol family (checksum16Finish s)).toNat)
  rw [finish_eq_zero]
  omega

/-! ## Pseudo-headers -/

/-- What the pseudo-header of a segment adds to its sum, in either family. -/
def pseudoSum (src dst : Bytes) (protocol : UInt8) (len : ℕ) : ℕ :=
  wordSum src + wordSum dst + protocol.toNat + len

theorem checksum16Ipv4Pseudo_eq {payload : Bytes} (src dst : Bytes) (protocol : UInt8)
    (hsrc : src.length ≤ 16) (hdst : dst.length ≤ 16) (hlen : payload.length ≤ 65535) :
    checksum16Ipv4Pseudo src dst protocol payload
      = checksum16Finish (pseudoSum src dst protocol payload.length + wordSum payload) := by
  have h1 := wordSum_le src
  have h2 := wordSum_le dst
  have h3 := UInt8.toNat_lt protocol
  have h4 := wordSum_lt (show payload.length ≤ 65575 by omega)
  have hofNat : (UInt16.ofNat payload.length).toNat = payload.length := by
    rw [UInt16.toNat_ofNat', Nat.mod_eq_of_lt (by omega)]
  rw [checksum16Ipv4Pseudo, checksum16AddBytes_toNat, checksum16AddBytes_toNat,
    checksum16AddBytes_toNat, checksum16AddBytes_toNat, checksum16AddBytes_toNat, wordSum_protocol,
    wordSum_toBe, hofNat, UInt32.toNat_zero, pseudoSum]
  congr 1
  omega

/-- A length that fits a word, as the IPv6 pseudo-header has it. -/
theorem wordSum_lenWords {len : ℕ} (h : len ≤ 65535) : wordSum (lenWords len) = len := by
  have hhigh : len / 16777216 = 0 ∧ len / 65536 = 0 := by omega
  rw [lenWords, hhigh.1, hhigh.2, wordSum_cons_cons, wordSum_cons_cons, wordSum_nil, fromBe_toNat,
    fromBe_toNat, UInt8.toNat_ofNat', UInt8.toNat_ofNat', UInt8.toNat_ofNat']
  omega

theorem checksum16Ipv6Pseudo_eq {payload : Bytes} (src dst : Bytes) (protocol : UInt8)
    (hsrc : src.length ≤ 16) (hdst : dst.length ≤ 16) (hlen : payload.length ≤ 65535) :
    checksum16Ipv6Pseudo src dst protocol payload
      = checksum16Finish (pseudoSum src dst protocol payload.length + wordSum payload) := by
  have h1 := wordSum_le src
  have h2 := wordSum_le dst
  have h3 := UInt8.toNat_lt protocol
  have h4 := wordSum_lt (show payload.length ≤ 65575 by omega)
  have hnh : wordSum [0, 0, 0, protocol] = protocol.toNat := by
    rw [wordSum_cons_cons, wordSum_protocol, fromBe_toNat, UInt8.toNat_zero]
    omega
  rw [checksum16Ipv6Pseudo, checksum16AddBytes_toNat, checksum16AddBytes_toNat,
    checksum16AddBytes_toNat, checksum16AddBytes_toNat, checksum16AddBytes_toNat, hnh,
    wordSum_lenWords hlen, UInt32.toNat_zero, pseudoSum]
  congr 1
  omega

/-! ## Adjusted segments -/

/-- The checksum of a segment whose pseudo-header gets other addresses. -/
def adjusted (protocol : UInt8) (oldAddrs newAddrs : Bytes) (c : UInt16) : UInt16 :=
  bump protocol .v4 (wordsDelta (words16 oldAddrs) (words16 newAddrs)) c

theorem adjustL4ChecksumIncremental_some {packet out oldAddrs newAddrs : Bytes} {protocol : UInt8}
    {l4Off field : ℕ} (hfield : checksumField protocol = some field)
    (h : adjustL4ChecksumIncremental packet protocol l4Off oldAddrs newAddrs = some out) :
    l4Off + field + 2 ≤ packet.length
      ∧ out = put16 packet (l4Off + field)
          (adjusted protocol oldAddrs newAddrs (get16 packet (l4Off + field))) := by
  rw [adjustL4ChecksumIncremental, hfield] at h
  dsimp only at h
  rw [Option.ite_none_left_eq_some] at h
  obtain ⟨hlen, hout⟩ := h
  refine ⟨Nat.not_lt.mp hlen, ?_⟩
  rw [← Option.some.inj hout, adjusted, bump, canonicalChecksum, checksum16Incremental]
  congr 1
  simp only [adjustZeroChecksumIllegal, Bool.and_eq_true, beq_iff_eq]

/-- **An adjusted segment with its new addresses sums up like the old one with the old.** -/
theorem wordSum_adjusted (protocol : UInt8) {l4 : Bytes} {field : ℕ} (oldAddrs newAddrs : Bytes)
    (heven : field % 2 = 0) (hlen : field + 2 ≤ l4.length) :
    (wordSum newAddrs
        + wordSum (put16 l4 field (adjusted protocol oldAddrs newAddrs (get16 l4 field)))) % 65535
      = (wordSum oldAddrs + wordSum l4) % 65535 := by
  have hput := wordSum_put16 (adjusted protocol oldAddrs newAddrs (get16 l4 field)) heven hlen
  have hbump := bump_mod protocol .v4 (wordsDelta (words16 oldAddrs) (words16 newAddrs))
    (get16 l4 field)
  have hdelta := wordsDelta_add (words16 oldAddrs) (words16 newAddrs)
  rw [sum_words16, sum_words16] at hdelta
  rw [← adjusted] at hbump
  omega

/-- A segment with a sum over all of it. -/
theorem finish_recomputed (protocol : UInt8) (family : ChecksumFamily) (pseudo : ℕ) {l4 : Bytes}
    {field : ℕ} (heven : field % 2 = 0) (hlen : field + 2 ≤ l4.length) :
    checksum16Finish (pseudo + wordSum (put16 l4 field (canonicalChecksum protocol family
      (checksum16Finish (pseudo + wordSum (put16 l4 field 0)))))) = 0 := by
  have hlen' : field + 2 ≤ (put16 l4 field 0).length := by rwa [length_put16]
  have hput := wordSum_put16 (canonicalChecksum protocol family
    (checksum16Finish (pseudo + wordSum (put16 l4 field 0)))) heven hlen'
  rw [put16_put16, get16_put16 _ hlen, UInt16.toNat_zero, Nat.add_zero] at hput
  rw [hput, ← Nat.add_assoc]
  exact finish_settled _ _ _

/-- The same without a pseudo-header. -/
theorem checksum16_recomputed {b : Bytes} (field : ℕ) (heven : field % 2 = 0)
    (hlen : field + 2 ≤ b.length) (hmax : b.length ≤ 65575) :
    checksum16 (put16 b field (checksum16 (put16 b field 0))) = 0 := by
  have h := finish_recomputed 0 .v4 0 heven hlen
  rw [canonicalChecksum_of_legal rfl, Nat.zero_add, Nat.zero_add] at h
  rw [checksum16_eq (by rwa [length_put16]), checksum16_eq (by rwa [length_put16])]
  exact h

/-! ## Behind a header -/

section Behind

variable {hdr l4 out : Bytes} {l4Off field : ℕ} {protocol : UInt8}

theorem put16_behind (h : hdr.length = l4Off) (i : ℕ) (v : UInt16) :
    put16 (hdr ++ l4) (l4Off + i) v = hdr ++ put16 l4 i v := by
  rw [← h, put16_append_right]

theorem get16_behind (l4 : Bytes) (h : hdr.length = l4Off) (i : ℕ) :
    get16 (hdr ++ l4) (l4Off + i) = get16 l4 i := by
  rw [← h, get16_append_right]

theorem adjust_behind (hoff : hdr.length = l4Off) (hfield : checksumField protocol = some field)
    {oldAddrs newAddrs : Bytes}
    (h : adjustL4ChecksumIncremental (hdr ++ l4) protocol l4Off oldAddrs newAddrs = some out) :
    field + 2 ≤ l4.length
      ∧ out = hdr ++ put16 l4 field (adjusted protocol oldAddrs newAddrs (get16 l4 field)) := by
  obtain ⟨hlen, rfl⟩ := adjustL4ChecksumIncremental_some hfield h
  rw [List.length_append] at hlen
  refine ⟨by omega, ?_⟩
  rw [put16_behind hoff, get16_behind _ hoff]

theorem recomputeAt_behind (hoff : hdr.length = l4Off) {minLen : ℕ} {sum : Bytes → UInt16}
    (h : recomputeAt (hdr ++ l4) l4Off field minLen sum = some out) :
    minLen ≤ l4.length ∧ out = hdr ++ put16 l4 field (sum (put16 l4 field 0)) := by
  rw [recomputeAt, Option.ite_none_left_eq_some, List.length_append] at h
  obtain ⟨hlen, hout⟩ := h
  refine ⟨by omega, ?_⟩
  have hdrop : (hdr ++ put16 l4 field 0).drop l4Off = put16 l4 field 0 := List.drop_left' hoff
  dsimp only at hout
  rw [put16_behind hoff, put16_behind hoff, put16_put16, hdrop] at hout
  exact (Option.some.inj hout).symm

theorem canonicalizeZeroChecksum_eq (sum : UInt16) (protocol : UInt8) (family : ChecksumFamily) :
    canonicalizeZeroChecksum sum protocol family = canonicalChecksum protocol family sum := by
  rw [canonicalizeZeroChecksum, canonicalChecksum]
  simp only [Bool.and_eq_true, beq_iff_eq, and_comm]

/-- A UDP datagram without a checksum. -/
theorem getRange_zero_iff (b : Bytes) (i : ℕ) :
    getRange b i 2 = some [0, 0] ↔ i + 2 ≤ b.length ∧ get16 b i = 0 := by
  constructor
  · intro h
    obtain ⟨hlen, hsub⟩ := getRange_eq_some h
    rw [sub_eq_pair hlen] at hsub
    refine ⟨hlen, ?_⟩
    rw [get16, ← (List.cons.inj hsub).1, ← (List.cons.inj (List.cons.inj hsub).2).1]
    rfl
  · rintro ⟨hlen, hzero⟩
    rw [getRange_of_le hlen, sub_eq_pair hlen, ← toBe_fromBe, ← get16, hzero]
    rfl

theorem put16_append_left {a b : Bytes} {i : ℕ} (v : UInt16) (h : i + 2 ≤ a.length) :
    put16 (a ++ b) i v = put16 a i v ++ b := by
  have hv : (toBe v).length = 2 := rfl
  rw [put16, put16, writeAt_eq_around (by rw [hv, List.length_append]; omega),
    writeAt_eq_around (by rw [hv]; exact h), hv, List.take_append_of_le_length (by omega),
    List.drop_append_of_le_length h, List.append_assoc, List.append_assoc]

theorem sub_append_left {a b : Bytes} {i n : ℕ} (h : i + n ≤ a.length) :
    sub (a ++ b) i n = sub a i n := by
  rw [sub, sub, List.drop_append_of_le_length (by omega), List.take_append_of_le_length]
  rw [List.length_drop]
  omega

theorem getRange_behind (h : hdr.length = l4Off) (i n : ℕ) :
    getRange (hdr ++ l4) (l4Off + i) n = getRange l4 i n := by
  rw [← h, getRange_append_right]

theorem checksumField_cases (h : checksumField protocol = some field) :
    (protocol = PROTO_TCP ∧ field = 16) ∨ (protocol = PROTO_UDP ∧ field = 6) := by
  unfold checksumField at h
  split_ifs at h with htcp hudp
  · exact .inl ⟨htcp, (Option.some.inj h).symm⟩
  · exact .inr ⟨hudp, (Option.some.inj h).symm⟩

theorem field_even (h : checksumField protocol = some field) : field % 2 = 0 := by
  rcases checksumField_cases h with ⟨-, rfl⟩ | ⟨-, rfl⟩ <;> rfl

/-- The protocol's number alone makes a sum positive. -/
theorem pseudoSum_ne_zero (h : checksumField protocol = some field) (src dst : Bytes) (len s : ℕ) :
    pseudoSum src dst protocol len + s ≠ 0 := by
  have hpos : protocol.toNat ≠ 0 := by
    rcases checksumField_cases h with ⟨rfl, -⟩ | ⟨rfl, -⟩ <;> decide
  rw [pseudoSum]
  omega

end Behind

/-! ## IPv6 to IPv4 -/

/-- The two ways to a TCP or UDP checksum behind a new IPv4 header. -/
theorem finishL4V6ToV4_ports {hdr l4 out v6SrcDst : Bytes} {field : ℕ} {protocol : UInt8}
    {v4Src v4Dst : Ipv4Addr} (hoff : hdr.length = 20) (hfield : checksumField protocol = some field)
    (hlen : l4.length ≤ 65535)
    (h : finishL4V6ToV4 (hdr ++ l4) protocol v6SrcDst v4Src v4Dst = some out) :
    ∃ c, field + 2 ≤ l4.length ∧ out = hdr ++ put16 l4 field c
      ∧ (protocol = PROTO_TCP ∨ get16 l4 6 ≠ 0 →
        c = adjusted protocol v6SrcDst (List.ofFn v4Src ++ List.ofFn v4Dst) (get16 l4 field))
      ∧ (protocol = PROTO_UDP → get16 l4 6 = 0 →
        c = canonicalChecksum protocol .v4 (checksum16Finish
          (pseudoSum (sub hdr 12 4) (sub hdr 16 4) protocol l4.length
            + wordSum (put16 l4 field 0)))) := by
  have hrange : getRange (hdr ++ l4) 26 2 = getRange l4 6 2 := getRange_behind hoff 6 2
  rw [finishL4V6ToV4, hrange] at h
  by_cases hzero : getRange l4 6 2 = some [0, 0] ∧ protocol = PROTO_UDP
  · -- computed anew
    obtain ⟨hzero, hudp⟩ := hzero
    have h6 : field = 6 := by
      rcases checksumField_cases hfield with ⟨htcp, -⟩ | ⟨-, h6⟩
      · rw [hudp] at htcp
        exact absurd htcp (by decide)
      · exact h6
    obtain ⟨h8, hget⟩ := (getRange_zero_iff l4 6).mp hzero
    have hno : ¬(protocol = PROTO_TCP ∨ (protocol = PROTO_UDP ∧ getRange l4 6 2 ≠ some [0, 0])) := by
      rw [hudp, hzero]
      decide
    rw [if_neg hno, recomputeL4ChecksumAfterNat64V6ToV4, if_neg, hudp, if_neg (by decide),
      if_pos rfl] at h
    · obtain ⟨-, rfl⟩ := recomputeAt_behind hoff h
      rw [sub_append_left (by omega), sub_append_left (by omega), canonicalizeZeroChecksum_eq,
        checksum16Ipv4Pseudo_eq _ _ _ (by simp [sub]) (by simp [sub]) (by rwa [length_put16]),
        length_put16, h6, hudp]
      refine ⟨_, by omega, rfl, ?_, fun _ _ => rfl⟩
      rintro (htcp | hne)
      · exact absurd htcp (by decide)
      · exact absurd hget hne
    · rw [List.length_append]
      omega
  · -- adjusted
    have hyes : protocol = PROTO_TCP ∨ (protocol = PROTO_UDP ∧ getRange l4 6 2 ≠ some [0, 0]) := by
      rcases checksumField_cases hfield with ⟨htcp, -⟩ | ⟨hudp, -⟩
      · exact .inl htcp
      · exact .inr ⟨hudp, fun hz => hzero ⟨hz, hudp⟩⟩
    rw [if_pos hyes, adjustL4ChecksumV6ToV4Incremental] at h
    obtain ⟨hroom, rfl⟩ := adjust_behind hoff hfield h
    refine ⟨_, hroom, rfl, fun _ => rfl, ?_⟩
    intro hudp hget
    have h6 : field = 6 := by
      rcases checksumField_cases hfield with ⟨htcp, -⟩ | ⟨-, h6⟩
      · rw [hudp] at htcp
        exact absurd htcp (by decide)
      · exact h6
    exact absurd ((getRange_zero_iff l4 6).mpr ⟨by omega, hget⟩) fun hz => hzero ⟨hz, hudp⟩

/-- The message of an ICMP packet is summed up anew. -/
theorem finishL4V6ToV4_icmp {hdr l4 out v6SrcDst : Bytes} {v4Src v4Dst : Ipv4Addr}
    (hoff : hdr.length = 20)
    (h : finishL4V6ToV4 (hdr ++ l4) PROTO_ICMP v6SrcDst v4Src v4Dst = some out) :
    4 ≤ l4.length ∧ out = hdr ++ put16 l4 2 (checksum16 (put16 l4 2 0)) := by
  have hno : ¬(PROTO_ICMP = PROTO_TCP
      ∨ (PROTO_ICMP = PROTO_UDP ∧ getRange (hdr ++ l4) 26 2 ≠ some [0, 0])) := by
    rintro (h | ⟨h, -⟩) <;> exact absurd h (by decide)
  rw [finishL4V6ToV4, if_neg hno, recomputeL4ChecksumAfterNat64V6ToV4, if_neg,
    if_neg (by decide), if_neg (by decide), if_pos rfl] at h
  · exact recomputeAt_behind hoff h
  · rw [List.length_append]
    omega

/-- What a translated packet is made of. -/
structure WrittenV4 (rawId : UInt32) (packet : Bytes) (snatV4 dstV4 : Ipv4Addr)
    (noV6FragHeader : Bool) (embeddedDstPort : Option UInt16) (preserveTtl : Bool) (out : Bytes)
    (l4Protocol protocol : UInt8) (l4 l4' : Bytes) : Prop where
  whole : 40 ≤ packet.length
  notLater : ipv6IsNonFirstFragment packet = false
  region : ∃ off, v6L4Region packet = some (off, l4Protocol, l4)
  mapped : ipv4ProtocolOf l4Protocol = some protocol
  same : l4Protocol ≠ PROTO_ICMPV6 → l4' = l4
  message : l4Protocol = PROTO_ICMPV6 →
    translateIcmpv6MessageToIcmpv4 l4.length l4 ⟨dstV4, snatV4, embeddedDstPort⟩ = some l4'
  fits : 20 + l4'.length ≤ 65535
  written : ∃ finished, finishL4V6ToV4
      (ipv4Header (trafficClassOf packet) (UInt16.ofNat (20 + l4'.length))
        (v6FragmentFields packet (20 + l4'.length) noV6FragHeader rawId).2
        (v6FragmentFields packet (20 + l4'.length) noV6FragHeader rawId).1
        (if preserveTtl then byteAt packet 7 else byteAt packet 7 - 1) protocol snatV4 dstV4 ++ l4')
      protocol (sub packet 8 32) snatV4 dstV4 = some finished
    ∧ out = withHeaderChecksum finished

theorem writeV6ToV4Translate_some {rawId : UInt32} {capacity : ℕ} {packet out : Bytes}
    {snatV4 dstV4 : Ipv4Addr} {noV6FragHeader preserveTtl : Bool} {embeddedDstPort : Option UInt16}
    (h : writeV6ToV4Translate rawId capacity packet snatV4 dstV4 noV6FragHeader embeddedDstPort
      preserveTtl = some out) :
    ∃ l4Protocol protocol l4 l4', WrittenV4 rawId packet snatV4 dstV4 noV6FragHeader
      embeddedDstPort preserveTtl out l4Protocol protocol l4 l4' := by
  simp only [writeV6ToV4Translate, Option.bind_eq_bind, Option.ite_none_left_eq_some,
    Option.bind_eq_some_iff, Prod.exists] at h
  obtain ⟨hgate, -, off, l4Protocol, l4, hregion, hfirst, protocol, hproto, -, -, -, hrest⟩ := h
  rw [not_or] at hgate
  -- the translated message of an ICMP packet, else the segment as it is
  have hl4 : ∃ l4', (l4Protocol ≠ PROTO_ICMPV6 → l4' = l4)
      ∧ (l4Protocol = PROTO_ICMPV6 →
        translateIcmpv6MessageToIcmpv4 l4.length l4 ⟨dstV4, snatV4, embeddedDstPort⟩ = some l4')
      ∧ 20 + l4'.length ≤ 65535
      ∧ ∃ finished, finishL4V6ToV4
          (ipv4Header (trafficClassOf packet) (UInt16.ofNat (20 + l4'.length))
            (v6FragmentFields packet (20 + l4'.length) noV6FragHeader rawId).2
            (v6FragmentFields packet (20 + l4'.length) noV6FragHeader rawId).1
            (if preserveTtl then byteAt packet 7 else byteAt packet 7 - 1) protocol snatV4 dstV4
            ++ l4')
          protocol (sub packet 8 32) snatV4 dstV4 = some finished
        ∧ out = withHeaderChecksum finished := by
    by_cases hicmp : l4Protocol = PROTO_ICMPV6
    · rw [if_pos hicmp] at hrest
      simp only [Option.bind_eq_some_iff, Option.ite_none_left_eq_some, Option.some.injEq] at hrest
      obtain ⟨l4', hmsg, hfits, finished, hfin, hout⟩ := hrest
      exact ⟨l4', fun hne => absurd hicmp hne, fun _ => hmsg, Nat.not_lt.mp hfits, finished, hfin,
        hout.symm⟩
    · rw [if_neg hicmp] at hrest
      simp only [Option.bind_some, Option.bind_eq_some_iff, Option.ite_none_left_eq_some,
        Option.some.injEq] at hrest
      obtain ⟨hfits, finished, hfin, hout⟩ := hrest
      exact ⟨l4, fun _ => rfl, fun h => absurd h hicmp, Nat.not_lt.mp hfits, finished, hfin,
        hout.symm⟩
  obtain ⟨l4', hsame, hmsg, hfits, hwritten⟩ := hl4
  exact ⟨l4Protocol, protocol, l4, l4', Nat.not_lt.mp hgate.1, by simpa using hfirst, ⟨off, hregion⟩,
    hproto, hsame, hmsg, hfits, hwritten⟩

section Header

variable (trafficClass : UInt8) (totalLen identification fragWord : UInt16) (ttl protocol : UInt8)
  (src dst : Ipv4Addr)

@[simp] theorem length_ipv4Header :
    (ipv4Header trafficClass totalLen identification fragWord ttl protocol src dst).length = 20 := by
  simp [ipv4Header]

theorem get16_ipv4Header_checksum :
    get16 (ipv4Header trafficClass totalLen identification fragWord ttl protocol src dst) 10 = 0 := by
  have h10 : byteAt (ipv4Header trafficClass totalLen identification fragWord ttl protocol src dst) 10
      = 0 := rfl
  have h11 : byteAt (ipv4Header trafficClass totalLen identification fragWord ttl protocol src dst)
      (10 + 1) = 0 := rfl
  rw [get16, h10, h11]
  rfl

theorem ipv4Header_addresses :
    sub (ipv4Header trafficClass totalLen identification fragWord ttl protocol src dst) 12 8
      = List.ofFn src ++ List.ofFn dst := by
  have hdrop : (ipv4Header trafficClass totalLen identification fragWord ttl protocol src dst).drop 12
      = List.ofFn src ++ List.ofFn dst := by
    rw [ipv4Header, List.append_assoc]
    exact List.drop_left' rfl
  rw [sub, hdrop, List.take_of_length_le (by simp)]

end Header

/-- The checksum of a header that was written with none. -/
theorem withHeaderChecksum_append {hdr rest : Bytes} (hlen : hdr.length = 20) :
    withHeaderChecksum (hdr ++ rest) = put16 hdr 10 (checksum16 hdr) ++ rest := by
  rw [withHeaderChecksum, List.take_left' hlen, put16_append_left _ (by omega)]

theorem checksum16_header {hdr : Bytes} (hlen : hdr.length = 20) (hzero : get16 hdr 10 = 0) :
    checksum16 (put16 hdr 10 (checksum16 hdr)) = 0 := by
  have h := checksum16_recomputed (b := hdr) 10 rfl (by omega) (by omega)
  have hsame : put16 hdr 10 0 = hdr := by
    rw [← hzero]
    exact put16_get16 hdr 10
  rwa [hsame] at h

/-- What a receiver finds in a translated packet. -/
structure SumsV4 (packet : Bytes) (snatV4 dstV4 : Ipv4Addr) (out : Bytes) (protocol : UInt8)
    (l4 : Bytes) : Prop where
  header : checksum16 (out.take 20) = 0
  addresses : sub out 12 8 = List.ofFn snatV4 ++ List.ofFn dstV4
  payload : ∀ field, checksumField protocol = some field →
    out.drop 20 = put16 l4 field (get16 out (20 + field))
  kept : protocol = PROTO_TCP ∨ (protocol = PROTO_UDP ∧ get16 l4 6 ≠ 0) →
    checksum16Ipv4Pseudo (sub out 12 4) (sub out 16 4) protocol (out.drop 20)
      = checksum16Ipv6Pseudo (sub packet 8 16) (sub packet 24 16) protocol l4
  computed : protocol = PROTO_UDP → get16 l4 6 = 0 →
    checksum16Ipv4Pseudo (sub out 12 4) (sub out 16 4) protocol (out.drop 20) = 0
  sent : protocol = PROTO_UDP → get16 out 26 ≠ 0
  icmp : protocol = PROTO_ICMPV6 → checksum16 (out.drop 20) = 0

/-- The two addresses of a pseudo-header in one. -/
theorem pseudoSum_sub {b : Bytes} {i n : ℕ} (heven : n % 2 = 0) (h : i + n ≤ b.length)
    (protocol : UInt8) (len : ℕ) :
    pseudoSum (sub b i n) (sub b (i + n) n) protocol len
      = wordSum (sub b i (n + n)) + protocol.toNat + len := by
  have hlen : (sub b i n).length % 2 = 0 := by rwa [length_sub h]
  rw [pseudoSum, sub_append_sub, wordSum_append hlen]

section Receiver

variable {hdr seg : Bytes}

/-- The finished packet as a receiver takes it apart. -/
theorem withHeaderChecksum_parts (seg : Bytes) (hlen : hdr.length = 20) (hzero : get16 hdr 10 = 0) :
    checksum16 ((withHeaderChecksum (hdr ++ seg)).take 20) = 0
      ∧ (withHeaderChecksum (hdr ++ seg)).drop 20 = seg
      ∧ ∀ i n, 12 ≤ i → i + n ≤ 20 → sub (withHeaderChecksum (hdr ++ seg)) i n = sub hdr i n := by
  have hput : (put16 hdr 10 (checksum16 hdr)).length = 20 := by rw [length_put16, hlen]
  rw [withHeaderChecksum_append hlen, List.take_left' hput, List.drop_left' hput]
  refine ⟨checksum16_header hlen hzero, rfl, ?_⟩
  intro i n hi hn
  rw [sub_append_left (by omega), put16, sub_writeAt_of_disjoint]
  exact .inr hi

/-- The header in front of its checksum. -/
theorem byteAt_withHeaderChecksum (seg : Bytes) (hlen : hdr.length = 20) {i : ℕ} (hi : i < 10) :
    byteAt (withHeaderChecksum (hdr ++ seg)) i = byteAt hdr i := by
  rw [withHeaderChecksum_append hlen, byteAt_append_left (by rw [length_put16]; omega),
    byteAt_put16_of_disjoint (by omega)]

theorem get16_withHeaderChecksum (seg : Bytes) (hlen : hdr.length = 20) (hzero : get16 hdr 10 = 0)
    (i : ℕ) :
    get16 (withHeaderChecksum (hdr ++ seg)) (20 + i) = get16 seg i := by
  obtain ⟨-, hdrop, -⟩ := withHeaderChecksum_parts seg hlen hzero
  rw [← get16_drop, hdrop]

variable {packet l4 : Bytes} {snatV4 dstV4 : Ipv4Addr} {protocol : UInt8}

/-- A TCP segment or UDP datagram behind its header. -/
theorem SumsV4.of_ports {field : ℕ} {c : UInt16} (hpacket : 40 ≤ packet.length)
    (hlen : hdr.length = 20) (hzero : get16 hdr 10 = 0)
    (haddr : sub hdr 12 8 = List.ofFn snatV4 ++ List.ofFn dstV4)
    (hfield : checksumField protocol = some field) (hl4 : l4.length ≤ 65515)
    (hroom : field + 2 ≤ l4.length)
    (hadj : protocol = PROTO_TCP ∨ get16 l4 6 ≠ 0 →
      c = adjusted protocol (sub packet 8 32) (List.ofFn snatV4 ++ List.ofFn dstV4) (get16 l4 field))
    (hnew : protocol = PROTO_UDP → get16 l4 6 = 0 →
      c = canonicalChecksum protocol .v4 (checksum16Finish
        (pseudoSum (sub hdr 12 4) (sub hdr 16 4) protocol l4.length + wordSum (put16 l4 field 0)))) :
    SumsV4 packet snatV4 dstV4 (withHeaderChecksum (hdr ++ put16 l4 field c)) protocol l4 := by
  obtain ⟨hhead, hdrop, hsub⟩ := withHeaderChecksum_parts (put16 l4 field c) hlen hzero
  have hget := get16_withHeaderChecksum (put16 l4 field c) hlen hzero
  have heven := field_even hfield
  have hput : (put16 l4 field c).length ≤ 65535 := by
    rw [length_put16]
    omega
  -- the sum of the receiver
  have hsum := checksum16Ipv4Pseudo_eq (sub hdr 12 4) (sub hdr 16 4) protocol
    (by simp [sub]) (by simp [sub]) hput
  rw [length_put16] at hsum
  constructor
  · exact hhead
  · rw [hsub 12 8 (by omega) (by omega), haddr]
  · intro field' hfield'
    obtain rfl : field = field' := by
      rw [hfield] at hfield'
      exact Option.some.inj hfield'
    rw [hdrop, hget, get16_put16 _ hroom]
  · intro hkept
    have hc := hadj (hkept.imp_right And.right)
    rw [hdrop, hsub 12 4 (by omega) (by omega), hsub 16 4 (by omega) (by omega), hsum,
      checksum16Ipv6Pseudo_eq _ _ _ (by simp [sub]) (by simp [sub]) (by omega)]
    apply finish_eq_of_mod _ (pseudoSum_ne_zero hfield _ _ _ _) (pseudoSum_ne_zero hfield _ _ _ _)
    have hw := wordSum_adjusted protocol (sub packet 8 32) (List.ofFn snatV4 ++ List.ofFn dstV4)
      heven hroom
    rw [← hc, ← haddr] at hw
    rw [pseudoSum_sub (i := 12) (n := 4) rfl (by omega), pseudoSum_sub (i := 8) (n := 16) rfl (by omega)]
    change (wordSum (sub hdr 12 8) + _) % 65535 = _ at hw
    change (wordSum (sub hdr 12 8) + protocol.toNat + _ + _) % 65535
      = (wordSum (sub packet 8 32) + protocol.toNat + _ + _) % 65535
    omega
  · intro hudp hnone
    have hc := hnew hudp hnone
    rw [hdrop, hsub 12 4 (by omega) (by omega), hsub 16 4 (by omega) (by omega), hsum, hc]
    exact finish_recomputed _ _ _ heven hroom
  · intro hudp
    have h6 : field = 6 := by
      rw [hudp] at hfield
      exact (Option.some.inj hfield).symm
    have hill : adjustZeroChecksumIllegal protocol .v4 = true := by
      rw [hudp]
      rfl
    rw [hget 6, ← h6, get16_put16 _ hroom]
    by_cases hnone : get16 l4 6 = 0
    · rw [hnew hudp hnone]
      exact canonicalChecksum_ne_zero hill _
    · rw [hadj (.inr hnone), adjusted]
      exact bump_ne_zero hill _ _
  · intro hicmp
    rw [hicmp] at hfield
    cases hfield

theorem SumsV4.of_icmp (hlen : hdr.length = 20) (hzero : get16 hdr 10 = 0)
    (haddr : sub hdr 12 8 = List.ofFn snatV4 ++ List.ofFn dstV4) {l4' : Bytes}
    (hfour : 4 ≤ l4'.length) (hl4 : l4'.length ≤ 65515) :
    SumsV4 packet snatV4 dstV4
      (withHeaderChecksum (hdr ++ put16 l4' 2 (checksum16 (put16 l4' 2 0)))) PROTO_ICMPV6 l4 := by
  obtain ⟨hhead, hdrop, hsub⟩ := withHeaderChecksum_parts
    (put16 l4' 2 (checksum16 (put16 l4' 2 0))) hlen hzero
  have htcp : ¬PROTO_ICMPV6 = PROTO_TCP := by decide
  have hudp : ¬PROTO_ICMPV6 = PROTO_UDP := by decide
  constructor
  · exact hhead
  · rw [hsub 12 8 (by omega) (by omega), haddr]
  · intro field hfield
    cases hfield
  · rintro (h | ⟨h, -⟩)
    · exact absurd h htcp
    · exact absurd h hudp
  · exact fun h => absurd h hudp
  · exact fun h => absurd h hudp
  · intro _
    rw [hdrop]
    exact checksum16_recomputed _ rfl (by omega) (by omega)

end Receiver

/-- **No IPv6 packet is translated into one a receiver judges differently.** The header is
right, the addresses are the ones asked for, a segment is the same in all but its checksum, and
the checksum is accepted exactly when it was before; a UDP datagram always has one. -/
theorem v6ToV4_checksums (rawId : UInt32) (capacity : ℕ) (packet out : Bytes)
    (snatV4 dstV4 : Ipv4Addr) (noV6FragHeader preserveTtl : Bool) (embeddedDstPort : Option UInt16)
    (h : writeV6ToV4Translate rawId capacity packet snatV4 dstV4 noV6FragHeader embeddedDstPort
      preserveTtl = some out) :
    ∃ off protocol l4, v6L4Region packet = some (off, protocol, l4)
      ∧ SumsV4 packet snatV4 dstV4 out protocol l4 := by
  obtain ⟨l4Protocol, protocol, l4, l4', hw⟩ := writeV6ToV4Translate_some h
  obtain ⟨off, hregion⟩ := hw.region
  obtain ⟨finished, hfin, hout⟩ := hw.written
  refine ⟨off, l4Protocol, l4, hregion, ?_⟩
  have hfits := hw.fits
  -- the header the translator writes, with nothing known of its other fields
  generalize hhdr : ipv4Header (trafficClassOf packet) (UInt16.ofNat (20 + l4'.length))
    (v6FragmentFields packet (20 + l4'.length) noV6FragHeader rawId).2
    (v6FragmentFields packet (20 + l4'.length) noV6FragHeader rawId).1
    (if preserveTtl then byteAt packet 7 else byteAt packet 7 - 1) protocol snatV4 dstV4 = hdr at hfin
  have hoff : hdr.length = 20 := by
    rw [← hhdr]
    exact length_ipv4Header _ _ _ _ _ _ _ _
  have hzero : get16 hdr 10 = 0 := by
    rw [← hhdr]
    exact get16_ipv4Header_checksum _ _ _ _ _ _ _ _
  have haddr : sub hdr 12 8 = List.ofFn snatV4 ++ List.ofFn dstV4 := by
    rw [← hhdr]
    exact ipv4Header_addresses _ _ _ _ _ _ _ _
  rw [hout]
  by_cases hicmp : l4Protocol = PROTO_ICMPV6
  · obtain rfl : protocol = PROTO_ICMP := by
      have hmapped := hw.mapped
      rw [hicmp] at hmapped
      exact (Option.some.inj hmapped).symm
    obtain ⟨hfour, rfl⟩ := finishL4V6ToV4_icmp hoff hfin
    rw [hicmp]
    exact SumsV4.of_icmp hoff hzero haddr hfour (by omega)
  · obtain rfl := hw.same hicmp
    have hmapped := hw.mapped
    rw [ipv4ProtocolOf, if_neg hicmp] at hmapped
    split_ifs at hmapped with hports
    obtain rfl := Option.some.inj hmapped
    have hfield : ∃ field, checksumField l4Protocol = some field := by
      rcases hports with rfl | rfl
      · exact ⟨16, rfl⟩
      · exact ⟨6, rfl⟩
    obtain ⟨field, hfield⟩ := hfield
    obtain ⟨c, hroom, rfl, hadj, hnew⟩ := finishL4V6ToV4_ports hoff hfield (by omega) hfin
    exact SumsV4.of_ports hw.whole hoff hzero haddr hfield (by omega) hroom hadj hnew

/-- A UDP packet with no payload from 2001:db8::1 to 64:ff9b::c000:201. -/
def udpPacket6 : Bytes :=
  [0x60, 0, 0, 0, 0, 8, 17, 64,
    0x20, 0x01, 0x0d, 0xb8, 0, 0, 0, 0, 0, 0, 0, 0, 0, 0, 0, 1,
    0x00, 0x64, 0xff, 0x9b, 0, 0, 0, 0, 0, 0, 0, 0, 192, 0, 2, 1,
    3, 232, 0, 53, 0, 8, 12, 34]

/-- The same datagram from 203.0.113.5 to 192.0.2.1. -/
def udpTranslated : Bytes :=
  [69, 0, 0, 28, 0, 8, 0, 0, 63, 17, 125, 194, 203, 0, 113, 5, 192, 0, 2, 1,
    3, 232, 0, 53, 0, 8, 253, 213]

theorem v6ToV4_checksums_udp :
    ∃ off protocol l4, v6L4Region udpPacket6 = some (off, protocol, l4)
      ∧ SumsV4 udpPacket6 ![203, 0, 113, 5] ![192, 0, 2, 1] udpTranslated protocol l4 :=
  v6ToV4_checksums 7 1500 udpPacket6 udpTranslated ![203, 0, 113, 5] ![192, 0, 2, 1] false false none
    (by decide +kernel)

end Xpf.Nat64
