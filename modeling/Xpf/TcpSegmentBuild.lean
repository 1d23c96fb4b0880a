/-
What a plan knows, and the segment it builds.

`segmentPlan_eq_some` reads the gates back: a plan has the headers inside the datagram, at
least one byte of data for each segment, and a datagram longer than the MTU.
`buildSegment_run` then puts the steps of a segment together: whatever the buffer held
before, the result is the Ethernet header and one packet that depends on the plan only
(`segmentPacket`). The walk over the extension headers of an IPv6 segment is the walk over
those of the datagram, although the segment is shorter (`walkIpv6ExtChain_agree`).
-/
import Xpf.TcpSegmentEmit

set_option autoImplicit false

namespace Xpf.Frames

open Xpf.ByteBuffer Xpf.Edits Xpf.Edits.Edit Xpf.OnesComplement Xpf.WordSums

/-! ## The walk of a shorter packet -/

section

variable {buf buf' : Bytes}

theorem getRange_agree {off n : ℕ} (hle : off + n ≤ buf.length) (hle' : off + n ≤ buf'.length)
    (hag : ∀ i, off ≤ i → i < off + n → byteAt buf' i = byteAt buf i) :
    getRange buf' off n = getRange buf off n := by
  rw [getRange_of_le hle, getRange_of_le hle', Option.some_inj]
  apply ext
  · rw [length_sub hle, length_sub hle']
  · intro j hj
    rw [length_sub hle'] at hj
    rw [byteAt_sub _ _ hj, byteAt_sub _ _ hj, hag (off + j) (by omega) (by omega)]

/-- A round that goes on has read what it steps over and nothing else. -/
theorem extHeaderStep_agree {last : Bool} {p p' : UInt8} {off off' : ℕ} {seen seen' : Sightings}
    (h : extHeaderStep buf last p off seen = .inl (p', off', seen')) (hm : off' ≤ buf'.length)
    (hag : ∀ i, off ≤ i → i < off' → byteAt buf' i = byteAt buf i) :
    extHeaderStep buf' last p off seen = .inl (p', off', seen') := by
  unfold extHeaderStep at h ⊢
  by_cases hlast : (last && ipv6ExtHeaderIsTraversable p) = true
  · rw [if_pos hlast] at h
    split_ifs at h
  rw [if_neg hlast] at h ⊢
  by_cases hgen : IPV6_GENERIC_EXT_HEADERS.contains p = true
  · rw [if_pos hgen] at h ⊢
    cases hget : getRange buf off 2 with
    | none =>
      rw [hget] at h
      cases h
    | some opt =>
      rw [hget] at h
      dsimp only at h
      split_ifs at h with h43 hnext
      obtain ⟨rfl, rfl, rfl⟩ : byteAt opt 0 = p' ∧ off + ((byteAt opt 1).toNat + 1) * 8 = off'
          ∧ seen = seen' := by
        simpa only [Sum.inl.injEq, Prod.mk.injEq] using h
      rw [getRange_agree (by omega) (by omega) fun i h1 h2 => hag i h1 (by omega), hget]
      dsimp only
      rw [getRange_agree (by omega) (by omega) fun i h1 h2 => hag i h1 (by omega),
        if_neg h43, if_neg (by omega)]
  rw [if_neg hgen] at h ⊢
  by_cases h51 : p = 51
  · rw [if_pos h51] at h ⊢
    cases hget : getRange buf off 2 with
    | none =>
      rw [hget] at h
      cases h
    | some opt =>
      rw [hget] at h
      dsimp only at h
      split_ifs at h with hnext
      obtain ⟨rfl, rfl, rfl⟩ : byteAt opt 0 = p' ∧ off + ((byteAt opt 1).toNat + 2) * 4 = off'
          ∧ { seen with ahPresent := true } = seen' := by
        simpa only [Sum.inl.injEq, Prod.mk.injEq] using h
      rw [getRange_agree (by omega) (by omega) fun i h1 h2 => hag i h1 (by omega), hget]
      dsimp only
      rw [if_neg (by omega)]
  rw [if_neg h51] at h ⊢
  by_cases h44 : p = 44
  · rw [if_pos h44] at h ⊢
    -- the Fragment header ends where the next one starts
    have h8 : off + 8 = off' ∧ off + 8 ≤ buf.length := by
      rcases hrec : recordFragmentSighting buf off seen with ⟨frag, seen1⟩
      rw [hrec] at h
      cases frag with
      | none => cases h
      | some frag =>
        dsimp only at h
        split_ifs at h with hlen
        obtain ⟨-, rfl, -⟩ : byteAt frag 0 = p' ∧ off + 8 = off' ∧ seen1 = seen' := by
          simpa only [Sum.inl.injEq, Prod.mk.injEq] using h
        exact ⟨rfl, Nat.not_lt.mp hlen⟩
    obtain ⟨rfl, hlen8⟩ := h8
    have hrec : recordFragmentSighting buf' off seen = recordFragmentSighting buf off seen := by
      rw [recordFragmentSighting, recordFragmentSighting, getRange_agree hlen8 hm hag]
    rw [hrec]
    rcases hrec' : recordFragmentSighting buf off seen with ⟨frag, seen1⟩
    rw [hrec'] at h
    cases frag with
    | none => cases h
    | some frag =>
      dsimp only at h ⊢
      split_ifs at h with hlen hnf
      rw [if_neg (by omega), if_neg hnf, h]
  rw [if_neg h44] at h
  split_ifs at h

theorem walkExtHeaders_agree (n : ℕ) : ∀ {p : UInt8} {off : ℕ} {seen : Sightings} {l4 : ℕ}
    {proto : UInt8}, (walkExtHeaders buf n p off seen).outcome = .l4 l4 proto → l4 ≤ buf'.length →
    (∀ i, off ≤ i → i < l4 → byteAt buf' i = byteAt buf i) →
    walkExtHeaders buf' n p off seen = walkExtHeaders buf n p off seen := by
  induction n with
  | zero =>
    intro p off seen l4 proto h
    cases h
  | succ n ih =>
    intro p off seen l4 proto h hm hag
    rw [walkExtHeaders, walkExtHeaders]
    rcases extHeaderStep_offset buf (n == 0) p off seen with
      ⟨p', off', seen', hs, hge⟩ | ⟨walk, hs, -⟩
    · rw [walkExtHeaders, hs] at h
      have hle := walkExtHeaders_offset_le _ _ _ _ _ h
      rw [hs, extHeaderStep_agree hs (Nat.le_trans hle hm) fun i h1 h2 => hag i h1 (by omega)]
      exact ih h hm fun i h1 h2 => hag i (by omega) h2
    · rw [walkExtHeaders, hs] at h
      obtain ⟨rfl, rfl, hseen, hall⟩ := extHeaderStep_l4 hs h
      rw [hs, hall]
      dsimp only
      rw [← hseen]
      cases walk with
      | mk toSightings outcome =>
        change outcome = _ at h
        rw [h]

/-- **A walk that reaches an L4 header** is the same walk in every packet that agrees in what
is in front of it, whatever follows. -/
theorem walkIpv6ExtChain_agree {l4 : ℕ} {proto : UInt8}
    (h : (walkIpv6ExtChain buf 0).outcome = .l4 l4 proto) (hm : l4 ≤ buf'.length)
    (hnext : byteAt buf' 6 = byteAt buf 6)
    (hag : ∀ i, 40 ≤ i → i < l4 → byteAt buf' i = byteAt buf i) :
    walkIpv6ExtChain buf' 0 = walkIpv6ExtChain buf 0 := by
  have h40 := walk_l4_ge h
  unfold walkIpv6ExtChain at h ⊢
  by_cases hshort : buf.length < 0 + 40
  · rw [if_pos hshort] at h
    cases h
  · rw [if_neg hshort] at h ⊢
    rw [if_neg (by omega), hnext]
    exact walkExtHeaders_agree _ h hm fun i h1 h2 => hag i (by omega) h2

end

/-! ## What a plan knows -/

/-- The datagram of a plan, as its family has it. -/
def SegmentPlan.HasFamily (plan : SegmentPlan) (addrFamily : UInt8) : Prop :=
  (addrFamily = AF_INET ∧ ipv4Ihl plan.payload 0 = plan.ipHeaderLen
      ∧ ipv4IsNonFirstFragment plan.payload = false ∧ plan.payload.length ≤ 65535)
    ∨ (addrFamily = AF_INET6 ∧ 40 ≤ plan.ipHeaderLen
      ∧ (∃ nextHeader, (walkIpv6ExtChain plan.payload 0).outcome = .l4 plan.ipHeaderLen nextHeader)
      ∧ ipv6AhSighted plan.payload AF_INET6 0 = false ∧ plan.payload.length ≤ 65575)

/-- What the gates have checked. -/
structure Planned (fpm : ForwardPacketMeta) (decision : SessionDecision) (mtu : ℕ)
    (plan : SegmentPlan) : Prop where
  proto : fpm.protocol = PROTO_TCP
  ipHeader : 20 ≤ plan.ipHeaderLen
  tcpHeader : 20 ≤ plan.tcpHeaderLen
  headers : plan.headersLen ≤ plan.payload.length
  room : plan.headersLen + plan.segmentPayloadMax = mtu
  pos : 0 < plan.segmentPayloadMax
  long : plan.segmentPayloadMax < plan.data.length
  family : plan.HasFamily fpm.addrFamily
  vlan : plan.eth.vlanId = decision.txVlanId
  etherType : plan.eth.etherType = 0x0800 ∨ plan.eth.etherType = 0x86dd
  flags : byteAt plan.payload (plan.ipHeaderLen + 13) &&& (TCP_FLAG_SYN ||| TCP_FLAG_RST) = 0

section

variable {frame payload : Bytes} {fpm : ForwardPacketMeta} {l3 l3End : ℕ}

/-- The declared end of a datagram is inside the frame, and a datagram is as long as its
length field can say. -/
theorem declaredL3End_bounds (h : declaredL3End frame l3 fpm.addrFamily = some l3End) :
    l3End ≤ frame.length ∧ (fpm.addrFamily = AF_INET → l3End - l3 ≤ 65535)
      ∧ l3End - l3 ≤ 65575 := by
  have h2 := UInt16.toNat_lt (get16 frame (l3 + 2))
  have h4 := UInt16.toNat_lt (get16 frame (l3 + 4))
  have hihl : ipv4Ihl frame l3 ≤ 60 := by
    have hle : (byteAt frame l3 &&& 0x0f).toNat ≤ 15 := by
      rw [UInt8.toNat_and]
      exact Nat.and_le_right
    rw [ipv4Ihl]
    omega
  unfold declaredL3End at h
  split_ifs at h with hv4 hv6
  · unfold ipv4DeclaredL3End at h
    dsimp only at h
    split_ifs at h with h1 h2
    obtain rfl := Option.some.inj h
    unfold clampLen
    refine ⟨by omega, fun _ => by omega, by omega⟩
  · unfold ipv6DeclaredL3End at h
    split_ifs at h with h1
    obtain rfl := Option.some.inj h
    unfold clampLen
    refine ⟨by omega, fun hf => absurd hf hv4, by omega⟩

/-- A datagram whose frame shows no authentication header shows none itself. -/
theorem noAh_of_frame {nextHeader : UInt8} {relL4 : ℕ} (hend : l3End ≤ frame.length)
    (hah : ipv6AhSighted frame AF_INET6 l3 = false)
    (hwalk : (walkIpv6ExtChain (sub frame l3 (l3End - l3)) 0).outcome = .l4 relL4 nextHeader)
    (hlong : relL4 + 20 ≤ (sub frame l3 (l3End - l3)).length) :
    ipv6AhSighted (sub frame l3 (l3End - l3)) AF_INET6 0 = false := by
  have h40 := walk_l4_ge hwalk
  have hlen : (sub frame l3 (l3End - l3)).length ≤ frame.length - l3 := by
    rw [sub, List.length_take, List.length_drop]
    omega
  have hle : (sub frame l3 (l3End - l3)).length ≤ l3End - l3 := List.length_take_le _ _
  have hbyte : ∀ i, i < relL4 → byteAt (frame.drop l3) i = byteAt (sub frame l3 (l3End - l3)) i := by
    intro i hi
    rw [byteAt_sub _ _ (by omega), byteAt_drop]
  -- the walk of the frame behind its Ethernet header, then at its own place
  have hdrop : walkIpv6ExtChain (frame.drop l3) 0 = walkIpv6ExtChain (sub frame l3 (l3End - l3)) 0 :=
    walkIpv6ExtChain_agree hwalk (by rw [List.length_drop]; omega) (hbyte 6 (by omega))
      fun i _ h2 => hbyte i h2
  have hshift : (walkIpv6ExtChain frame (0 + l3)).outcome = .l4 (relL4 + l3) nextHeader
      ∧ SameFlags (walkIpv6ExtChain frame (0 + l3)).toSightings
          (walkIpv6ExtChain (frame.drop l3) 0).toSightings := by
    apply walkIpv6ExtChain_shift (hdrop ▸ hwalk)
    · rw [List.length_drop]
      omega
    · rw [byteAt_drop]
      congr 1
      omega
    · intro i _ _
      rw [byteAt_drop, Nat.add_comm]
  have hflag : (walkIpv6ExtChain frame (0 + l3)).ahPresent
      = (walkIpv6ExtChain (frame.drop l3) 0).ahPresent := hshift.2.1
  rw [Nat.zero_add, hdrop] at hflag
  have hnext : byteAt (sub frame l3 (l3End - l3)) (0 + 6) = byteAt frame (l3 + 6) := by
    rw [byteAt_sub _ _ (by omega), Nat.zero_add]
  unfold ipv6AhSighted at hah ⊢
  rw [if_neg (by simp), if_neg (by omega)] at hah ⊢
  rw [hnext, ← hflag]
  exact hah

theorem segmentDatagram_eq_some (h : segmentDatagram frame fpm = some payload) :
    ∃ checked l3End, nibbleCheckedL3 frame fpm.l3Offset fpm.addrFamily = some checked
      ∧ ipv6AhSighted frame fpm.addrFamily checked.l3 = false
      ∧ isAnyFragment (frame.drop checked.l3) fpm.addrFamily = false
      ∧ declaredL3End frame checked.l3 fpm.addrFamily = some l3End
      ∧ payload = sub frame checked.l3 (l3End - checked.l3) := by
  simp only [segmentDatagram, Option.bind_eq_bind, Option.bind_eq_some_iff] at h
  obtain ⟨checked, hl3, h⟩ := h
  split_ifs at h with hlen hah hfrag
  obtain ⟨l3End, hend, h⟩ := Option.bind_eq_some_iff.mp h
  exact ⟨checked, l3End, hl3, Bool.eq_false_iff.mpr hah, Bool.eq_false_iff.mpr hfrag, hend,
    (Option.some.inj h).symm⟩

/-- The header lengths of a datagram the gates let through. -/
theorem segmentIpHeaderLen_family {tcpOffset ipHeaderLen : ℕ}
    (hpay : segmentDatagram frame fpm = some payload)
    (hoff : packetRelL4Offset payload fpm.addrFamily = some tcpOffset)
    (h : segmentIpHeaderLen payload fpm.addrFamily tcpOffset = some ipHeaderLen) :
    20 ≤ ipHeaderLen ∧ ipHeaderLen + 20 ≤ payload.length
      ∧ ∀ plan : SegmentPlan, plan.payload = payload → plan.ipHeaderLen = ipHeaderLen →
          plan.HasFamily fpm.addrFamily := by
  obtain ⟨checked, l3End, -, hah, -, hend, rfl⟩ := segmentDatagram_eq_some hpay
  obtain ⟨hframe, hmax4, hmax⟩ := declaredL3End_bounds hend
  have hle : (sub frame checked.l3 (l3End - checked.l3)).length ≤ l3End - checked.l3 :=
    List.length_take_le _ _
  unfold segmentIpHeaderLen at h
  by_cases hv4 : fpm.addrFamily = AF_INET
  · rw [if_pos hv4] at h
    dsimp only at h
    split_ifs at h
    obtain rfl := Option.some.inj h
    refine ⟨by omega, by omega, ?_⟩
    rintro plan hp hi
    have hfirst : ipv4IsNonFirstFragment plan.payload = false := by
      rw [hp]
      unfold packetRelL4Offset at hoff
      rw [if_pos hv4] at hoff
      dsimp only at hoff
      by_contra hf
      rw [Bool.not_eq_false] at hf
      rw [if_neg (by omega), if_neg (by omega), if_pos hf] at hoff
      cases hoff
    exact .inl ⟨hv4, by rw [hp, hi], hfirst, by rw [hp]; have := hmax4 hv4; omega⟩
  · rw [if_neg hv4] at h
    split_ifs at h with hv6 hshort
    obtain rfl := Option.some.inj h
    refine ⟨by omega, by omega, ?_⟩
    rintro plan hp hi
    obtain ⟨nextHeader, hwalk⟩ : ∃ nextHeader, (walkIpv6ExtChain plan.payload 0).outcome
        = .l4 plan.ipHeaderLen nextHeader := by
      unfold packetRelL4Offset at hoff
      rw [if_neg hv4, if_pos hv6] at hoff
      rw [hp, hi]
      cases hout : (walkIpv6ExtChain (sub frame checked.l3 (l3End - checked.l3)) 0).outcome with
      | l4 offset protocol =>
        rw [hout] at hoff
        obtain rfl := Option.some.inj hoff
        exact ⟨protocol, rfl⟩
      | _ =>
        rw [hout] at hoff
        cases hoff
    refine .inr ⟨hv6, by omega, ⟨nextHeader, hwalk⟩, ?_, by rw [hp]; omega⟩
    rw [hp, hi] at hwalk
    rw [hv6] at hah
    rw [hp]
    exact noAh_of_frame hframe hah hwalk (by omega)

theorem rewriteEthParams_eq_some {decision : SessionDecision} {applyNatOnFabric : Bool}
    {eth : RewriteEthParams} (h : rewriteEthParams fpm decision applyNatOnFabric = some eth) :
    eth.vlanId = decision.txVlanId ∧ (eth.etherType = 0x0800 ∨ eth.etherType = 0x86dd) := by
  unfold rewriteEthParams at h
  obtain ⟨dstMac, -, h⟩ := Option.bind_eq_some_iff.mp h
  obtain ⟨srcMac, -, h⟩ := Option.bind_eq_some_iff.mp h
  dsimp only at h
  by_cases hv4 : fpm.addrFamily = AF_INET
  · rw [if_pos hv4] at h
    obtain rfl := Option.some.inj h
    exact ⟨rfl, .inl rfl⟩
  rw [if_neg hv4] at h
  by_cases hv6 : fpm.addrFamily = AF_INET6
  · rw [if_pos hv6] at h
    obtain rfl := Option.some.inj h
    exact ⟨rfl, .inr rfl⟩
  · rw [if_neg hv6] at h
    cases h

/-- **The gates of both builders**, read back. -/
theorem segmentPlan_eq_some {decision : SessionDecision} {interfaceMtu routeMtu : ℕ}
    {applyNatOnFabric : Bool} {expectedPorts : Option (UInt16 × UInt16)} {plan : SegmentPlan}
    (h : segmentPlan frame fpm decision interfaceMtu routeMtu applyNatOnFabric expectedPorts
      = some plan) :
    segmentDatagram frame fpm = some plan.payload
      ∧ Planned fpm decision (minNonzeroMtu interfaceMtu routeMtu) plan := by
  unfold segmentPlan at h
  dsimp only at h
  by_cases hproto : fpm.protocol = PROTO_TCP
  · rw [if_neg (not_not.mpr hproto)] at h
    by_cases hmtu : minNonzeroMtu interfaceMtu routeMtu = 0
    · rw [if_pos hmtu] at h
      cases h
    rw [if_neg hmtu] at h
    simp only [Option.bind_eq_bind] at h
    obtain ⟨payload, hpay, h⟩ := Option.bind_eq_some_iff.mp h
    by_cases hfits : payload.length ≤ minNonzeroMtu interfaceMtu routeMtu
    · rw [if_pos hfits] at h
      cases h
    rw [if_neg hfits] at h
    obtain ⟨tcpOffset, hoff, h⟩ := Option.bind_eq_some_iff.mp h
    obtain ⟨ipHeaderLen, hip, h⟩ := Option.bind_eq_some_iff.mp h
    obtain ⟨h20, hreach, hfamily⟩ := segmentIpHeaderLen_family hpay hoff hip
    generalize (byteAt payload (ipHeaderLen + 12) >>> 4).toNat * 4 = tcpHeaderLen at h
    split_ifs at h with htcp hauth hflags hroom hlong
    obtain ⟨eth, heth, h⟩ := Option.bind_eq_some_iff.mp h
    obtain rfl := Option.some.inj h
    obtain ⟨hvlan, htype⟩ := rewriteEthParams_eq_some heth
    refine ⟨hpay, ⟨hproto, h20, ?_, ?_, ?_, ?_, ?_, hfamily _ rfl rfl, hvlan, htype,
      not_not.mp hflags⟩⟩
    all_goals
      dsimp only [SegmentPlan.headersLen, SegmentPlan.data]
      try rw [List.length_drop]
      omega
  · rw [if_pos hproto] at h
    cases h

end

/-! ## The draft of a segment -/

/-- A segment as both builders copy and finalize it. -/
def segmentDraft (plan : SegmentPlan) (addrFamily : UInt8) (dataOffset : ℕ) (segmentIndex : UInt16) :
    Bytes :=
  let chunkLen := plan.chunkLen dataOffset
  let ip := plan.payload.take plan.ipHeaderLen
  let tcp := plan.payload.drop plan.ipHeaderLen
  put16 ip 4 (segmentId addrFamily segmentIndex ip)
    ++ stamped (tcp.take plan.tcpHeaderLen ++ sub plan.data dataOffset chunkLen)
      (plan.originalSeq + UInt32.ofNat dataOffset)
      (segmentFlags dataOffset (segmentIndex = 0) (dataOffset + chunkLen = plan.data.length)
        (get16 tcp 18) (byteAt tcp 13))
      (segmentUrgPtr dataOffset (segmentIndex = 0) (get16 tcp 18) (byteAt tcp 13))

/-- The packet of a segment. -/
def segmentPacket (len16 : ℕ → UInt16) (plan : SegmentPlan) (fpm : ForwardPacketMeta)
    (nat : NatDecision) (dataOffset : ℕ) (segmentIndex : UInt16) : Bytes :=
  let draft := segmentDraft plan fpm.addrFamily dataOffset segmentIndex
  if fpm.addrFamily = AF_INET then
    withChecksums4 plan.ipHeaderLen
      (emitted4 plan (fabricIngress fpm) nat (len16 (plan.totalIpLen dataOffset)) draft)
  else
    withChecksum6 plan.ipHeaderLen
      (emitted6 plan (fabricIngress fpm) nat
        (len16 (plan.ipHeaderLen - 40 + plan.tcpHeaderLen + plan.chunkLen dataOffset)) draft)

/-- The TTL or hop limit of the datagram lets it go on. -/
def SegmentPlan.Lives (plan : SegmentPlan) (fpm : ForwardPacketMeta) : Prop :=
  fabricIngress fpm = true ∨ 1 < byteAt plan.payload (if fpm.addrFamily = AF_INET then 8 else 7)

section

variable {b : Bytes}

theorem writeAt_zero {xs : Bytes} (h : xs.length ≤ b.length) :
    writeAt b 0 xs = xs ++ b.drop xs.length := by
  rw [writeAt, List.take_zero, List.nil_append, Nat.sub_zero, List.take_of_length_le h, Nat.zero_add]

theorem copyFromSlice_run {start : ℕ} {xs : Bytes} (h : start + xs.length ≤ b.length) :
    (copyFromSlice start xs).run b = (some (), writeAt b start xs) := by
  rw [copyFromSlice, require_bind_run, if_pos h, modify_run]

/-- Slices copied behind one another over the whole of a buffer. -/
theorem writeAt_thrice {x y z : Bytes} (h : b.length = x.length + y.length + z.length) :
    writeAt (writeAt (writeAt b 0 x) x.length y) (x.length + y.length) z = x ++ (y ++ z) := by
  have hz : (b.drop x.length).drop y.length = b.drop (x.length + y.length) := List.drop_drop
  have hright := writeAt_append_right x (b.drop x.length) 0 y
  have hright' := writeAt_append_right (x ++ y) (b.drop (x.length + y.length)) 0 z
  rw [Nat.add_zero] at hright hright'
  rw [List.length_append] at hright'
  rw [writeAt_zero (by omega), hright, writeAt_zero (by rw [List.length_drop]; omega), hz,
    ← List.append_assoc, hright', writeAt_zero (by rw [List.length_drop]; omega), List.drop_drop,
    List.drop_of_length_le (by omega), List.append_nil, List.append_assoc]

theorem onHead_ethHeader_run (params : RewriteEthParams) (h : (ethHeader params).length ≤ b.length) :
    (onHead (ethHeader params).length (writeEthHeaderSlice params)).run b
      = (some (), ethHeader params ++ b.drop (ethHeader params).length) := by
  have htake : (b.take (ethHeader params).length).length = (ethHeader params).length :=
    List.length_take_of_le h
  rw [onHead_run _ h, writeEthHeaderSlice, require_bind_run, if_pos (by rw [htake]), modify_run,
    writeAt_zero (by rw [htake]), List.drop_of_length_le (by rw [htake]), List.append_nil]

end

section

variable {fpm : ForwardPacketMeta} {decision : SessionDecision} {mtu : ℕ} {plan : SegmentPlan}
  {dataOffset : ℕ} {segmentIndex : UInt16}

theorem Planned.length_data (h : Planned fpm decision mtu plan) :
    plan.data.length + plan.headersLen = plan.payload.length := by
  have := h.headers
  rw [SegmentPlan.data, List.length_drop]
  omega

theorem Planned.length_ip (h : Planned fpm decision mtu plan) :
    (plan.payload.take plan.ipHeaderLen).length = plan.ipHeaderLen := by
  have := h.headers
  rw [SegmentPlan.headersLen] at this
  exact List.length_take_of_le (by omega)

theorem Planned.length_tcp (h : Planned fpm decision mtu plan) :
    ((plan.payload.drop plan.ipHeaderLen).take plan.tcpHeaderLen).length = plan.tcpHeaderLen := by
  have := h.headers
  rw [SegmentPlan.headersLen] at this
  rw [List.length_take, List.length_drop]
  omega

theorem length_chunk (h : dataOffset ≤ plan.data.length) :
    (sub plan.data dataOffset (plan.chunkLen dataOffset)).length = plan.chunkLen dataOffset := by
  apply length_sub
  rw [SegmentPlan.chunkLen]
  omega

theorem Planned.length_draft (h : Planned fpm decision mtu plan) (hoff : dataOffset ≤ plan.data.length)
    (addrFamily : UInt8) (segmentIndex : UInt16) :
    (segmentDraft plan addrFamily dataOffset segmentIndex).length = plan.totalIpLen dataOffset := by
  rw [segmentDraft]
  rw [List.length_append, length_put16, length_stamped, List.length_append, h.length_ip, h.length_tcp,
    length_chunk hoff, SegmentPlan.totalIpLen, SegmentPlan.headersLen, Nat.add_assoc]

/-- The copies and the repairs of one segment. -/
theorem Planned.draft_run (h : Planned fpm decision mtu plan) {t : Bytes}
    (ht : t.length = plan.totalIpLen dataOffset) (hoff : dataOffset ≤ plan.data.length)
    (segmentIndex : UInt16) :
    (do copyFromSlice 0 (plan.payload.take plan.ipHeaderLen)
        copyFromSlice plan.ipHeaderLen (sub plan.payload plan.ipHeaderLen plan.tcpHeaderLen)
        copyFromSlice plan.headersLen (sub plan.data dataOffset (plan.chunkLen dataOffset))
        finalizeTcpSegmentHeaders fpm.addrFamily plan.ipHeaderLen plan.originalSeq dataOffset
          segmentIndex (dataOffset + plan.chunkLen dataOffset = plan.data.length)).run t
      = (some (), segmentDraft plan fpm.addrFamily dataOffset segmentIndex) := by
  have hip := h.length_ip
  have htcp := h.length_tcp
  have hchunk := length_chunk hoff
  have hip20 := h.ipHeader
  have htcp20 := h.tcpHeader
  rw [SegmentPlan.totalIpLen, SegmentPlan.headersLen] at ht
  rw [SegmentPlan.headersLen]
  change (do
    copyFromSlice 0 (plan.payload.take plan.ipHeaderLen)
    copyFromSlice plan.ipHeaderLen ((plan.payload.drop plan.ipHeaderLen).take plan.tcpHeaderLen)
    _ : Edit Bytes Unit).run t = _
  rw [segmentDraft]
  -- the fields that are read back are in the TCP header, in front of the chunk
  have hread : ∀ i, i < 20 → byteAt ((plan.payload.drop plan.ipHeaderLen).take plan.tcpHeaderLen
      ++ sub plan.data dataOffset (plan.chunkLen dataOffset)) i
        = byteAt (plan.payload.drop plan.ipHeaderLen) i := by
    intro i hi
    rw [byteAt_append_left (by omega), byteAt_take (by omega)]
  have hurg : get16 ((plan.payload.drop plan.ipHeaderLen).take plan.tcpHeaderLen
      ++ sub plan.data dataOffset (plan.chunkLen dataOffset)) 18
        = get16 (plan.payload.drop plan.ipHeaderLen) 18 := by
    rw [get16, hread _ (by omega), hread _ (by omega), get16]
  rw [← hurg, ← hread 13 (by omega)]
  generalize (plan.payload.drop plan.ipHeaderLen).take plan.tcpHeaderLen = tcp at htcp
  generalize sub plan.data dataOffset (plan.chunkLen dataOffset) = chunk at hchunk
  generalize plan.payload.take plan.ipHeaderLen = ip at hip
  rw [← hip, ← htcp, bind_run_some (copyFromSlice_run (by omega)),
    bind_run_some (copyFromSlice_run (by rw [length_writeAt]; omega)),
    bind_run_some (copyFromSlice_run (by rw [length_writeAt, length_writeAt]; omega)),
    writeAt_thrice (by omega),
    finalizeTcpSegmentHeaders_run _ _ _ _ _ (by omega) (by rw [List.length_append]; omega)]

/-- The IP header of a draft is that of the datagram, but for the Identification. -/
theorem Planned.byteAt_draft (h : Planned fpm decision mtu plan) (addrFamily : UInt8) {i : ℕ}
    (hi : i < plan.ipHeaderLen) (hid : i < 4 ∨ 6 ≤ i) :
    byteAt (segmentDraft plan addrFamily dataOffset segmentIndex) i = byteAt plan.payload i := by
  have hip := h.length_ip
  rw [segmentDraft, byteAt_append_left (by rw [length_put16]; omega),
    byteAt_put16_of_disjoint (by omega), byteAt_take hi]

theorem Planned.emits4 (h : Planned fpm decision mtu plan) (hfam : fpm.addrFamily = AF_INET)
    (hoff : dataOffset ≤ plan.data.length) :
    Emits4 plan (segmentDraft plan fpm.addrFamily dataOffset segmentIndex) := by
  have hlen := h.length_draft hoff fpm.addrFamily segmentIndex
  have hdata := h.length_data
  have hip := h.ipHeader
  have htcp := h.tcpHeader
  have hmax : plan.totalIpLen dataOffset ≤ plan.payload.length := by
    rw [SegmentPlan.totalIpLen, SegmentPlan.chunkLen]
    omega
  rcases h.family with ⟨-, hihl, hfirst, hmax4⟩ | ⟨hv6, -⟩
  · refine ⟨?_, hip, ?_, ?_, by omega⟩
    · rw [ipv4Ihl, h.byteAt_draft _ (by omega) (by omega), ← hihl, ipv4Ihl]
    · rw [hlen, SegmentPlan.totalIpLen, SegmentPlan.headersLen]
      omega
    · -- the fragment field is behind the Identification
      have hfield : get16 (segmentDraft plan fpm.addrFamily dataOffset segmentIndex) 6
          = get16 plan.payload 6 := by
        rw [get16, h.byteAt_draft _ (by omega) (by omega), h.byteAt_draft _ (by omega) (by omega),
          get16]
      have hpay := h.headers
      rw [SegmentPlan.headersLen] at hpay
      rw [ipv4IsNonFirstFragment, decide_eq_true (by omega)] at hfirst
      rw [ipv4IsNonFirstFragment, hfield, hlen, SegmentPlan.totalIpLen, SegmentPlan.headersLen,
        decide_eq_true (by omega)]
      exact hfirst
  · rw [hfam] at hv6
    cases hv6

theorem Planned.emits6 (h : Planned fpm decision mtu plan) (hfam : fpm.addrFamily = AF_INET6)
    (hoff : dataOffset ≤ plan.data.length) :
    Emits6 plan (segmentDraft plan fpm.addrFamily dataOffset segmentIndex) := by
  have hlen := h.length_draft hoff fpm.addrFamily segmentIndex
  have hdata := h.length_data
  have htcp := h.tcpHeader
  have hmax : plan.totalIpLen dataOffset ≤ plan.payload.length := by
    rw [SegmentPlan.totalIpLen, SegmentPlan.chunkLen]
    omega
  have hl4 : plan.ipHeaderLen + 20 ≤ plan.totalIpLen dataOffset := by
    rw [SegmentPlan.totalIpLen, SegmentPlan.headersLen]
    omega
  rcases h.family with ⟨hv4, -⟩ | ⟨-, h40, ⟨nextHeader, hwalk⟩, hah, hmax6⟩
  · rw [hfam] at hv4
    cases hv4
  · have hsame : walkIpv6ExtChain (segmentDraft plan fpm.addrFamily dataOffset segmentIndex) 0
        = walkIpv6ExtChain plan.payload 0 :=
      walkIpv6ExtChain_agree hwalk (by omega) (h.byteAt_draft _ (by omega) (by omega))
        fun i _ h2 => h.byteAt_draft _ h2 (by omega)
    refine ⟨h40, ⟨nextHeader, by rw [hsame, hwalk]⟩, ?_, by omega, by omega⟩
    rw [ipv6AhSighted, if_neg (by simp), if_neg (by omega)] at hah ⊢
    rw [h.byteAt_draft _ (by omega) (by omega), hsame]
    exact hah

/-- **One segment.** Whatever the buffer held, a segment of a datagram that lives is written
over all of it, and one of a datagram that does not is declined inside it. -/
theorem Planned.buildSegment_run (h : Planned fpm decision mtu plan)
    (hvlan : decision.txVlanId < 0x1000) (len16 : ℕ → UInt16) (nat : NatDecision) {b : Bytes}
    (hb : b.length = plan.ethLen + plan.totalIpLen dataOffset) (hoff : dataOffset ≤ plan.data.length)
    (segmentIndex : UInt16) :
    (plan.Lives fpm → (buildSegment len16 plan fpm nat dataOffset segmentIndex).run b
        = (some (), ethHeader plan.eth ++ segmentPacket len16 plan fpm nat dataOffset segmentIndex))
      ∧ (¬plan.Lives fpm → ∃ b', (buildSegment len16 plan fpm nat dataOffset segmentIndex).run b
        = (none, b') ∧ b'.length = b.length) := by
  have hvlan' : plan.eth.vlanId < 0x1000 := by rwa [h.vlan]
  have heth : (ethHeader plan.eth).length = plan.ethLen := length_ethHeader hvlan'
  have h3 := frameL3Offset_ethHeader hvlan' h.etherType
  have hlen := h.length_draft hoff fpm.addrFamily segmentIndex
  have hip := h.ipHeader
  have htcp := h.tcpHeader
  have hfits : 40 ≤ plan.totalIpLen dataOffset := by
    rw [SegmentPlan.totalIpLen, SegmentPlan.headersLen]
    omega
  have hhead := onHead_ethHeader_run (b := b) plan.eth (by omega)
  have hdraft := (@onTail_append_run (ethHeader plan.eth) (b.drop (ethHeader plan.eth).length) _ _).trans
    (by rw [h.draft_run (by rw [List.length_drop]; omega) hoff segmentIndex])
  rw [heth] at hhead hdraft
  unfold buildSegment SegmentPlan.Lives segmentPacket
  dsimp only
  rw [bind_run_some hhead, bind_run_some hdraft]
  dsimp only
  have hbyte : ∀ i, i < plan.ipHeaderLen → 6 ≤ i →
      byteAt (segmentDraft plan fpm.addrFamily dataOffset segmentIndex) i = byteAt plan.payload i :=
    fun i h1 h2 => h.byteAt_draft _ h1 (.inr h2)
  rcases h.family with ⟨hv4, -⟩ | ⟨hv6, h40, -⟩
  · rw [if_pos hv4, if_pos hv4, if_pos hv4, ← hbyte 8 (by omega) (by omega)]
    exact ⟨fun hlives => emitIpv4Segment_run len16 _ (h.emits4 hv4 hoff) heth h3 hv4 h.proto hlives,
      fun hdead => ⟨_, emitIpv4Segment_declined len16 _ heth (by omega) hdead, by
        rw [List.length_append, length_put16, hlen, heth, hb]⟩⟩
  · have hv4 : fpm.addrFamily ≠ AF_INET := by
      rw [hv6]
      decide
    rw [if_neg hv4, if_neg hv4, if_neg hv4, if_pos hv6, ← hbyte 7 (by omega) (by omega)]
    exact ⟨fun hlives => emitIpv6Segment_run len16 _ (h.emits6 hv6 hoff) heth h3 hv6 h.proto hlives,
      fun hdead => ⟨_, emitIpv6Segment_declined len16 _ heth (by omega) hdead, by
        rw [List.length_append, length_put16, hlen, heth, hb]⟩⟩

end

end Xpf.Frames
