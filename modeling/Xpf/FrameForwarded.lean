/-
What forwarding does to a packet behind its Ethernet header, as bytes.

A program that is handed a frame works on the packet behind the header (`onTail_append_run`).
It applies the decision in force, which is the session's or none, and takes a hop off the
TTL. The offsets that later steps look up again in the frame are those of the header that was
written (`frameL3Offset_ethHeader`) and of the packet behind it (`frameL4Offset_v4`,
`frameL4Offset_v6`).
-/
import Xpf.FrameNatExact
import Xpf.FrameTransaction

set_option autoImplicit false

namespace Xpf.Frames

open Xpf.ByteBuffer Xpf.Edits Xpf.Edits.Edit Xpf.OnesComplement

/-! ## Programs behind a header -/

/-- The decision that is applied: none when the plan says so. -/
def inForce (applyNat : Bool) (nat : NatDecision) : NatDecision :=
  if applyNat then nat else NatDecision.default

/-- The packet with its TTL or hop limit decremented. -/
def ttlDown (skipTtl : Bool) (i : ℕ) (p : Bytes) : Bytes :=
  if skipTtl then p else writeAt p i [byteAt p i - 1]

@[simp] theorem length_ttlDown (skipTtl : Bool) (i : ℕ) (p : Bytes) :
    (ttlDown skipTtl i p).length = p.length := by
  rw [ttlDown]
  split_ifs
  · rfl
  · exact length_writeAt _ _ _

section

variable {hdr p : Bytes}

theorem onTail_append_run {α : Type} (m : Edit Bytes α) :
    (onTail hdr.length m).run (hdr ++ p) = ((m.run p).1, hdr ++ (m.run p).2) := by
  rw [onTail_run m (by rw [List.length_append]; omega), List.drop_left, List.take_left]

theorem doIf_decrement_run (skipTtl : Bool) (i : ℕ) :
    (doIf (!skipTtl) (decrement (hdr.length + i))).run (hdr ++ p)
      = (some (), hdr ++ ttlDown skipTtl i p) := by
  cases skipTtl with
  | true => rfl
  | false =>
    rw [Bool.not_false, doIf, if_pos rfl, decrement, modify_run, byteAt_append_right,
      writeAt_append_right]
    rfl

theorem byteAt_ttlDown {skipTtl : Bool} {i j : ℕ} (h : j ≠ i) :
    byteAt (ttlDown skipTtl i p) j = byteAt p j := by
  rw [ttlDown]
  split_ifs
  · rfl
  · exact byteAt_writeAt_of_disjoint (by rw [List.length_singleton]; omega)

theorem byteAt_ttlDown_self {skipTtl : Bool} {i : ℕ} (h : i < p.length) :
    byteAt (ttlDown skipTtl i p) i = if skipTtl then byteAt p i else byteAt p i - 1 := by
  rw [ttlDown]
  split_ifs
  · rfl
  · rw [byteAt_writeAt, if_pos ⟨le_rfl, by rw [List.length_singleton]; omega, h⟩, Nat.sub_self]
    rfl

theorem get16_ttlDown {skipTtl : Bool} {i j : ℕ} (h : j ≠ i ∧ j + 1 ≠ i) :
    get16 (ttlDown skipTtl i p) j = get16 p j := by
  rw [get16, byteAt_ttlDown h.1, byteAt_ttlDown h.2]
  rfl

theorem ttlDown_put16 {skipTtl : Bool} {i off : ℕ} {c : UInt16} (h : i < off ∨ off + 2 ≤ i) :
    ttlDown skipTtl i (put16 p off c) = put16 (ttlDown skipTtl i p) off c := by
  rw [ttlDown, ttlDown]
  split_ifs
  · rfl
  · rw [byteAt_put16_of_disjoint h, writeAt_put16_comm (by rw [List.length_singleton]; omega)]

theorem get16_take {i k : ℕ} (h : i + 2 ≤ k) : get16 (p.take k) i = get16 p i := by
  rw [get16, byteAt_take (by omega), byteAt_take (by omega)]
  rfl

/-! ## The decision in force -/

theorem hasL4Ports_of_field {protocol : UInt8} {d : ℕ}
    (hd : l4ChecksumFieldDeltaV4 protocol = some d) : hasL4Ports protocol = true := by
  rcases fieldDeltaV4_cases hd with ⟨rfl, -⟩ | ⟨rfl, -⟩ <;> rfl

theorem parity_of_no_ports {protocol : UInt8} {family : ChecksumFamily} {nat : NatDecision}
    {c : UInt16} (h : nat.rewriteSrcPort = none ∧ nat.rewriteDstPort = none) :
    parity protocol family nat c = c := by
  rw [parity, if_neg]
  simp [h.1, h.2]

theorem natFields4_default {protocol : UInt8} (hproto : hasL4Ports protocol = true) :
    natFields4 protocol NatDecision.default p = p := by
  rw [natFields4, natL4Fields, if_pos hproto]
  rfl

theorem natChecksum4_default {protocol : UInt8} (hproto : hasL4Ports protocol = true) (off : ℕ) :
    natChecksum4 protocol NatDecision.default off p = get16 p off := by
  rw [natChecksum4, natL4Checksum, if_pos hproto, natPortsChecksum, parity_of_no_ports ⟨rfl, rfl⟩]
  rfl

/-- The decision in force, applied to an IPv4 packet. -/
theorem applyInForce4_run {protocol : UInt8} {d : ℕ} {applyNat : Bool} {nat : NatDecision}
    (hd : l4ChecksumFieldDeltaV4 protocol = some d) (hihl : 20 ≤ ipv4Ihl p 0)
    (hlen : inForce applyNat nat ≠ NatDecision.default → ipv4Ihl p 0 + d + 2 ≤ p.length) :
    (doIf applyNat (onTail hdr.length (applyNatIpv4 protocol nat false))).run (hdr ++ p)
      = (some (), hdr ++ put16 (natFields4 protocol (inForce applyNat nat) p) (ipv4Ihl p 0 + d)
          (natChecksum4 protocol (inForce applyNat nat) (ipv4Ihl p 0 + d) p)) := by
  have hports := hasL4Ports_of_field hd
  by_cases hnat : inForce applyNat nat = NatDecision.default
  · rw [hnat, natFields4_default hports, natChecksum4_default hports, put16_get16]
    cases applyNat with
    | false => rfl
    | true =>
      obtain rfl : nat = NatDecision.default := hnat
      rw [doIf, if_pos rfl, onTail_append_run, applyNatIpv4, if_pos rfl]
      rfl
  · cases applyNat with
    | false => exact absurd rfl hnat
    | true =>
      rw [doIf, if_pos rfl, onTail_append_run, applyNatIpv4_form hd hihl (hlen hnat)]
      rfl

theorem natFields6_default {protocol : UInt8} (hproto : hasL4Ports protocol = true) (relL4 : ℕ) :
    natFields6 relL4 protocol NatDecision.default p = p := by
  rw [natFields6, natL4Fields, if_pos hproto]
  rfl

theorem natChecksum6_default {protocol : UInt8} (hproto : hasL4Ports protocol = true)
    (relL4 off : ℕ) : natChecksum6 relL4 protocol NatDecision.default off p = get16 p off := by
  rw [natChecksum6, natL4Checksum, if_pos hproto, natPortsChecksum, parity_of_no_ports ⟨rfl, rfl⟩]
  rfl

/-- The decision in force, applied to an IPv6 packet. -/
theorem applyInForce6_run {protocol : UInt8} {d relL4 : ℕ} {applyNat : Bool} {nat : NatDecision}
    (hd : l4ChecksumFieldDeltaV4 protocol = some d) (hrel : 40 ≤ relL4)
    (hlen : relL4 + d + 2 ≤ p.length) (hah : ipv6AhSighted p AF_INET6 0 = false) :
    (doIf applyNat (onTail hdr.length (applyNatIpv6 relL4 protocol nat false))).run (hdr ++ p)
      = (some (), hdr ++ put16 (natFields6 relL4 protocol (inForce applyNat nat) p) (relL4 + d)
          (natChecksum6 relL4 protocol (inForce applyNat nat) (relL4 + d) p)) := by
  have hports := hasL4Ports_of_field hd
  cases applyNat with
  | false =>
    rw [show inForce false nat = NatDecision.default from rfl, natFields6_default hports,
      natChecksum6_default hports, put16_get16]
    rfl
  | true =>
    have hstrip : nat = stripPorts (ipv6AhSighted p AF_INET6 0) nat := by
      rw [hah]
      rfl
    rw [doIf, if_pos rfl, onTail_append_run,
      applyNatIpv6_form (fieldDeltaV6_of_v4 hd) hrel hlen hstrip]
    rfl

end

/-! ## The Ethernet header in front -/

section

variable {params : RewriteEthParams}

/-- The twelve bits of a tag hold every VLAN id. -/
theorem vlanId_mask {vlanId : UInt16} (h : vlanId < 0x1000) : vlanId &&& 0x0fff = vlanId := by
  apply UInt16.toNat_inj.mp
  have hlt : vlanId.toNat < 2 ^ 12 := UInt16.lt_iff_toNat_lt.mp h
  rw [UInt16.toNat_and]
  exact (Nat.and_two_pow_sub_one_eq_mod _ 12).trans (Nat.mod_eq_of_lt hlt)

theorem length_ethHeader (hvlan : params.vlanId < 0x1000) :
    (ethHeader params).length = if 0 < params.vlanId then 18 else 14 := by
  unfold ethHeader
  dsimp only
  rw [vlanId_mask hvlan, List.length_append, List.length_append, List.length_append,
    List.length_ofFn, List.length_ofFn, length_toBe]
  by_cases h : 0 < params.vlanId
  · rw [if_pos h, if_pos (UInt16.pos_iff_ne_zero.mp h)]
    rfl
  · rw [if_neg h, if_neg (fun hne => h (UInt16.pos_iff_ne_zero.mpr hne))]
    rfl

/-- The word behind the two MAC addresses: the tag, or the Ethernet type. -/
theorem get16_ethHeader (rest : Bytes) :
    get16 (ethHeader params ++ rest) 12
      = if params.vlanId &&& 0x0fff ≠ 0 then 0x8100 else params.etherType := by
  have hmacs : (List.ofFn params.dstMac ++ List.ofFn params.srcMac).length = 12 := by
    rw [List.length_append, List.length_ofFn, List.length_ofFn]
  have hword : ∀ (w : UInt16) (tail : Bytes), get16 (toBe w ++ tail) 0 = w :=
    fun w _ => fromBe_toBe w
  have hat : ∀ tail : Bytes, get16 (List.ofFn params.dstMac ++ List.ofFn params.srcMac ++ tail) 12
      = get16 tail 0 := by
    intro tail
    have := get16_append_right (List.ofFn params.dstMac ++ List.ofFn params.srcMac) tail 0
    rwa [hmacs] at this
  rw [ethHeader]
  split_ifs with hvid
  · rw [List.append_assoc, List.append_assoc, hat, List.append_assoc, hword]
  · rw [List.append_nil, List.append_assoc, hat, hword]

/-- **The L3 offset of a frame** is the length of the header that was written in front. -/
theorem frameL3Offset_ethHeader (hvlan : params.vlanId < 0x1000)
    (htype : params.etherType = 0x0800 ∨ params.etherType = 0x86dd) (rest : Bytes) :
    frameL3Offset (ethHeader params ++ rest) = some (ethHeader params).length := by
  have hlen := length_ethHeader hvlan
  rw [frameL3Offset, List.length_append, get16_ethHeader, vlanId_mask hvlan]
  by_cases hpos : 0 < params.vlanId
  · rw [if_pos hpos] at hlen
    rw [if_pos (UInt16.pos_iff_ne_zero.mp hpos), hlen, if_neg (by omega), if_pos (.inl rfl),
      if_neg (by omega)]
  · rw [if_neg hpos] at hlen
    -- no tag: the word is the Ethernet type, and neither type is a tag's
    rw [if_neg (fun hne => hpos (UInt16.pos_iff_ne_zero.mpr hne)), hlen, if_neg (by omega), if_neg]
    rcases htype with h | h <;> rw [h] <;> decide

end

/-! ## The L4 offset -/

section

variable {hdr p : Bytes} {relL4 : ℕ}

/-- The L4 offset of a frame whose IPv4 packet starts behind `hdr`. -/
theorem frameL4Offset_v4 (h3 : frameL3Offset (hdr ++ p) = some hdr.length)
    (hihl : 20 ≤ ipv4Ihl p 0 ∧ ipv4Ihl p 0 ≤ p.length)
    (hfirst : ipv4IsNonFirstFragment p = false) :
    frameL4Offset (hdr ++ p) AF_INET = some (hdr.length + ipv4Ihl p 0) := by
  have hihlAt : ipv4Ihl (hdr ++ p) hdr.length = ipv4Ihl p 0 := by
    have := byteAt_append_right hdr p 0
    rw [Nat.add_zero] at this
    rw [ipv4Ihl, ipv4Ihl, this]
  unfold frameL4Offset
  rw [h3]
  dsimp only
  rw [if_pos rfl, hihlAt, List.length_append, if_neg (by omega), if_neg (by omega), List.drop_left,
    hfirst, if_neg Bool.false_ne_true]

/-- The L4 offset of a frame whose IPv6 packet starts behind `hdr`. -/
theorem frameL4Offset_v6 {nextHeader : UInt8} (h3 : frameL3Offset (hdr ++ p) = some hdr.length)
    (hwalk : (walkIpv6ExtChain p 0).outcome = .l4 relL4 nextHeader) :
    frameL4Offset (hdr ++ p) AF_INET6 = some (hdr.length + relL4) := by
  have hbyte : ∀ i, byteAt (hdr ++ p) (i + hdr.length) = byteAt p i := by
    intro i
    rw [Nat.add_comm, byteAt_append_right]
  have hshift : (walkIpv6ExtChain (hdr ++ p) (0 + hdr.length)).outcome
      = .l4 (relL4 + hdr.length) nextHeader :=
    (walkIpv6ExtChain_shift hwalk (by rw [List.length_append, Nat.add_comm]) (hbyte _)
      (fun i _ _ => hbyte i)).1
  rw [Nat.zero_add] at hshift
  unfold frameL4Offset
  rw [h3]
  dsimp only
  rw [if_neg (by decide), if_pos rfl, hshift, Nat.add_comm]
  rfl

end

end Xpf.Frames
