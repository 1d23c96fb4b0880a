/-
A NAT rewrite and its inverse.

The inverse of a decision, for a packet, puts back the fields the decision has replaced in
it. On the fields alone the two cancel, since no two fields of a decision overlap. With the
checksums they cancel as well: a rewritten standard packet is a standard packet again
(`FrameNatExact.lean`), so the way back recomputes the old checksums, and the old packet is
there byte for byte.
-/
import Xpf.FrameNatExact
import Mathlib.Data.Fin.VecNotation

set_option autoImplicit false

namespace Xpf.Frames

open Xpf.ByteBuffer Xpf.Edits Xpf.Edits.Edit Xpf.OnesComplement Xpf.WordSums

/-! ## Fields that are put back -/

section

variable {b : Bytes} {i j : ℕ}

theorem setAddr_undo {n : ℕ} {new old : Option (Fin n → UInt8)} (hnone : old = none → new = none)
    (hsome : ∀ addr, old = some addr → addr = fun k : Fin n => byteAt b (i + k)) :
    setAddr i old (setAddr i new b) = b := by
  cases old with
  | none =>
    rw [hnone rfl]
    rfl
  | some addr =>
    have hself : writeAt b i (List.ofFn addr) = b := by
      apply writeAt_self
      intro k hk
      rw [byteAt, List.getD_eq_getElem _ _ hk, List.getElem_ofFn]
      exact congrFun (hsome addr rfl) _
    cases new with
    | none => exact hself
    | some addr' =>
      have hlen : (List.ofFn addr').length = (List.ofFn addr).length := by
        rw [List.length_ofFn, List.length_ofFn]
      exact (writeAt_writeAt b i hlen).trans hself

theorem setWord_undo {new old : Option UInt16} (hnone : old = none → new = none)
    (hsome : ∀ v, old = some v → v = get16 b i) : setWord i old (setWord i new b) = b := by
  cases old with
  | none =>
    rw [hnone rfl]
    rfl
  | some v =>
    rw [hsome v rfl]
    cases new with
    | none => exact put16_get16 b i
    | some v' => exact (put16_put16 b i v' _).trans (put16_get16 b i)

theorem setAddr_setAddr {m n : ℕ} (x : Option (Fin m → UInt8)) (y : Option (Fin n → UInt8))
    (h : i + m ≤ j ∨ j + n ≤ i) : setAddr j y (setAddr i x b) = setAddr i x (setAddr j y b) := by
  cases x with
  | none => rfl
  | some x =>
    cases y with
    | none => rfl
    | some y => exact writeAt_comm b (by rwa [List.length_ofFn, List.length_ofFn])

theorem setAddr_setWord {n : ℕ} (x : Option (Fin n → UInt8)) (v : Option UInt16)
    (h : i + n ≤ j ∨ j + 2 ≤ i) : setAddr i x (setWord j v b) = setWord j v (setAddr i x b) := by
  cases v with
  | none => rfl
  | some v => exact setAddr_put16 x h

theorem setWord_setWord (v w : Option UInt16) (h : i + 2 ≤ j ∨ j + 2 ≤ i) :
    setWord i v (setWord j w b) = setWord j w (setWord i v b) := by
  cases w with
  | none => rfl
  | some w => exact setWord_put16 v h

end

/-! ## The inverse decision -/

/-- The L4 field of a packet that a port of a decision stands for: the port at `i`, or the
identifier of an ICMPv6 message. -/
def portField (protocol : UInt8) (l4 i : ℕ) (b : Bytes) : UInt16 :=
  if hasL4Ports protocol then get16 b (l4 + i) else get16 b (l4 + 4)

/-- The decision that puts back what `nat` replaces in the packet `b`. -/
def NatDecision.inverse (nat : NatDecision) (protocol : UInt8) (l4 : ℕ) (src dst : IpAddr)
    (b : Bytes) : NatDecision :=
  { nat with
    rewriteSrc := nat.rewriteSrc.map fun _ => src
    rewriteDst := nat.rewriteDst.map fun _ => dst
    rewriteSrcPort := nat.rewriteSrcPort.map fun _ => portField protocol l4 0 b
    rewriteDstPort := nat.rewriteDstPort.map fun _ => portField protocol l4 2 b }

/-- The inverse for an IPv4 packet. -/
def inverse4 (protocol : UInt8) (b : Bytes) (nat : NatDecision) : NatDecision :=
  nat.inverse protocol (ipv4Ihl b 0) (.v4 (ipv4At b 12)) (.v4 (ipv4At b 16)) b

/-- The inverse for an IPv6 packet. -/
def inverse6 (relL4 : ℕ) (protocol : UInt8) (b : Bytes) (nat : NatDecision) : NatDecision :=
  nat.inverse protocol relL4 (.v6 (ipv6At b 8)) (.v6 (ipv6At b 24)) b

section

variable {protocol : UInt8} {b : Bytes} {l4 : ℕ}

/-- The L4 fields. -/
theorem natL4Fields_inverse (nat : NatDecision) (src dst : IpAddr) :
    natL4Fields protocol (nat.inverse protocol l4 src dst b) l4 (natL4Fields protocol nat l4 b)
      = b := by
  by_cases hports : hasL4Ports protocol = true
  · have hfield : ∀ k, portField protocol l4 k b = get16 b (l4 + k) := fun k => if_pos hports
    rw [natL4Fields, if_pos hports, natL4Fields, if_pos hports, natPorts, natPorts,
      NatDecision.inverse]
    dsimp only
    rw [hfield, hfield, setWord_setWord (i := l4) _ _ (.inl le_rfl),
      setWord_undo (i := l4) (by simp) (by simp), setWord_undo (by simp) (by simp)]
  · have hfield : ∀ k, portField protocol l4 k b = get16 b (l4 + 4) := fun k => if_neg hports
    rw [natL4Fields, if_neg hports, natL4Fields, if_neg hports]
    have hident : natIdent (nat.inverse protocol l4 src dst b) l4
        (setWord (l4 + 4) (natIdent nat l4 b) b)
          = (natIdent nat l4 b).map fun _ => get16 b (l4 + 4) := by
      rw [natIdent, length_setWord, byteAt_setWord_of_disjoint _ (by omega), natIdent,
        NatDecision.inverse]
      dsimp only
      rw [hfield, hfield]
      split_ifs
      · cases nat.rewriteSrcPort <;> cases nat.rewriteDstPort <;> rfl
      · rfl
    rw [hident, setWord_undo (by simp) (by simp)]

theorem natL4Fields_setAddr {n i : ℕ} (nat : NatDecision) (addr : Option (Fin n → UInt8))
    (h : i + n ≤ l4) :
    setAddr i addr (natL4Fields protocol nat l4 b)
      = natL4Fields protocol nat l4 (setAddr i addr b) := by
  rw [natL4Fields, natL4Fields]
  split_ifs
  · rw [natPorts, setAddr_setWord _ _ (.inl (by omega)), setAddr_setWord _ _ (.inl (by omega)),
      natPorts]
  · rw [setAddr_setWord _ _ (.inl (by omega)), natIdent, natIdent, length_setAddr,
      byteAt_setAddr_of_disjoint _ (by omega)]

/-- The two addresses. -/
theorem setAddrs_undo {n i j : ℕ} {src dst oldSrc oldDst : Option (Fin n → UInt8)} (h : i + n ≤ j)
    (hsrc : oldSrc = none → src = none)
    (hsrc' : ∀ addr, oldSrc = some addr → addr = fun k : Fin n => byteAt b (i + k))
    (hdst : oldDst = none → dst = none)
    (hdst' : ∀ addr, oldDst = some addr → addr = fun k : Fin n => byteAt b (j + k)) :
    setAddr j oldDst (setAddr i oldSrc (setAddr j dst (setAddr i src b))) = b := by
  rw [setAddr_setAddr dst oldSrc (.inr h), setAddr_undo hsrc hsrc', setAddr_undo hdst hdst']

theorem ipv4Of_map_none {rewrite : Option IpAddr} {ip : Ipv4Addr}
    (h : ipv4Of (rewrite.map fun _ => .v4 ip) = none) : ipv4Of rewrite = none := by
  cases rewrite with
  | none => rfl
  | some _ => cases h

theorem ipv6Of_map_none {rewrite : Option IpAddr} {ip : Ipv6Addr}
    (h : ipv6Of (rewrite.map fun _ => .v6 ip) = none) : ipv6Of rewrite = none := by
  cases rewrite with
  | none => rfl
  | some _ => cases h

theorem ipv4Of_map_some {rewrite : Option IpAddr} {ip addr : Ipv4Addr}
    (h : ipv4Of (rewrite.map fun _ => .v4 ip) = some addr) : addr = ip := by
  cases rewrite with
  | none => cases h
  | some _ => exact (Option.some.inj h).symm

theorem ipv6Of_map_some {rewrite : Option IpAddr} {ip addr : Ipv6Addr}
    (h : ipv6Of (rewrite.map fun _ => .v6 ip) = some addr) : addr = ip := by
  cases rewrite with
  | none => cases h
  | some _ => exact (Option.some.inj h).symm

/-- **The fields of an IPv4 packet, there and back.** -/
theorem natFields4_inverse (hihl : 20 ≤ ipv4Ihl b 0) (nat : NatDecision) :
    natFields4 protocol (inverse4 protocol b nat) (natFields4 protocol nat b) = b := by
  have haddrs : setAddr 16 (ipv4Of (inverse4 protocol b nat).rewriteDst)
      (setAddr 12 (ipv4Of (inverse4 protocol b nat).rewriteSrc)
        (setAddr 16 (ipv4Of nat.rewriteDst) (setAddr 12 (ipv4Of nat.rewriteSrc) b))) = b :=
    setAddrs_undo (by omega) ipv4Of_map_none (fun _ => ipv4Of_map_some) ipv4Of_map_none
      (fun _ => ipv4Of_map_some)
  rw [natFields4, ipv4Ihl_natFields4 hihl, natFields4, natL4Fields_setAddr _ _ (by omega),
    natL4Fields_setAddr _ _ (by omega), haddrs]
  exact natL4Fields_inverse nat _ _

/-- **The fields of an IPv6 packet, there and back.** -/
theorem natFields6_inverse {relL4 : ℕ} (hrel : 40 ≤ relL4) (nat : NatDecision) :
    natFields6 relL4 protocol (inverse6 relL4 protocol b nat) (natFields6 relL4 protocol nat b)
      = b := by
  have haddrs : setAddr 24 (ipv6Of (inverse6 relL4 protocol b nat).rewriteDst)
      (setAddr 8 (ipv6Of (inverse6 relL4 protocol b nat).rewriteSrc)
        (setAddr 24 (ipv6Of nat.rewriteDst) (setAddr 8 (ipv6Of nat.rewriteSrc) b))) = b :=
    setAddrs_undo (by omega) ipv6Of_map_none (fun _ => ipv6Of_map_some) ipv6Of_map_none
      (fun _ => ipv6Of_map_some)
  rw [natFields6, natFields6, natL4Fields_setAddr _ _ (by omega),
    natL4Fields_setAddr _ _ (by omega), haddrs]
  exact natL4Fields_inverse nat _ _

/-- The inverse of the decision that is applied is the inverse as it is applied. -/
theorem stripPorts_inverse6 (ahSighted : Bool) (relL4 : ℕ) (nat : NatDecision) :
    stripPorts ahSighted (inverse6 relL4 protocol b nat)
      = inverse6 relL4 protocol b (stripPorts ahSighted nat) := by
  cases ahSighted <;> rfl

end

/-! ## The packets -/

section

variable {protocol : UInt8} {b : Bytes} {d : ℕ}

/-- Recomputing the checksums gives a standard packet back, whatever was in their fields. -/
theorem Standard4.restore (h : Standard4 protocol b) (hd : l4ChecksumFieldDeltaV4 protocol = some d)
    (c hc : UInt16) :
    (recomputeBoth4 protocol).run (put16 (put16 b (ipv4Ihl b 0 + d) c) 10 hc) = (some (), b) := by
  have hihl := h.ihl
  obtain ⟨hfull, hhead⟩ := h.get16_eq hd
  have hsame : ipv4Ihl (put16 (put16 b (ipv4Ihl b 0 + d) c) 10 hc) 0 = ipv4Ihl b 0 := by
    rw [ipv4Ihl_put16 (by omega), ipv4Ihl_put16 (by omega)]
  rw [recomputeBoth4_run hd (by rwa [hsame]) (by rw [hsame]; simpa using h.l4)
    (by simpa using h.len), hsame, fullL4Checksum4_put16_header hihl (by omega),
    fullL4Checksum4_put16_self, ← hfull, fullHeaderChecksum_put16 (.inl rfl),
    fullHeaderChecksum_put16 (.inr (by omega)), ← hhead, put16_put16_comm (by omega), put16_put16,
    put16_put16_comm (by omega), put16_put16, put16_get16, put16_get16]

theorem Standard6.restore {relL4 : ℕ} (h : Standard6 relL4 protocol b)
    (hd : l4ChecksumFieldDeltaV6 protocol = some d) (c : UInt16) :
    (recomputeL4ChecksumIpv6 relL4 protocol).run (put16 b (relL4 + d) c) = (some (), b) := by
  rw [recomputeL4ChecksumIpv6_run hd (walk_l4_ge h.walk) (by simpa using h.l4)
    (by simpa using h.len), fullL4Checksum6_put16_self, put16_put16, ← h.get16_eq hd, put16_get16]

/-- `apply_nat_ipv4` and the header adjustment write the new fields and recompute. -/
theorem natAndHeader4_eq (h : Standard4 protocol b) (hd : l4ChecksumFieldDeltaV4 protocol = some d)
    (nat : NatDecision) :
    (natAndHeader4 protocol nat).run b
      = (recomputeBoth4 protocol).run (natFields4 protocol nat b) := by
  have hihl := h.ihl
  have hsame : ipv4Ihl (natFields4 protocol nat b) 0 = ipv4Ihl b 0 := ipv4Ihl_natFields4 hihl
  rw [natAndHeader4_run h hd, recomputeBoth4_run hd (by rwa [hsame])
    (by rw [hsame, length_natFields4]; exact h.l4) (by rw [length_natFields4]; exact h.len), hsame]

/-- `apply_nat_ipv6` does, for the decision it applies. -/
theorem applyNatIpv6_eq {relL4 : ℕ} (h : Standard6 relL4 protocol b)
    (hd : l4ChecksumFieldDeltaV6 protocol = some d) {nat : NatDecision} (hnat : nat.nptv6 = false) :
    (applyNatIpv6 relL4 protocol nat false).run b
      = (recomputeL4ChecksumIpv6 relL4 protocol).run
          (natFields6 relL4 protocol (stripPorts (ipv6AhSighted b AF_INET6 0) nat) b) := by
  rw [applyNatIpv6_run h hd hnat rfl, recomputeL4ChecksumIpv6_run hd (walk_l4_ge h.walk)
    (by rw [length_natFields6]; exact h.l4) (by rw [length_natFields6]; exact h.len)]

theorem fieldDeltaV4_of_ports (h : hasL4Ports protocol = true) :
    ∃ d, l4ChecksumFieldDeltaV4 protocol = some d := by
  simp only [hasL4Ports, Bool.or_eq_true, beq_iff_eq] at h
  rcases h with rfl | rfl
  · exact ⟨16, rfl⟩
  · exact ⟨6, rfl⟩

theorem fieldDeltaV6_of_ports (h : hasL4Ports protocol = true ∨ protocol = PROTO_ICMPV6) :
    ∃ d, l4ChecksumFieldDeltaV6 protocol = some d := by
  rcases h with h | rfl
  · obtain ⟨d, hd⟩ := fieldDeltaV4_of_ports h
    exact ⟨d, fieldDeltaV6_of_v4 hd⟩
  · exact ⟨2, rfl⟩

/-- The rewritten packet is taken back to the packet. -/
theorem natAndHeader4_inverse (h : Standard4 protocol b)
    (hd : l4ChecksumFieldDeltaV4 protocol = some d) (nat : NatDecision) {out : Bytes}
    (hout : (recomputeBoth4 protocol).run (natFields4 protocol nat b) = (some (), out)) :
    (natAndHeader4 protocol (inverse4 protocol b nat)).run out = (some (), b) := by
  have hihl := h.ihl
  have hsame : ipv4Ihl (natFields4 protocol nat b) 0 = ipv4Ihl b 0 := ipv4Ihl_natFields4 hihl
  have hl4 : ipv4Ihl (natFields4 protocol nat b) 0 + l4HeaderLen protocol
      ≤ (natFields4 protocol nat b).length := by
    rw [hsame, length_natFields4]
    exact h.l4
  have hmax : (natFields4 protocol nat b).length ≤ 65535 := by
    rw [length_natFields4]
    exact h.len
  obtain ⟨hstd, -⟩ := standard4_recomputed hd (by rwa [hsame]) hl4 hmax hout
  rw [natAndHeader4_eq hstd hd]
  rw [recomputeBoth4_run hd (by rwa [hsame]) hl4 hmax, hsame] at hout
  obtain rfl := (Prod.mk.inj hout).2
  -- the way back leaves the two checksums where they are, and they are written again
  rw [natFields4_put16 hd (by rw [ipv4Ihl_put16 (by omega), hsame]; exact hihl) (.inl rfl),
    natFields4_put16 hd (by rwa [hsame]) (.inr (by rw [hsame])), natFields4_inverse hihl,
    h.restore hd]

theorem applyNatIpv6_inverse {relL4 : ℕ} (h : Standard6 relL4 protocol b)
    (hd : l4ChecksumFieldDeltaV6 protocol = some d) {nat nat' : NatDecision}
    (hnat : nat.nptv6 = false) (hnat' : nat' = stripPorts (ipv6AhSighted b AF_INET6 0) nat)
    {out : Bytes}
    (hout : (recomputeL4ChecksumIpv6 relL4 protocol).run (natFields6 relL4 protocol nat' b)
      = (some (), out)) :
    (applyNatIpv6 relL4 protocol (inverse6 relL4 protocol b nat) false).run out
      = (some (), b) := by
  have hrel := walk_l4_ge h.walk
  have hl4 : relL4 + l4HeaderLen protocol ≤ (natFields6 relL4 protocol nat' b).length := by
    rw [length_natFields6]
    exact h.l4
  have hmax : (natFields6 relL4 protocol nat' b).length ≤ 65575 := by
    rw [length_natFields6]
    exact h.len
  obtain ⟨hwalk, hah⟩ := walk_of_same h.walk
    (w := natFields6 relL4 protocol nat' b) (length_natFields6 nat') fun i hi => byteAt_natFields6 hrel hi
  obtain ⟨hstd, hah'⟩ := standard6_recomputed hd hmax hwalk hl4 hout
  have hinv : (inverse6 relL4 protocol b nat).nptv6 = false := hnat
  rw [applyNatIpv6_eq hstd hd hinv, hah', hah, stripPorts_inverse6, ← hnat']
  rw [recomputeL4ChecksumIpv6_run hd hrel hl4 hmax] at hout
  obtain rfl := (Prod.mk.inj hout).2
  rw [natFields6_put16 hd hrel, natFields6_inverse hrel, h.restore hd]

end

/-- **NAT keeps checksums exactly right.** On a packet with the standard checksums the leaf,
with the header adjustment for IPv4, gives the packet that has the new fields and both
checksums recomputed, and the inverse decision takes that packet back to the old one byte for
byte. An IPv6 packet with an authentication header keeps its ports. -/
theorem natRewrite_exact :
    (∀ (protocol : UInt8) (b : Bytes) (nat : NatDecision), hasL4Ports protocol = true →
      Standard4 protocol b →
      ∃ out, (natAndHeader4 protocol nat).run b = (some (), out)
        ∧ (recomputeBoth4 protocol).run (natFields4 protocol nat b) = (some (), out)
        ∧ (natAndHeader4 protocol (inverse4 protocol b nat)).run out = (some (), b))
    ∧ ∀ (relL4 : ℕ) (protocol : UInt8) (b : Bytes) (nat : NatDecision),
      hasL4Ports protocol = true ∨ protocol = PROTO_ICMPV6 → Standard6 relL4 protocol b →
      nat.nptv6 = false →
      ∃ out, (applyNatIpv6 relL4 protocol nat false).run b = (some (), out)
        ∧ (recomputeL4ChecksumIpv6 relL4 protocol).run
            (natFields6 relL4 protocol (stripPorts (ipv6AhSighted b AF_INET6 0) nat) b)
          = (some (), out)
        ∧ (applyNatIpv6 relL4 protocol (inverse6 relL4 protocol b nat) false).run out
          = (some (), b) := by
  constructor
  · intro protocol b nat hports h
    obtain ⟨d, hd⟩ := fieldDeltaV4_of_ports hports
    have hrun := natAndHeader4_run h hd nat
    have hout := (natAndHeader4_eq h hd nat).symm.trans hrun
    exact ⟨_, hrun, hout, natAndHeader4_inverse h hd nat hout⟩
  · intro relL4 protocol b nat hports h hnat
    obtain ⟨d, hd⟩ := fieldDeltaV6_of_ports hports
    have hrun := applyNatIpv6_run h hd hnat rfl
    have hout := (applyNatIpv6_eq h hd hnat).symm.trans hrun
    exact ⟨_, hrun, hout, applyNatIpv6_inverse h hd hnat rfl hout⟩

/-- A UDP datagram from 10.0.0.1:1000 to 10.0.0.2:53. -/
def udpPacket4 : Bytes :=
  [0x45, 0, 0, 28, 0, 1, 0, 0, 64, 17, 102, 206, 10, 0, 0, 1, 10, 0, 0, 2,
    3, 232, 0, 53, 0, 8, 231, 190]

/-- Source NAT to 192.0.2.7:40000. -/
def sourceNat4 : NatDecision :=
  { rewriteSrc := some (.v4 ![192, 0, 2, 7]), rewriteSrcPort := some 40000 }

theorem natRewrite_exact_udp :
    ∃ out, (natAndHeader4 PROTO_UDP sourceNat4).run udpPacket4 = (some (), out)
      ∧ get16 out 20 = 40000 := by
  have hstd : Standard4 PROTO_UDP udpPacket4 := by
    refine ⟨?_, ?_, ?_, ?_, ?_⟩ <;> decide
  obtain ⟨out, hrun, hrec, -⟩ := natRewrite_exact.1 PROTO_UDP udpPacket4 sourceNat4 rfl hstd
  refine ⟨out, hrun, ?_⟩
  obtain rfl := (Prod.mk.inj hrec).2
  decide

/-- A UDP datagram behind an authentication header. -/
def ahUdpPacket6 : Bytes :=
  [0x60, 0, 0, 0, 0, 20, 51, 64, 0x20, 1, 0xd, 0xb8, 0, 0, 0, 0, 0, 0, 0, 0, 0, 0, 0, 1,
    0x20, 1, 0xd, 0xb8, 0, 0, 0, 0, 0, 0, 0, 0, 0, 0, 0, 2,
    17, 1, 0, 0, 0, 0, 0, 1, 0, 0, 0, 1, 3, 232, 0, 53, 0, 8, 160, 76]

/-- Its ports are not rewritten, by the gate in front of the leaf. -/
theorem natRewrite_ah_keeps_ports :
    ¬∀ (relL4 : ℕ) (protocol : UInt8) (b : Bytes) (nat : NatDecision),
      hasL4Ports protocol = true ∨ protocol = PROTO_ICMPV6 → Standard6 relL4 protocol b →
      nat.nptv6 = false →
      (applyNatIpv6 relL4 protocol nat false).run b
        = (recomputeL4ChecksumIpv6 relL4 protocol).run (natFields6 relL4 protocol nat b) := by
  intro hall
  have hstd : Standard6 52 PROTO_UDP ahUdpPacket6 := by
    refine ⟨?_, ?_, ?_, ?_⟩ <;> decide
  have heq := hall 52 PROTO_UDP ahUdpPacket6 { rewriteSrcPort := some 40000 } (.inl rfl) hstd rfl
  revert heq
  decide

end Xpf.Frames
