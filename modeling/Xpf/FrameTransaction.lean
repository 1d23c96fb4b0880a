/-
A declined in-place rewrite leaves UMEM as it was.

Both rewrites are transactions. Up to the end of the validation nothing is written; the
commit of the Ethernet header checks everything before its first write; and the half behind
it ends, because the validation has looked at everything a helper could give up on. What the
second half reads again (the header length of an IPv4 packet, after ports and identifiers
were repaired) is still what the validation has read.
-/
import Xpf.FrameSettles

set_option autoImplicit false

namespace Xpf.Frames

open Xpf.ByteBuffer Xpf.Edits Xpf.Edits.Edit

/-! ## What a validation has looked at -/

theorem validateGenericRewriteV4_eq_some {p : Bytes} {fpm : ForwardPacketMeta} {nat : NatDecision}
    {applyNat skipTtl : Bool}
    (h : validateGenericRewriteV4 p fpm nat applyNat skipTtl = some ()) :
    20 ≤ p.length ∧ (20 ≤ ipv4Ihl p 0 ∧ ipv4Ihl p 0 ≤ p.length)
      ∧ (skipTtl = true ∨ 1 < byteAt p 8)
      ∧ (applyNat = true → nat ≠ NatDecision.default → ipv4IsNonFirstFragment p = false →
          FieldIn (l4ChecksumFieldDeltaV4 fpm.protocol) (ipv4Ihl p 0) p.length) := by
  unfold validateGenericRewriteV4 at h
  by_cases hgates : ipv4Gates p skipTtl = true
  · rw [hgates, Bool.not_true, if_neg Bool.false_ne_true] at h
    simp only [ipv4Gates, Bool.and_eq_true, decide_eq_true_eq, Bool.or_eq_true] at hgates
    obtain ⟨⟨⟨hlen, hihl⟩, hihl'⟩, httl⟩ := hgates
    refine ⟨hlen, ⟨hihl, hihl'⟩, httl, fun happly hnat hf d hd => ?_⟩
    rw [if_pos (by simp [happly, hnat, hf]), hd] at h
    by_contra hshort
    dsimp only at h
    rw [if_pos (by omega)] at h
    cases h
  · rw [if_pos (by simpa using hgates)] at h
    cases h

theorem validateGenericRewriteV6_eq_some {p : Bytes} {fpm : ForwardPacketMeta} {nat : NatDecision}
    {applyNat skipTtl : Bool} {relL4 : ℕ}
    (h : validateGenericRewriteV6 p fpm nat applyNat skipTtl = some relL4) :
    40 ≤ p.length ∧ (skipTtl = true ∨ 1 < byteAt p 7)
      ∧ v6RelL4Offset p fpm.l3Offset fpm.l4Offset fpm.addrFamily = some relL4
      ∧ (applyNat = true → nat ≠ NatDecision.default → ipv6IsNonFirstFragment p = false →
          FieldIn (l4ChecksumFieldDeltaV6 fpm.protocol) relL4 p.length) := by
  unfold validateGenericRewriteV6 at h
  by_cases hlen : p.length < 40
  · rw [if_pos hlen] at h
    cases h
  rw [if_neg hlen] at h
  by_cases httl : !skipTtl && byteAt p 7 ≤ 1
  · rw [if_pos httl] at h
    cases h
  rw [if_neg httl] at h
  have httl' : skipTtl = true ∨ 1 < byteAt p 7 := by
    by_contra hno
    rw [not_or] at hno
    exact httl (by simp [hno.1, UInt8.not_lt.mp hno.2])
  split at h
  · cases h
  next rel hrel =>
    by_cases hnat : applyNat && nat ≠ NatDecision.default && !ipv6IsNonFirstFragment p
    · rw [if_pos hnat] at h
      split at h
      next delta hdelta =>
        split_ifs at h with hshort
        obtain rfl := Option.some.inj h
        refine ⟨by omega, httl', hrel, fun _ _ _ d hd => ?_⟩
        obtain rfl := Option.some.inj (hdelta.symm.trans hd)
        omega
      next hdelta =>
        obtain rfl := Option.some.inj h
        refine ⟨by omega, httl', hrel, fun _ _ _ d hd => ?_⟩
        rw [hdelta] at hd
        cases hd
    · rw [if_neg hnat] at h
      obtain rfl := Option.some.inj h
      refine ⟨by omega, httl', hrel, fun happly hne hf => ?_⟩
      exact absurd (by simp [happly, hne, hf]) hnat

/-! ## The committing half -/

section

variable {b : Bytes}

theorem restoreL4TupleFromMeta_ends (fpm : ForwardPacketMeta) (relL4 : ℕ)
    (nonFirstFragment : Bool) :
    Ends (restoreL4TupleFromMeta fpm relL4 nonFirstFragment) b fun repaired b' =>
      b'.length = b.length ∧ (repaired = true →
        (fpm.protocol = PROTO_ICMP ∨ fpm.protocol = PROTO_ICMPV6) ∧ relL4 + 6 ≤ b.length) := by
  have hfalse : Ends (pure false : Edit Bytes Bool) b fun repaired b' =>
      b'.length = b.length ∧ (repaired = true →
        (fpm.protocol = PROTO_ICMP ∨ fpm.protocol = PROTO_ICMPV6) ∧ relL4 + 6 ≤ b.length) :=
    ⟨false, b, rfl, rfl, by simp⟩
  unfold restoreL4TupleFromMeta
  split
  · exact hfalse
  · split
    · split
      · exact hfalse
      · exact writeIcmpIdentifier_ends _ _ _ _
    · exact hfalse

/-- The identifier is repaired behind the header, or it is not there. -/
theorem repaired_ends (fpm : ForwardPacketMeta) {start : ℕ} (relL4 : ℕ) (nonFirstFragment : Bool)
    (hb : start ≤ b.length) :
    Ends (unwrapOr (onTail start (restoreL4TupleFromMeta fpm relL4 nonFirstFragment)) false) b
      fun repaired b' => Below (start + relL4) b b' ∧ (repaired = true →
        (fpm.protocol = PROTO_ICMP ∨ fpm.protocol = PROTO_ICMPV6)
          ∧ relL4 + 6 ≤ (b.drop start).length) := by
  obtain ⟨repaired, t, hrun, -, hrep⟩ :=
    restoreL4TupleFromMeta_ends (b := b.drop start) fpm relL4 nonFirstFragment
  have htail : (onTail start (restoreL4TupleFromMeta fpm relL4 nonFirstFragment)).run b
      = (some repaired, b.take start ++ t) := by
    rw [onTail_run _ hb, hrun]
  have hkeeps : Keeps (Below (start + relL4))
      (onTail start (restoreL4TupleFromMeta fpm relL4 nonFirstFragment)) b :=
    onTail_keeps fun t' => restoreL4TupleFromMeta_keeps fpm nonFirstFragment le_rfl
  unfold Keeps at hkeeps
  rw [htail] at hkeeps
  exact ⟨repaired, _, unwrapOr_run_some false htail, hkeeps, hrep⟩

theorem enforced_ends (addrFamily protocol : UInt8) (expectedPorts : Option (UInt16 × UInt16))
    (nonFirstFragment : Bool) :
    Ends (unwrapOr (enforceExpectedPorts addrFamily protocol expectedPorts nonFirstFragment) false)
      b fun _ b' => Below 34 b b' :=
  Ends.unwrapOr (enforceExpectedPorts_keeps addrFamily protocol expectedPorts nonFirstFragment)

theorem decrement_settles (i : ℕ) : Settles (decrement i) b :=
  Settles.modify (length_writeAt _ _ _)

theorem ipv4Ihl_of_below {k : ℕ} {b' : Bytes} (h : Below k b b') {start : ℕ} (hk : start < k) :
    ipv4Ihl (b'.drop start) 0 = ipv4Ihl b start := by
  rw [ipv4Ihl, ipv4Ihl, byteAt_drop, Nat.add_zero, h.2 start hk]

/-- **The second half of the IPv4 rewrite ends** on a validated payload. -/
theorem rewriteApplyV4_settles {hdr p : Bytes} {fpm : ForwardPacketMeta} {nat : NatDecision}
    {applyNat skipTtl : Bool} (expectedPorts : Option (UInt16 × UInt16)) (hhdr : hdr.length ≤ 18)
    (h : validateGenericRewriteV4 p fpm nat applyNat skipTtl = some ()) :
    Settles (rewriteApplyV4 hdr.length fpm nat applyNat skipTtl expectedPorts) (hdr ++ p) := by
  obtain ⟨hlen, hihl, httl, hfield⟩ := validateGenericRewriteV4_eq_some h
  have hframe : (hdr ++ p).length = hdr.length + p.length := List.length_append
  have hbyte : ∀ i, byteAt (hdr ++ p) (hdr.length + i) = byteAt p i := byteAt_append_right hdr p
  have hihlAt : ipv4Ihl (hdr ++ p) hdr.length = ipv4Ihl p 0 := by
    have := hbyte 0
    rw [Nat.add_zero] at this
    rw [ipv4Ihl, ipv4Ihl, this]
  unfold rewriteApplyV4
  refine Settles.require_bind (by omega) (Settles.read_bind ?_)
  rw [hihlAt]
  refine Settles.require_bind (by omega) (Settles.read_bind ?_)
  rw [hbyte 8]
  refine Settles.require_bind httl (Settles.read_bind (Settles.read_bind (Settles.read_bind ?_)))
  rw [List.drop_left]
  -- the two repairs write behind the first byte of the header
  refine Ends.bind (repaired_ends fpm _ _ (by omega)) fun repaired b1 ⟨hb1, hrep⟩ => ?_
  refine Ends.bind (enforced_ends _ _ _ _) fun enforced b2 hb2 => ?_
  have hb : Below (hdr.length + 1) (hdr ++ p) b2 :=
    (hb1.mono (by omega)).trans (hb2.mono (by omega))
  have hb2len : b2.length = hdr.length + p.length := hb.1.trans hframe
  have htail : (b2.drop hdr.length).length = p.length := by
    rw [List.length_drop]
    omega
  have hihl2 : ipv4Ihl (b2.drop hdr.length) 0 = ipv4Ihl p 0 :=
    (ipv4Ihl_of_below hb (Nat.lt_succ_self _)).trans hihlAt
  rw [← hb.1]
  refine Settles.bind (Settles.doIf fun happly => Settles.onTail (by omega) ?_) fun _ b3 hb3 => ?_
  · refine applyNatIpv4_settles (by omega) (by omega) fun hnat hf => ?_
    rw [hihl2, htail]
    exact hfield happly hnat hf
  refine Settles.bind (Settles.doIf fun _ => decrement_settles _) fun _ b4 hb4 => ?_
  refine Settles.bind (Settles.onTail (by omega) (Settles.onHead ?_ ?_)) fun _ b5 hb5 => ?_
  · rw [List.length_drop]
    omega
  · apply adjustIpv4HeaderChecksum_settles
    rw [List.length_take, List.length_drop]
    omega
  refine Settles.doIf fun hboth => Settles.onTail (by omega) ?_
  rw [Bool.and_eq_true] at hboth
  exact recomputeL4ChecksumIpv4_settles _ (hrep hboth.1).1 (by rw [List.length_drop]; omega)

/-- **The second half of the IPv6 rewrite ends** on a validated payload. -/
theorem rewriteApplyV6_settles {hdr p : Bytes} {fpm : ForwardPacketMeta} {nat : NatDecision}
    {applyNat skipTtl : Bool} {relL4 : ℕ} (expectedPorts : Option (UInt16 × UInt16))
    (h : validateGenericRewriteV6 p fpm nat applyNat skipTtl = some relL4) :
    Settles (rewriteApplyV6 hdr.length fpm nat applyNat skipTtl expectedPorts) (hdr ++ p) := by
  obtain ⟨hlen, httl, hrel, hfield⟩ := validateGenericRewriteV6_eq_some h
  have hframe : (hdr ++ p).length = hdr.length + p.length := List.length_append
  unfold rewriteApplyV6
  refine Settles.require_bind (by omega) (Settles.require_bind ?_ ?_)
  · rw [byteAt_append_right]
    exact httl
  refine Settles.check_bind (by rw [List.drop_left]; exact hrel) (Settles.read_bind ?_)
  rw [List.drop_left]
  refine Ends.bind (repaired_ends fpm _ _ (by omega)) fun repaired b1 ⟨hb1, hrep⟩ => ?_
  refine Ends.bind (enforced_ends _ _ _ _) fun enforced b2 hb2 => ?_
  have hb : b2.length = (hdr ++ p).length := hb2.1.trans hb1.1
  have hb2len : b2.length = hdr.length + p.length := hb.trans hframe
  have htail : (b2.drop hdr.length).length = p.length := by
    rw [List.length_drop]
    omega
  rw [List.drop_left] at hrep
  rw [← hb]
  refine Settles.bind (Settles.doIf fun happly => Settles.onTail (by omega) ?_) fun _ b3 hb3 => ?_
  · refine applyNatIpv6_settles (by omega) fun hnat hf => ?_
    rw [htail]
    exact hfield happly hnat hf
  refine Settles.bind (Settles.doIf fun _ => decrement_settles _) fun _ b4 hb4 => ?_
  refine Settles.doIf fun hboth => Settles.onTail (by omega) ?_
  rw [Bool.and_eq_true] at hboth
  obtain ⟨hicmp, hin⟩ := hrep hboth.1
  exact recomputeL4ChecksumIpv6_settles hicmp (by rw [List.length_drop]; omega)
    (by rw [List.length_drop]; omega)

theorem rewriteApply_settles {hdr p : Bytes} {fpm : ForwardPacketMeta} {nat : NatDecision}
    {applyNat skipTtl : Bool} (expectedPorts : Option (UInt16 × UInt16)) (hhdr : hdr.length ≤ 18)
    (h : validateGenericRewrite p fpm nat applyNat skipTtl = some ()) :
    Settles (rewriteApply hdr.length fpm nat applyNat skipTtl expectedPorts) (hdr ++ p) := by
  unfold validateGenericRewrite at h
  unfold rewriteApply
  by_cases h4 : fpm.addrFamily = AF_INET
  · rw [if_pos h4] at h ⊢
    exact rewriteApplyV4_settles expectedPorts hhdr h
  · rw [if_neg h4] at h ⊢
    by_cases h6 : fpm.addrFamily = AF_INET6
    · rw [if_pos h6] at h ⊢
      obtain ⟨relL4, hrel, -⟩ := Option.map_eq_some_iff.mp h
      exact rewriteApplyV6_settles expectedPorts hrel
    · rw [if_neg h6] at h
      cases h

theorem clampSelected_ends (ipStart : ℕ) (addrFamily : UInt8) (selectedTcpMss : UInt16) :
    Ends (clampSelected ipStart addrFamily selectedTcpMss) b fun _ _ => True := by
  unfold clampSelected
  show Ends (doIf _ _) b _
  unfold doIf
  split
  · exact ⟨(), _, rfl, trivial⟩
  · exact ⟨(), _, rfl, trivial⟩

/-! ### The descriptor -/

theorem writeIfSome_settles {α : Type} {write : α → Edit Bytes Unit}
    (h : ∀ a b, Settles (write a) b) (value : Option α) : Settles (writeIfSome write value) b := by
  cases value with
  | none => exact Settles.pure ()
  | some a => exact h a b

theorem foldL4Checksum_settles (ip : ℕ) (field : Option ℕ) (protocol : UInt8)
    (family : ChecksumFamily) (delta : UInt16) :
    Settles (foldL4Checksum ip field protocol family delta) b := by
  cases field with
  | none => exact Settles.pure ()
  | some fieldOffset =>
    apply Settles.modify
    dsimp only
    split_ifs
    · rfl
    · exact length_put16 _ _ _

theorem applyRewriteDescriptorIpv4_settles (ip relL4 : ℕ) (field : Option ℕ)
    (skipTtl applyNat : Bool) (fpm : ForwardPacketMeta) (rd : RewriteDescriptor) :
    Settles (applyRewriteDescriptorIpv4 ip relL4 field skipTtl applyNat fpm rd) b := by
  unfold applyRewriteDescriptorIpv4
  dsimp only
  refine Settles.bind (Settles.doIf fun _ => ?_) fun _ b1 _ => ?_
  · exact (writeIfSome_settles (fun _ _ => writeAddr_settles _) _).bind
      fun _ _ _ => writeIfSome_settles (fun _ _ => writeAddr_settles _) _
  refine Settles.bind (Settles.doIf fun _ => ?_) fun _ b2 _ => ?_
  · exact (writeIfSome_settles (fun _ _ => writeL4SrcPort_settles _ _) _).bind
      fun _ _ _ => writeIfSome_settles (fun _ _ => writeL4DstPort_settles _ _) _
  refine Settles.bind (Settles.doIf fun _ => decrement_settles _) fun _ b3 _ => ?_
  refine Settles.bind (Settles.modify (length_put16 _ _ _)) fun _ b4 _ => ?_
  exact Settles.doIf fun _ => foldL4Checksum_settles _ _ _ _ _

theorem applyRewriteDescriptorIpv6_settles (ip relL4 : ℕ) (field : Option ℕ)
    (skipTtl applyNat : Bool) (fpm : ForwardPacketMeta) (rd : RewriteDescriptor) :
    Settles (applyRewriteDescriptorIpv6 ip relL4 field skipTtl applyNat fpm rd) b := by
  unfold applyRewriteDescriptorIpv6
  dsimp only
  refine Settles.bind (Settles.doIf fun _ => ?_) fun _ b1 _ => ?_
  · exact (writeIfSome_settles (fun _ _ => writeAddr_settles _) _).bind
      fun _ _ _ => writeIfSome_settles (fun _ _ => writeAddr_settles _) _
  refine Settles.bind (Settles.doIf fun _ => ?_) fun _ b2 _ => ?_
  · exact (writeIfSome_settles (fun _ _ => writeL4SrcPort_settles _ _) _).bind
      fun _ _ _ => writeIfSome_settles (fun _ _ => writeL4DstPort_settles _ _) _
  refine Settles.bind (Settles.doIf fun _ => decrement_settles _) fun _ b3 _ => ?_
  exact Settles.doIf fun _ => foldL4Checksum_settles _ _ _ _ _

/-- The descriptor half declines only an Ethernet type that the validation declines. -/
theorem applyDescriptor_settles {p : Bytes} {fpm : ForwardPacketMeta} {rd : RewriteDescriptor}
    {applyNat skipTtl : Bool} {expectedPorts : Option (UInt16 × UInt16)} {offsets : ℕ × Option ℕ}
    (h : validateRewriteDescriptor p fpm rd applyNat skipTtl expectedPorts = some offsets)
    (plan : EthRewritePlan) : Settles (applyDescriptor plan offsets.1 offsets.2 fpm rd) b := by
  unfold validateRewriteDescriptor at h
  dsimp only at h
  split at h
  · cases h
  unfold applyDescriptor
  by_cases h4 : rd.etherType = 0x0800
  · rw [if_pos h4]
    exact applyRewriteDescriptorIpv4_settles _ _ _ _ _ _ _
  · rw [if_neg h4] at h ⊢
    by_cases h6 : rd.etherType = 0x86dd
    · rw [if_pos h6]
      exact applyRewriteDescriptorIpv6_settles _ _ _ _ _ _ _
    · rw [if_neg h6] at h
      cases h

end

/-! ## The transactions -/

section

variable {area area' : MmapArea} {desc : XdpDesc} {plan : EthRewritePlan}
  {params : RewriteEthParams}

/-- After the commit, a program that ends on the header and the payload ends on the slice. -/
theorem onSliceMut_ends_of_commit {α : Type} {m : Edit Bytes α} {p : Bytes}
    (hfit : plan.Fits area desc params) (hp : plannedL3Payload area desc plan = some p)
    (hcommit : (rewriteCommitEthFromPlan desc plan params).run area = (some (), area'))
    (h : ∀ hdr : Bytes, hdr.length = plan.ethLen → Ends m (hdr ++ p) fun _ _ => True) :
    Ends (onSliceMut plan.txOffset plan.frameLen m) area' fun _ _ => True := by
  obtain ⟨old, hold, hslice⟩ := commit_spec hfit hcommit
  rw [← (hfit.plannedL3Payload_eq hp).1] at hslice
  exact Ends.within hslice (h _ ((length_headerOver params old).trans hold)) fun _ _ _ => trivial

theorem EthRewritePlan.Fits.ethLen_le (hfit : plan.Fits area desc params) : plan.ethLen ≤ 18 := by
  rw [hfit.ethLen]
  split_ifs <;> omega

/-- The generic rewrite once its validation and its commit have passed. -/
theorem genericRewrite_ends {fpm : ForwardPacketMeta} {nat : NatDecision} {p : Bytes}
    (expectedPorts : Option (UInt16 × UInt16)) (selectedTcpMss : UInt16)
    (hfit : plan.Fits area desc params) (hp : plannedL3Payload area desc plan = some p)
    (hval : validateGenericRewrite p fpm nat plan.applyNat plan.skipTtl = some ())
    (hcommit : (rewriteCommitEthFromPlan desc plan params).run area = (some (), area')) :
    Ends (do
        onSliceMut plan.txOffset plan.frameLen do
          rewriteApply plan.ethLen fpm nat plan.applyNat plan.skipTtl expectedPorts
          clampSelected plan.ethLen fpm.addrFamily selectedTcpMss
        pure (⟨plan.txOffset, plan.frameLen, plan.l2Rewrite⟩ : InPlaceRewriteResult))
      area' fun _ _ => True := by
  refine Ends.bind (onSliceMut_ends_of_commit hfit hp hcommit fun hdr hhdr => ?_)
    fun _ _ _ => ⟨_, _, rfl, trivial⟩
  rw [← hhdr]
  refine Ends.bind (rewriteApply_settles expectedPorts ?_ hval) fun _ b _ => ?_
  · rw [hhdr]
    exact hfit.ethLen_le
  · exact clampSelected_ends _ _ _

theorem rewriteForwardedFrameInPlace_intact (area : MmapArea) (desc : XdpDesc)
    (fpm : ForwardPacketMeta) (decision : SessionDecision) (applyNatOnFabric : Bool)
    (expectedPorts : Option (UInt16 × UInt16)) (selectedTcpMss : UInt16) :
    Intact (rewriteForwardedFrameInPlace desc fpm decision applyNatOnFabric expectedPorts
      selectedTcpMss) area := by
  unfold rewriteForwardedFrameInPlace
  refine Intact.check_bind fun params _ => Intact.check_bind fun plan hplan => ?_
  obtain ⟨-, -, -, -, -, -, hfit⟩ := rewritePlanEthFromParts_eq_some hplan
  refine Intact.check_bind fun _ hval => ?_
  obtain ⟨p, hp, hval⟩ := Option.bind_eq_some_iff.mp hval
  refine Intact.bind (rewriteCommitEthFromPlan_intact hfit) fun _ area' hcommit => ?_
  exact genericRewrite_ends expectedPorts selectedTcpMss hfit hp hval hcommit

theorem applyRewriteDescriptor_intact (area : MmapArea) (desc : XdpDesc) (fpm : ForwardPacketMeta)
    (rd : RewriteDescriptor) (expectedPorts : Option (UInt16 × UInt16)) :
    Intact (applyRewriteDescriptor desc fpm rd expectedPorts) area := by
  unfold applyRewriteDescriptor
  refine Intact.require_bind fun _ => Intact.require_bind fun _ => ?_
  refine Intact.check_bind fun plan hplan => ?_
  obtain ⟨-, -, -, -, -, -, hfit⟩ := rewritePlanEthFromParts_eq_some hplan
  refine Intact.check_bind fun offsets hval => ?_
  obtain ⟨p, hp, hval⟩ := Option.bind_eq_some_iff.mp hval
  refine Intact.bind (rewriteCommitEthFromPlan_intact hfit) fun _ area' hcommit => ?_
  refine Ends.bind (onSliceMut_ends_of_commit hfit hp hcommit fun hdr _ => ?_)
    fun _ _ _ => ⟨_, _, rfl, trivial⟩
  exact (applyDescriptor_settles hval plan).mono fun _ _ _ => trivial

end

/-- **A declined rewrite leaves the packet untouched.** For every mapping, frame, metadata,
decision or descriptor and expected ports: if an in-place rewrite returns `None`, UMEM is
byte for byte what it was. Whatever has been written, the rewrite returns. -/
theorem declined_rewrite_untouched (area : MmapArea) (desc : XdpDesc) (fpm : ForwardPacketMeta)
    (decision : SessionDecision) (applyNatOnFabric : Bool) (rd : RewriteDescriptor)
    (expectedPorts : Option (UInt16 × UInt16)) (selectedTcpMss : UInt16) :
    Intact (rewriteForwardedFrameInPlace desc fpm decision applyNatOnFabric expectedPorts
        selectedTcpMss) area
      ∧ Intact (applyRewriteDescriptor desc fpm rd expectedPorts) area :=
  ⟨rewriteForwardedFrameInPlace_intact area desc fpm decision applyNatOnFabric expectedPorts
    selectedTcpMss, applyRewriteDescriptor_intact area desc fpm rd expectedPorts⟩

end Xpf.Frames
