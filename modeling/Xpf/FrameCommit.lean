/-
The plan of an in-place rewrite and its commit: what is in UMEM between the validation
and the rewrite of the packet.

A plan that was made on a frame fits it (`EthRewritePlan.Fits`), and the commit of such a
plan either declines before it has written anything or leaves, at the offset and length of
the plan, an Ethernet header followed by the L3 payload the validation has read, byte for
byte (`commit_spec`). Whether the payload was moved, or the header put where the descriptor
starts earlier or later, makes no difference to that.
-/
import Xpf.FrameRewrite

set_option autoImplicit false

namespace Xpf.Frames

open Xpf.ByteBuffer Xpf.Edits Xpf.Edits.Edit

/-! ## Slices of the mapping -/

theorem slice_eq_some {area t : Bytes} {offset len : ℕ} (h : slice area offset len = some t) :
    offset + len ≤ area.length ∧ offset % 4096 + len ≤ 4096 ∧ t = sub area offset len := by
  unfold slice at h
  by_cases hs : offset + len ≤ area.length ∧ frameContained offset len
  · rw [if_pos hs] at h
    obtain ⟨hle, hc⟩ := hs
    unfold frameContained UMEM_FRAME_SIZE at hc
    split_ifs at hc
    exact ⟨hle, of_decide_eq_true hc, (Option.some.inj h).symm⟩
  · rw [if_neg hs] at h
    simp at h

theorem slice_of_le {area : Bytes} {offset len : ℕ} (hle : offset + len ≤ area.length)
    (hc : offset % 4096 + len ≤ 4096) : slice area offset len = some (sub area offset len) := by
  unfold slice frameContained UMEM_FRAME_SIZE
  rw [if_neg (show ¬4096 < len by omega), if_pos ⟨hle, by simpa using hc⟩]

/-- The bytes just written, or their first ones. -/
theorem sub_writeAt_self {b t : Bytes} {i n : ℕ} (hn : n ≤ t.length)
    (h : i + t.length ≤ b.length) : sub (writeAt b i t) i n = t.take n := by
  apply ext
  · rw [length_sub (by rw [length_writeAt]; omega), List.length_take]
    omega
  · intro j hj
    rw [length_sub (by rw [length_writeAt]; omega)] at hj
    rw [byteAt_sub _ _ hj, byteAt_writeAt, if_pos (by omega), byteAt_take hj]
    congr 1
    omega

/-! ## Plans -/

/-- What the plan of a frame knows about it. -/
structure EthRewritePlan.Fits (plan : EthRewritePlan) (area : MmapArea) (desc : XdpDesc)
    (params : RewriteEthParams) : Prop where
  inArea : desc.addr.toNat + desc.len.toNat ≤ area.length
  payload : plan.l3 + plan.payloadLen ≤ desc.len.toNat
  ethLen : plan.ethLen = if 0 < params.vlanId then 18 else 14
  frameLen : plan.frameLen = plan.ethLen + plan.payloadLen
  view : classifyInPlaceL2Rewrite desc.addr.toNat plan.l3 plan.ethLen plan.frameLen
    = some (plan.txOffset, plan.l2Rewrite)

/-- **What a plan is made of.** The first four are the same for every target Ethernet
header. -/
theorem rewritePlanEthFromParts_eq_some {area : MmapArea} {desc : XdpDesc}
    {fpm : ForwardPacketMeta} {params : RewriteEthParams} {plan : EthRewritePlan}
    (h : rewritePlanEthFromParts area desc fpm params = some plan) :
    ∃ frame, slice area desc.addr.toNat desc.len.toNat = some frame
      ∧ nibbleCheckedL3 frame fpm.l3Offset fpm.addrFamily = some ⟨plan.l3, plan.stampTrusted⟩
      ∧ plan.payloadLen = (trimL3Payload (frame.drop plan.l3)
          (cohereOffsets fpm plan.l3 plan.stampTrusted)).length
      ∧ plan.skipTtl = decide (fpm.metaFlags &&& 0x80 ≠ 0)
      ∧ plan.applyNat = params.applyNat
      ∧ plan.Fits area desc params := by
  simp only [rewritePlanEthFromParts, Option.bind_eq_bind, Option.bind_eq_some_iff] at h
  obtain ⟨frame, hframe, checked, hchecked, h⟩ := h
  obtain ⟨hle, -, rfl⟩ := slice_eq_some hframe
  by_cases hl3 : desc.len.toNat ≤ checked.l3
  · rw [if_pos hl3] at h
    simp at h
  · rw [if_neg hl3] at h
    obtain ⟨⟨tx, l2⟩, hclass, h⟩ := Option.bind_eq_some_iff.mp h
    obtain rfl := Option.some.inj h
    refine ⟨_, hframe, hchecked, rfl, rfl, rfl, hle, ?_, rfl, rfl, hclass⟩
    have htrim := length_trimL3Payload_le
      ((sub area desc.addr.toNat desc.len.toNat).drop checked.l3)
      (cohereOffsets fpm checked.l3 checked.stampTrusted)
    rw [List.length_drop, length_sub hle] at htrim
    dsimp only
    omega

section

variable {area : MmapArea} {desc : XdpDesc} {params : RewriteEthParams} {plan : EthRewritePlan}

/-- The payload the validation reads. -/
theorem EthRewritePlan.Fits.plannedL3Payload_eq (hfit : plan.Fits area desc params) {p : Bytes}
    (h : plannedL3Payload area desc plan = some p) :
    p = sub area (desc.addr.toNat + plan.l3) plan.payloadLen ∧ p.length = plan.payloadLen := by
  unfold plannedL3Payload at h
  obtain ⟨frame, hframe, h⟩ := Option.bind_eq_some_iff.mp h
  obtain ⟨hle, -, rfl⟩ := slice_eq_some hframe
  obtain ⟨-, rfl⟩ := getRange_eq_some h
  have hpay := hfit.payload
  have harea := hfit.inArea
  rw [sub_sub area hpay]
  exact ⟨rfl, length_sub (by omega)⟩

/-- The header fits in front of the payload: a VLAN id whose twelve bits are zero is written
without a tag, into the room for one. -/
theorem EthRewritePlan.Fits.ethHeader_le (hfit : plan.Fits area desc params) :
    (ethHeader params).length ≤ plan.ethLen := by
  rw [hfit.ethLen, ethHeader]
  by_cases hv : params.vlanId &&& 0x0fff ≠ 0
  · have hpos : 0 < params.vlanId := by
      rcases Nat.eq_zero_or_pos params.vlanId.toNat with h0 | h0
      · exfalso
        apply hv
        rw [show params.vlanId = 0 from UInt16.toNat_inj.mp h0]
        decide
      · exact UInt16.lt_iff_toNat_lt.mpr h0
    simp [hv, hpos]
  · simp only [hv, if_false, List.append_nil, List.length_append, List.length_ofFn, length_toBe]
    split_ifs <;> omega

/-- Without a move, the payload starts where it did. -/
theorem classify_stays {rx l3 ethLen frameLen tx : ℕ} {l2 : InPlaceL2Rewrite}
    (h : classifyInPlaceL2Rewrite rx l3 ethLen frameLen = some (tx, l2))
    (hl2 : ¬(l2 = .vlanPushMemmoveNoHeadroom ∨ l2 = .unsupportedMemmove)) :
    tx + ethLen = rx + l3 := by
  unfold classifyInPlaceL2Rewrite at h
  split_ifs at h <;> simp only [Option.some.injEq, Prod.mk.injEq] at h <;>
    obtain ⟨rfl, rfl⟩ := h <;> first | omega | simp at hl2

/-- With a move, the frame is sent from where it was received. -/
theorem classify_moves {rx l3 ethLen frameLen tx : ℕ} {l2 : InPlaceL2Rewrite}
    (h : classifyInPlaceL2Rewrite rx l3 ethLen frameLen = some (tx, l2))
    (hl2 : l2 = .vlanPushMemmoveNoHeadroom ∨ l2 = .unsupportedMemmove) : tx = rx := by
  unfold classifyInPlaceL2Rewrite at h
  split_ifs at h <;> simp only [Option.some.injEq, Prod.mk.injEq] at h <;>
    obtain ⟨rfl, rfl⟩ := h <;> first | rfl | simp at hl2

/-! ## The commit -/

/-- The header of a plan, over the bytes that stood in its place. -/
def headerOver (params : RewriteEthParams) (old : Bytes) : Bytes := writeAt old 0 (ethHeader params)

theorem onHead_writeEthHeaderSlice_run {b : Bytes} (hfit : plan.Fits area desc params)
    (hb : plan.ethLen ≤ b.length) :
    (onHead plan.ethLen (writeEthHeaderSlice params)).run b
      = (some (), headerOver params (b.take plan.ethLen) ++ b.drop plan.ethLen) := by
  have hhdr : (ethHeader params).length ≤ (b.take plan.ethLen).length := by
    rw [List.length_take, Nat.min_eq_left hb]
    exact hfit.ethHeader_le
  rw [onHead_run _ hb, writeEthHeaderSlice, require_bind_run, if_pos hhdr, modify_run]
  rfl

theorem moveAndWriteHeader_run {b : Bytes} (hfit : plan.Fits area desc params)
    (hb : plan.frameLen ≤ b.length ∧ plan.l3 + plan.payloadLen ≤ b.length) :
    (moveAndWriteHeader plan params).run b
      = (some (), headerOver params ((writeAt b plan.ethLen (sub b plan.l3 plan.payloadLen)).take
            plan.ethLen)
          ++ (writeAt b plan.ethLen (sub b plan.l3 plan.payloadLen)).drop plan.ethLen) := by
  have hlen := hfit.frameLen
  rw [moveAndWriteHeader, require_bind_run, if_pos hb, modify_bind_run]
  exact onHead_writeEthHeaderSlice_run hfit (by rw [length_writeAt]; omega)

theorem moveAndWriteHeader_intact (hfit : plan.Fits area desc params) (b : Bytes) :
    Intact (moveAndWriteHeader plan params) b := by
  by_cases hb : plan.frameLen ≤ b.length ∧ plan.l3 + plan.payloadLen ≤ b.length
  · exact (Ends.of_run (Q := fun _ _ => True) (moveAndWriteHeader_run hfit hb) trivial).intact
  · intro _
    rw [moveAndWriteHeader, require_bind_run, if_neg hb]

theorem onSliceMut_intact {α : Type} {offset len : ℕ} {m : Edit Bytes α}
    (h : ∀ t, slice area offset len = some t → Intact m t) : Intact (onSliceMut offset len m) area :=
  Intact.within (fun t ht => by
    obtain ⟨hle, -, rfl⟩ := slice_eq_some ht
    apply writeAt_self
    intro k hk
    rw [length_sub hle] at hk
    exact byteAt_sub area offset hk) h

/-- The commit writes only after its last check. -/
theorem rewriteCommitEthFromPlan_intact (hfit : plan.Fits area desc params) :
    Intact (rewriteCommitEthFromPlan desc plan params) area := by
  unfold rewriteCommitEthFromPlan
  split
  · exact onSliceMut_intact fun t _ => moveAndWriteHeader_intact hfit t
  · apply onSliceMut_intact
    intro t ht
    obtain ⟨hle, -, rfl⟩ := slice_eq_some ht
    have hlen := hfit.frameLen
    have hb : plan.ethLen ≤ (sub area plan.txOffset plan.frameLen).length := by
      rw [length_sub hle]
      omega
    exact (Ends.of_run (Q := fun _ _ => True) (onHead_writeEthHeaderSlice_run hfit hb)
      trivial).intact

theorem length_headerOver (params : RewriteEthParams) (old : Bytes) :
    (headerOver params old).length = old.length :=
  length_writeAt _ _ _

/-- **What a commit leaves**: the header, and behind it the payload as it was received. -/
theorem commit_spec {area' : MmapArea} (hfit : plan.Fits area desc params)
    (h : (rewriteCommitEthFromPlan desc plan params).run area = (some (), area')) :
    ∃ old, old.length = plan.ethLen
      ∧ slice area' plan.txOffset plan.frameLen
        = some (headerOver params old
            ++ sub area (desc.addr.toNat + plan.l3) plan.payloadLen) := by
  have hlen := hfit.frameLen
  unfold rewriteCommitEthFromPlan at h
  split at h
  next hl2 =>
    obtain ⟨t, t', ht, hrun, rfl⟩ := within_eq_some h
    obtain ⟨hle, hc, rfl⟩ := slice_eq_some ht
    have hmoves := classify_moves hfit.view hl2
    generalize hchunk : UMEM_FRAME_SIZE - desc.addr.toNat % UMEM_FRAME_SIZE = chunk at *
    have htlen := length_sub hle
    have hb : plan.frameLen ≤ (sub area desc.addr.toNat chunk).length
        ∧ plan.l3 + plan.payloadLen ≤ (sub area desc.addr.toNat chunk).length := by
      by_contra hb
      rw [moveAndWriteHeader, require_bind_run, if_neg hb] at hrun
      simp at hrun
    rw [moveAndWriteHeader_run hfit hb] at hrun
    obtain ⟨-, rfl⟩ := Prod.mk.inj hrun
    rw [htlen] at hb
    generalize hmoved : writeAt (sub area desc.addr.toNat chunk) plan.ethLen
      (sub (sub area desc.addr.toNat chunk) plan.l3 plan.payloadLen) = moved
    have hmlen : moved.length = chunk := by rw [← hmoved, length_writeAt, htlen]
    have hold : (moved.take plan.ethLen).length = plan.ethLen := by
      rw [List.length_take]
      omega
    have hplen : (sub (sub area desc.addr.toNat chunk) plan.l3 plan.payloadLen).length
        = plan.payloadLen := length_sub (by omega)
    -- the payload of the moved frame is the payload that was moved
    have hpay : (moved.drop plan.ethLen).take plan.payloadLen
        = sub area (desc.addr.toNat + plan.l3) plan.payloadLen := by
      rw [← hmoved]
      change sub (writeAt _ _ _) _ _ = _
      rw [sub_writeAt_self (by omega) (by omega), List.take_of_length_le (by omega),
        sub_sub area (by omega)]
    have hnew : (headerOver params (moved.take plan.ethLen) ++ moved.drop plan.ethLen).length
        = chunk := by
      rw [List.length_append, length_headerOver, hold, List.length_drop, hmlen]
      omega
    refine ⟨moved.take plan.ethLen, hold, ?_⟩
    rw [hmoves, slice_of_le (by rw [length_writeAt]; omega) (by omega),
      sub_writeAt_self (by omega) (by omega), hlen, List.take_append,
      length_headerOver, hold, Nat.add_sub_cancel_left, hpay, List.take_of_length_le
      (by rw [length_headerOver]; omega)]
  next hl2 =>
    obtain ⟨t, t', ht, hrun, rfl⟩ := within_eq_some h
    obtain ⟨hle, hc, rfl⟩ := slice_eq_some ht
    have hstays := classify_stays hfit.view hl2
    have htlen := length_sub hle
    rw [onHead_writeEthHeaderSlice_run hfit (by omega)] at hrun
    obtain ⟨-, rfl⟩ := Prod.mk.inj hrun
    have hold : ((sub area plan.txOffset plan.frameLen).take plan.ethLen).length = plan.ethLen := by
      rw [List.length_take]
      omega
    have hpay : (sub area plan.txOffset plan.frameLen).drop plan.ethLen
        = sub area (desc.addr.toNat + plan.l3) plan.payloadLen := by
      rw [← hstays, sub, sub, List.drop_take, List.drop_drop, hlen, Nat.add_sub_cancel_left]
    rw [hpay]
    have hplen : (sub area (desc.addr.toNat + plan.l3) plan.payloadLen).length
        = plan.payloadLen := length_sub (by omega)
    refine ⟨_, hold, ?_⟩
    rw [slice_of_le (by rw [length_writeAt]; omega) hc, sub_writeAt_self, List.take_of_length_le]
    · rw [List.length_append, length_headerOver, hold, hplen]
      omega
    · rw [List.length_append, length_headerOver, hold, hplen]
      omega
    · rw [List.length_append, length_headerOver, hold, hplen]
      omega

end

end Xpf.Frames
