/-
The whole run of the segmenter.

The loop is at a multiple of the chunk size in every round but the last exit, so a run that
does not decline leaves one frame for every multiple below the length of the data
(`segmentAll_eq`). A datagram is never segmented in part: the TTL is the only thing a round
can decline for, and it is the same in every round. The numbers a `u16` counts the segments
with never saturate, since a datagram has fewer bytes than they have values.
-/
import Xpf.TcpSegmentFields

set_option autoImplicit false

namespace Xpf.Frames

open Xpf.ByteBuffer Xpf.Edits Xpf.Edits.Edit Xpf.OnesComplement

/-! ## Chunks -/

/-- `len.div_ceil(size)`. -/
def divCeil (len size : ℕ) : ℕ := (len + size - 1) / size

theorem lt_divCeil {len size k : ℕ} (h : 0 < size) : k < divCeil len size ↔ k * size < len := by
  rw [divCeil, ← Nat.succ_le_iff, Nat.le_div_iff_mul_le h, Nat.succ_mul]
  omega

/-- The chunks of a list, from chunk `k` on, are what the list has from there on. -/
theorem flatten_chunks {α : Type} (xs : List α) {size : ℕ} (h : 0 < size) (n : ℕ) : ∀ k,
    k + n = divCeil xs.length size →
    ((List.range' k n).map fun k => (xs.drop (k * size)).take size).flatten
      = xs.drop (k * size) := by
  induction n with
  | zero =>
    intro k hk
    have hge : ¬k * size < xs.length := by
      rw [← lt_divCeil h]
      omega
    rw [List.range'_zero, List.map_nil, List.flatten_nil, List.drop_of_length_le (Nat.not_lt.mp hge)]
  | succ n ih =>
    intro k hk
    have hnext : xs.drop ((k + 1) * size) = (xs.drop (k * size)).drop size := by
      rw [List.drop_drop, Nat.succ_mul]
    rw [List.range'_succ, List.map_cons, List.flatten_cons, ih (k + 1) (by omega), hnext,
      List.take_append_drop]

/-! ## The loop -/

/-- The frame of segment `k`. -/
def segmentFrame (len16 : ℕ → UInt16) (plan : SegmentPlan) (fpm : ForwardPacketMeta)
    (nat : NatDecision) (k : ℕ) : Bytes :=
  ethHeader plan.eth
    ++ segmentPacket len16 plan fpm nat (k * plan.segmentPayloadMax) (UInt16.ofNat k)

/-- How many segments a datagram has. -/
def segmentCount (plan : SegmentPlan) : ℕ := divCeil plan.data.length plan.segmentPayloadMax

section

variable {fpm : ForwardPacketMeta} {decision : SessionDecision} {mtu : ℕ} {plan : SegmentPlan}

theorem Planned.segmentCount_le (h : Planned fpm decision mtu plan) : segmentCount plan ≤ 65535 := by
  by_contra hno
  have hlt := (lt_divCeil h.pos).mp (Nat.not_le.mp hno)
  have hmax := h.length_data_le.1
  have hle : 65535 ≤ 65535 * plan.segmentPayloadMax := Nat.le_mul_of_pos_right _ h.pos
  omega

theorem chunkLen_mul {k : ℕ} (hk : k * plan.segmentPayloadMax < plan.data.length) :
    k * plan.segmentPayloadMax + plan.chunkLen (k * plan.segmentPayloadMax)
      = min ((k + 1) * plan.segmentPayloadMax) plan.data.length := by
  rw [SegmentPlan.chunkLen, Nat.succ_mul]
  omega

theorem saturatingSucc_ofNat {k : ℕ} (h : k < 65535) :
    saturatingSucc (UInt16.ofNat k) = UInt16.ofNat (k + 1) := by
  have hne : UInt16.ofNat k ≠ 0xFFFF := by
    intro heq
    have hval := congrArg UInt16.toNat heq
    rw [UInt16.toNat_ofNat', Nat.mod_eq_of_lt (by omega)] at hval
    change k = 65535 at hval
    omega
  rw [saturatingSucc, if_neg hne, UInt16.ofNat_add]
  rfl

theorem saturateLen16_toNat {n : ℕ} (h : n < 65536) : (saturateLen16 n).toNat = n := by
  rw [saturateLen16, if_pos h, UInt16.toNat_ofNat', Nat.mod_eq_of_lt h]

theorem segmentStep_dec (h : Planned fpm decision mtu plan) (nat : NatDecision)
    (s s' : SegmentLoop) (hs : segmentStep plan fpm nat s = .inl s') :
    plan.data.length - s'.dataOffset < plan.data.length - s.dataOffset := by
  have hpos := h.pos
  unfold segmentStep at hs
  split at hs
  · cases hs
  · dsimp only at hs
    split at hs
    · cases hs
    · obtain rfl := Sum.inl.inj hs
      dsimp only
      rw [SegmentPlan.chunkLen]
      omega

/-- One round of the loop, for a datagram that lives. -/
theorem Planned.segmentStep_round (h : Planned fpm decision mtu plan)
    (hvlan : decision.txVlanId < 0x1000) (hlives : plan.Lives fpm) (nat : NatDecision)
    {out : List Bytes} {k : ℕ} (hk : k * plan.segmentPayloadMax < plan.data.length) :
    segmentStep plan fpm nat ⟨out, k * plan.segmentPayloadMax, UInt16.ofNat k⟩
      = .inl ⟨out ++ [segmentFrame saturateLen16 plan fpm nat k],
          min ((k + 1) * plan.segmentPayloadMax) plan.data.length, UInt16.ofNat (k + 1)⟩ := by
  have hcount := h.segmentCount_le
  have hlt := (lt_divCeil h.pos).mpr hk
  rw [segmentCount] at hcount
  have hrun := (h.buildSegment_run hvlan saturateLen16 nat
    (b := List.replicate (plan.ethLen + plan.totalIpLen (k * plan.segmentPayloadMax)) 0)
    List.length_replicate (Nat.le_of_lt hk) (UInt16.ofNat k)).1 hlives
  rw [segmentStep, if_neg (Nat.not_le.mpr hk)]
  dsimp only
  rw [hrun]
  dsimp only
  rw [chunkLen_mul hk, saturatingSucc_ofNat (by omega), segmentFrame]

/-- **The loop**: one frame for every segment, or none at all. -/
theorem Planned.segmentAll_eq (h : Planned fpm decision mtu plan)
    (hvlan : decision.txVlanId < 0x1000) (nat : NatDecision) :
    (plan.Lives fpm → segmentAll plan fpm nat
        = some ((List.range' 0 (segmentCount plan)).map (segmentFrame saturateLen16 plan fpm nat)))
      ∧ (¬plan.Lives fpm → segmentAll plan fpm nat = none) := by
  have hpos := h.pos
  have hlong := h.long
  constructor
  · intro hlives
    -- in round `k` the loop is at the `k`-th multiple, or at the end
    have hrun := @Loop.run_induct _ _ _ (fun _ => none) _ (segmentStep_dec h nat)
      (motive := fun s r => ∀ k, k ≤ segmentCount plan →
        s.dataOffset = min (k * plan.segmentPayloadMax) plan.data.length →
        s.segmentIndex = UInt16.ofNat k →
        r = some (s.out ++ (List.range' k (segmentCount plan - k)).map
          (segmentFrame saturateLen16 plan fpm nat)))
      ?_ ?_ ⟨[], 0, 0⟩
    · exact hrun 0 (Nat.zero_le _) (by simp) rfl
    · rintro ⟨out, off, idx⟩ r hs k hle hoff hidx
      dsimp only at hoff hidx
      subst hidx
      have hend : ¬k * plan.segmentPayloadMax < plan.data.length := by
        intro hk
        rw [hoff, Nat.min_eq_left (Nat.le_of_lt hk), h.segmentStep_round hvlan hlives nat hk] at hs
        cases hs
      have hcount : segmentCount plan - k = 0 := by
        rw [segmentCount]
        have := mt (lt_divCeil hpos).mp hend
        omega
      rw [segmentStep, if_pos (by dsimp only; omega)] at hs
      rw [← Sum.inr.inj hs, hcount, List.range'_zero, List.map_nil, List.append_nil]
    · rintro ⟨out, off, idx⟩ s' r hs ih k hle hoff hidx
      dsimp only at hoff hidx
      subst hidx
      have hk : k * plan.segmentPayloadMax < plan.data.length := by
        by_contra hno
        rw [segmentStep, if_pos (by dsimp only; omega)] at hs
        cases hs
      have hlt : k < segmentCount plan := (lt_divCeil hpos).mpr hk
      rw [hoff, Nat.min_eq_left (Nat.le_of_lt hk), h.segmentStep_round hvlan hlives nat hk] at hs
      obtain rfl := Sum.inl.inj hs
      have hsucc : segmentCount plan - k = (segmentCount plan - (k + 1)) + 1 := by omega
      rw [ih (k + 1) (by omega) rfl rfl, hsucc, List.range'_succ, List.map_cons, List.append_assoc,
        List.singleton_append]
  · intro hdead
    obtain ⟨b, hnone, -⟩ := (h.buildSegment_run hvlan saturateLen16 nat
      (b := List.replicate (plan.ethLen + plan.totalIpLen 0) 0) List.length_replicate
      (Nat.zero_le _) 0).2 hdead
    apply Loop.run_inr
    rw [segmentStep, if_neg (by dsimp only; omega)]
    dsimp only
    rw [hnone]

theorem Planned.last_iff (h : Planned fpm decision mtu plan) {k : ℕ} (hk : k < segmentCount plan) :
    k * plan.segmentPayloadMax + plan.chunkLen (k * plan.segmentPayloadMax) = plan.data.length
      ↔ k + 1 = segmentCount plan := by
  have hlt := (lt_divCeil h.pos).mp hk
  have hnext : k + 1 < segmentCount plan ↔ (k + 1) * plan.segmentPayloadMax < plan.data.length :=
    lt_divCeil h.pos
  rw [chunkLen_mul hlt]
  omega

/-- The data of the frames, one behind the other. -/
theorem Planned.flatten_data (h : Planned fpm decision mtu plan)
    (hvlan : decision.txVlanId < 0x1000) (len16 : ℕ → UInt16) (nat : NatDecision) :
    (((List.range' 0 (segmentCount plan)).map (segmentFrame len16 plan fpm nat)).map
      fun f => f.drop (plan.ethLen + plan.headersLen)).flatten = plan.data := by
  have heth : (ethHeader plan.eth).length = plan.ethLen := length_ethHeader (by rwa [h.vlan])
  have hchunks := flatten_chunks plan.data h.pos (segmentCount plan) 0 (Nat.zero_add _)
  rw [Nat.zero_mul, List.drop_zero] at hchunks
  rw [List.map_map]
  refine Eq.trans ?_ hchunks
  congr 1
  apply List.map_congr_left
  intro k hk
  have hlt : k < segmentCount plan := by
    have := List.mem_range'_1.mp hk
    omega
  have hoff := (lt_divCeil h.pos).mp hlt
  rw [Function.comp_apply, segmentFrame, ← heth, ← List.drop_drop, List.drop_left,
    h.drop_packet (Nat.le_of_lt hoff), SegmentPlan.chunkLen, sub, Nat.min_comm, ← List.length_drop,
    List.take_eq_take_iff]
  omega

/-- The Identifications of fragmentable segments are distinct. -/
theorem Planned.ids_nodup (h : Planned fpm decision mtu plan) (hvlan : decision.txVlanId < 0x1000)
    (hfam : fpm.addrFamily = AF_INET) (hdf : byteAt plan.payload 6 &&& 0x40 = 0) (nat : NatDecision) :
    (((List.range' 0 (segmentCount plan)).map (segmentFrame saturateLen16 plan fpm nat)).map
      fun f => get16 (f.drop plan.ethLen) 4).Nodup := by
  have heth : (ethHeader plan.eth).length = plan.ethLen := length_ethHeader (by rwa [h.vlan])
  have hcount := h.segmentCount_le
  rw [List.map_map]
  apply List.Nodup.map_on _ List.nodup_range'
  intro j hj k hk heq
  rw [List.mem_range'_1] at hj hk
  have hid : ∀ i, i < segmentCount plan →
      get16 ((segmentFrame saturateLen16 plan fpm nat i).drop plan.ethLen) 4
        = get16 plan.payload 4 + UInt16.ofNat i := by
    intro i hi
    have hoff := Nat.le_of_lt ((lt_divCeil h.pos).mp hi)
    have hseg : Ipv4Segment plan (fabricIngress fpm) (inForce plan.eth.applyNat nat) i
        (segmentPacket saturateLen16 plan fpm nat (i * plan.segmentPayloadMax) (UInt16.ofNat i)) :=
      h.ipv4Segment hfam (fun n => saturateLen16_toNat) hoff i
    rw [segmentFrame, ← heth, List.drop_left, hseg.id, if_pos hdf]
  rw [Function.comp_apply, Function.comp_apply, hid j (by omega), hid k (by omega),
    UInt16.add_right_inj] at heq
  have hval := congrArg UInt16.toNat heq
  rwa [UInt16.toNat_ofNat', UInt16.toNat_ofNat', Nat.mod_eq_of_lt (by omega),
    Nat.mod_eq_of_lt (by omega)] at hval

end

/-- A frame with ten bytes of data, urgent up to the seventh, a sequence number about to wrap,
and two bytes of padding behind the datagram. -/
def finFrame : Bytes :=
  [2, 0, 0, 0, 0, 1, 2, 0, 0, 0, 0, 2, 8, 0]
    ++ [0x45, 0, 0, 50, 0x12, 0x34, 0, 0, 64, 6, 0, 0, 10, 0, 0, 1, 10, 0, 0, 2]
    ++ [0x1F, 0x90, 0, 80, 0xFF, 0xFF, 0xFF, 0xFE, 0, 0, 0, 1, 0x50, 0xB9, 1, 0, 0, 0, 0, 7]
    ++ [1, 2, 3, 4, 5, 6, 7, 8, 9, 10] ++ [0, 0]

def finMeta : ForwardPacketMeta := ⟨14, 34, 66, AF_INET, PROTO_TCP, 0, 0⟩

def finDecision : SessionDecision :=
  { disposition := .forwardCandidate
    neighborMac := some fun _ => 4
    srcMac := some fun _ => 5
    txVlanId := 0
    nat := { rewriteSrc := some (.v4 fun _ => 9), rewriteSrcPort := some 4000 } }

end Xpf.Frames
