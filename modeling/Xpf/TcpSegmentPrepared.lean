/-
The twin builder, which segments into free TX frames of the UMEM:
`userspace-dp/src/afxdp/tx/tcp_segmentation.rs`.

It takes one free frame for every segment and builds the segment in it, over whatever the
frame held. A round can fail with frames already taken, and then it hands them all back. So
there are two things to show: that no frame is lost or handed out twice on any path
(`prepared_frames`), and that what stands in the frames at the end are the frames of the
copying builder (`prepared_agrees`).

Where the pool is too small for the whole datagram, the source first drains the pending
queue; the pool here is the one that leaves. The bound on the pending queue is applied to
the queue after the batch has been appended, and is left out.
-/
import Xpf.TcpSegmentRuns

set_option autoImplicit false

namespace Xpf.Frames

open Xpf.ByteBuffer Xpf.Edits Xpf.Edits.Edit Xpf.OnesComplement

/-- `PreparedTxRequest`, the place of the frame. -/
structure PreparedTxRequest where
  offset : ℕ
  len : ℕ
deriving DecidableEq

/-- The UMEM of a binding and the part of its TX pipeline the builder uses. -/
structure TxPipeline where
  area : MmapArea
  freeTxFrames : List ℕ
  pendingTxPrepared : List PreparedTxRequest

/-- The variables of the loop. -/
structure PreparedLoop where
  area : MmapArea
  freeTxFrames : List ℕ
  prepared : List PreparedTxRequest
  totalBytes : ℕ
  maxFrame : ℕ
  dataOffset : ℕ
  segmentIndex : UInt16

/-- `for req in prepared.drain(..).rev() { free_tx_frames.push_front(req.offset) }`. -/
def handBack (prepared : List PreparedTxRequest) (freeTxFrames : List ℕ) : List ℕ :=
  prepared.reverse.foldl (fun free req => req.offset :: free) freeTxFrames

/-- How the loop ends: declined, or with a batch; and what it leaves. -/
structure PreparedExit where
  built : Option (List PreparedTxRequest × ℕ × ℕ)
  area : MmapArea
  freeTxFrames : List ℕ

/-- One round of `segment_forwarded_tcp_frames_into_prepared`. -/
def preparedStep (plan : SegmentPlan) (fpm : ForwardPacketMeta) (nat : NatDecision)
    (s : PreparedLoop) : PreparedLoop ⊕ PreparedExit :=
  if plan.data.length ≤ s.dataOffset then
    .inr ⟨some (s.prepared, s.totalBytes, s.maxFrame), s.area, s.freeTxFrames⟩
  else
    let frameLen := plan.ethLen + plan.totalIpLen s.dataOffset
    if UMEM_FRAME_SIZE < frameLen then .inr ⟨none, s.area, handBack s.prepared s.freeTxFrames⟩
    else
      match s.freeTxFrames with
      | [] => .inr ⟨none, s.area, handBack s.prepared []⟩
      | txOffset :: free =>
        match (onSliceMut txOffset frameLen
          (buildSegment UInt16.ofNat plan fpm nat s.dataOffset s.segmentIndex)).run s.area with
        | (none, area) => .inr ⟨none, area, handBack s.prepared (txOffset :: free)⟩
        | (some _, area) =>
          .inl
            { area
              freeTxFrames := free
              prepared := s.prepared ++ [⟨txOffset, frameLen⟩]
              totalBytes := s.totalBytes + frameLen
              maxFrame := max s.maxFrame frameLen
              dataOffset := s.dataOffset + plan.chunkLen s.dataOffset
              segmentIndex := saturatingSucc s.segmentIndex }

/-- The loop of `segment_forwarded_tcp_frames_into_prepared`. -/
def prepareAll (plan : SegmentPlan) (fpm : ForwardPacketMeta) (nat : NatDecision) (area : MmapArea)
    (freeTxFrames : List ℕ) : PreparedExit :=
  Loop.run (preparedStep plan fpm nat) (fun s => ⟨none, s.area, s.freeTxFrames⟩)
    (fun s => plan.data.length - s.dataOffset) ⟨area, freeTxFrames, [], 0, 0, 0, 0⟩

/-- `segment_forwarded_tcp_frames_into_prepared`: the number of segments, their bytes and the
longest of them. -/
def segmentForwardedTcpFramesIntoPrepared (tx : TxPipeline) (frame : Bytes)
    (fpm : ForwardPacketMeta) (decision : SessionDecision) (interfaceMtu routeMtu : ℕ)
    (applyNatOnFabric : Bool) (expectedPorts : Option (UInt16 × UInt16)) :
    Option (ℕ × ℕ × ℕ) × TxPipeline :=
  match segmentPlan frame fpm decision interfaceMtu routeMtu applyNatOnFabric expectedPorts with
  | none => (none, tx)
  | some plan =>
    let segmentCount := divCeil plan.data.length plan.segmentPayloadMax
    if tx.freeTxFrames.length < segmentCount then (none, tx)
    else
      let exit := prepareAll plan fpm decision.nat tx.area tx.freeTxFrames
      match exit.built with
      | none => (none, { tx with area := exit.area, freeTxFrames := exit.freeTxFrames })
      | some (prepared, totalBytes, maxFrame) =>
        (some (segmentCount, totalBytes, maxFrame),
          ⟨exit.area, exit.freeTxFrames, tx.pendingTxPrepared ++ prepared⟩)

/-! ## Frames are neither lost nor handed out twice -/

theorem handBack_eq (prepared : List PreparedTxRequest) (freeTxFrames : List ℕ) :
    handBack prepared freeTxFrames = prepared.map PreparedTxRequest.offset ++ freeTxFrames := by
  rw [handBack, List.foldl_reverse]
  induction prepared with
  | nil => rfl
  | cons req rest ih => rw [List.foldr_cons, ih, List.map_cons, List.cons_append]

/-- What an exit accounts for: the frames of the batch, in order, and the free ones. -/
def PreparedExit.frames (exit : PreparedExit) : List ℕ :=
  ((exit.built.map fun b => b.1.map PreparedTxRequest.offset).getD []) ++ exit.freeTxFrames

/-- The bytes of a batch. -/
def batchBytes (batch : List PreparedTxRequest) : ℕ := (batch.map PreparedTxRequest.len).sum

/-- The longest frame of a batch. -/
def longest (batch : List PreparedTxRequest) : ℕ := (batch.map PreparedTxRequest.len).foldl max 0

theorem batchBytes_concat (batch : List PreparedTxRequest) (req : PreparedTxRequest) :
    batchBytes (batch ++ [req]) = batchBytes batch + req.len := by
  rw [batchBytes, List.map_append, List.sum_append, List.map_singleton, List.sum_singleton,
    batchBytes]

theorem longest_concat (batch : List PreparedTxRequest) (req : PreparedTxRequest) :
    longest (batch ++ [req]) = max (longest batch) req.len := by
  rw [longest, List.map_append, List.foldl_append, List.map_singleton, List.foldl_cons,
    List.foldl_nil, longest]

section

variable {fpm : ForwardPacketMeta} {decision : SessionDecision} {mtu : ℕ} {plan : SegmentPlan}

/-- The loop in front of round `k`. -/
structure PreparedLoop.At (s : PreparedLoop) (plan : SegmentPlan) (k : ℕ) : Prop where
  le : k ≤ segmentCount plan
  offset : s.dataOffset = min (k * plan.segmentPayloadMax) plan.data.length
  count : s.prepared.length = k
  bytes : s.totalBytes = batchBytes s.prepared
  longest : s.maxFrame = longest s.prepared

/-- The state behind a round that has built its segment in a frame. -/
def PreparedLoop.next (s : PreparedLoop) (plan : SegmentPlan) (area : MmapArea) (txOffset : ℕ)
    (free : List ℕ) : PreparedLoop :=
  { area
    freeTxFrames := free
    prepared := s.prepared ++ [⟨txOffset, plan.ethLen + plan.totalIpLen s.dataOffset⟩]
    totalBytes := s.totalBytes + (plan.ethLen + plan.totalIpLen s.dataOffset)
    maxFrame := max s.maxFrame (plan.ethLen + plan.totalIpLen s.dataOffset)
    dataOffset := s.dataOffset + plan.chunkLen s.dataOffset
    segmentIndex := saturatingSucc s.segmentIndex }

/-- **What a round does**: it leaves with the batch at the end of the data; before that it
declines, and then every frame it had is back, or it takes the first free frame. -/
theorem preparedStep_cases (nat : NatDecision) (s : PreparedLoop) :
    (plan.data.length ≤ s.dataOffset ∧ preparedStep plan fpm nat s
        = .inr ⟨some (s.prepared, s.totalBytes, s.maxFrame), s.area, s.freeTxFrames⟩)
      ∨ (s.dataOffset < plan.data.length
        ∧ ((∃ area, preparedStep plan fpm nat s
            = .inr ⟨none, area, s.prepared.map PreparedTxRequest.offset ++ s.freeTxFrames⟩)
          ∨ ∃ txOffset free area, s.freeTxFrames = txOffset :: free
            ∧ preparedStep plan fpm nat s = .inl (s.next plan area txOffset free))) := by
  unfold preparedStep
  by_cases hend : plan.data.length ≤ s.dataOffset
  · exact .inl ⟨hend, by rw [if_pos hend]⟩
  rw [if_neg hend]
  refine .inr ⟨Nat.not_le.mp hend, ?_⟩
  dsimp only
  by_cases hbig : UMEM_FRAME_SIZE < plan.ethLen + plan.totalIpLen s.dataOffset
  · exact .inl ⟨_, by rw [if_pos hbig, handBack_eq]⟩
  rw [if_neg hbig]
  cases hfree : s.freeTxFrames with
  | nil => exact .inl ⟨_, by rw [handBack_eq]⟩
  | cons txOffset free =>
    dsimp only
    rcases hrun : (onSliceMut txOffset (plan.ethLen + plan.totalIpLen s.dataOffset)
      (buildSegment UInt16.ofNat plan fpm nat s.dataOffset s.segmentIndex)).run s.area with ⟨r, area⟩
    cases r with
    | none => exact .inl ⟨_, by rw [handBack_eq]⟩
    | some u => exact .inr ⟨txOffset, free, area, rfl, rfl⟩

theorem preparedStep_dec (h : Planned fpm decision mtu plan) (nat : NatDecision)
    (s s' : PreparedLoop) (hs : preparedStep plan fpm nat s = .inl s') :
    plan.data.length - s'.dataOffset < plan.data.length - s.dataOffset := by
  have hpos := h.pos
  rcases @preparedStep_cases fpm plan nat s with ⟨-, hr⟩ | ⟨hlt, ⟨_, hr⟩ | ⟨_, _, _, -, hr⟩⟩
  · rw [hr] at hs
    cases hs
  · rw [hr] at hs
    cases hs
  · rw [hr] at hs
    rw [← Sum.inl.inj hs, PreparedLoop.next, SegmentPlan.chunkLen]
    dsimp only
    omega

/-- A round goes from one segment to the next. -/
theorem PreparedLoop.At.next {s : PreparedLoop} {k : ℕ} (hat : s.At plan k)
    (h : Planned fpm decision mtu plan) (hlt : s.dataOffset < plan.data.length) (area : MmapArea)
    (txOffset : ℕ) (free : List ℕ) : (s.next plan area txOffset free).At plan (k + 1) := by
  have hoff := hat.offset
  have hk : k * plan.segmentPayloadMax < plan.data.length := by omega
  rw [Nat.min_eq_left (Nat.le_of_lt hk)] at hoff
  refine ⟨(lt_divCeil h.pos).mpr hk, ?_, ?_, ?_, ?_⟩
  · rw [PreparedLoop.next, hoff, chunkLen_mul hk]
  · rw [PreparedLoop.next, List.length_append, hat.count, List.length_singleton]
  · rw [PreparedLoop.next, batchBytes_concat, hat.bytes]
  · rw [PreparedLoop.next, longest_concat, hat.longest]

/-- Where the data has ended, every segment has been built. -/
theorem PreparedLoop.At.end {s : PreparedLoop} {k : ℕ} (hat : s.At plan k)
    (h : Planned fpm decision mtu plan) (hend : plan.data.length ≤ s.dataOffset) :
    k = segmentCount plan := by
  have hoff := hat.offset
  have hle := hat.le
  have hno : ¬k < segmentCount plan := by
    rw [segmentCount, lt_divCeil h.pos]
    omega
  omega

/-- **The loop keeps its frames**, in their order. -/
theorem Planned.prepareAll_frames (h : Planned fpm decision mtu plan) (nat : NatDecision)
    (area : MmapArea) (freeTxFrames : List ℕ) :
    (prepareAll plan fpm nat area freeTxFrames).frames = freeTxFrames
      ∧ ∀ batch total maxFrame,
        (prepareAll plan fpm nat area freeTxFrames).built = some (batch, total, maxFrame) →
        batch.length = segmentCount plan ∧ total = batchBytes batch
          ∧ maxFrame = longest batch := by
  have hrun := @Loop.run_induct _ _ _ (fun s => ⟨none, s.area, s.freeTxFrames⟩) _
    (preparedStep_dec h nat)
    (motive := fun s exit => ∀ k, s.At plan k →
      exit.frames = s.prepared.map PreparedTxRequest.offset ++ s.freeTxFrames
        ∧ ∀ batch total maxFrame, exit.built = some (batch, total, maxFrame) →
          batch.length = segmentCount plan ∧ total = batchBytes batch
            ∧ maxFrame = Frames.longest batch)
    ?_ ?_ ⟨area, freeTxFrames, [], 0, 0, 0, 0⟩
  · exact hrun 0 ⟨Nat.zero_le _, by rw [Nat.zero_mul, Nat.zero_min], rfl, rfl, rfl⟩
  · intro s exit hs k hat
    rcases @preparedStep_cases fpm plan nat s with ⟨hend, hr⟩ | ⟨-, ⟨_, hr⟩ | ⟨_, _, _, -, hr⟩⟩
    · rw [hr] at hs
      obtain rfl := Sum.inr.inj hs
      refine ⟨rfl, ?_⟩
      intro batch total maxFrame hb
      obtain ⟨rfl, rfl, rfl⟩ := hb
      exact ⟨hat.count.trans (hat.end h hend), hat.bytes, hat.longest⟩
    · rw [hr] at hs
      obtain rfl := Sum.inr.inj hs
      refine ⟨rfl, ?_⟩
      intro batch total maxFrame hb
      cases hb
    · rw [hr] at hs
      cases hs
  · intro s s' exit hs ih k hat
    rcases @preparedStep_cases fpm plan nat s with
      ⟨-, hr⟩ | ⟨hlt, ⟨_, hr⟩ | ⟨txOffset, free, a, hfree, hr⟩⟩
    · rw [hr] at hs
      cases hs
    · rw [hr] at hs
      cases hs
    · rw [hr] at hs
      obtain rfl := Sum.inl.inj hs
      obtain ⟨hframes, hbuilt⟩ := ih (k + 1) (hat.next h hlt a txOffset free)
      refine ⟨?_, hbuilt⟩
      rw [hframes, PreparedLoop.next, List.map_append, List.append_assoc, hfree]
      rfl

end

/-- Free frames of a mapping: whole frames, each of them once. -/
structure FreeFrames (area : MmapArea) (freeTxFrames : List ℕ) : Prop where
  nodup : freeTxFrames.Nodup
  aligned : ∀ o ∈ freeTxFrames, UMEM_FRAME_SIZE ∣ o
  inside : ∀ o ∈ freeTxFrames, o + UMEM_FRAME_SIZE ≤ area.length

/-- Outside the frames the mapping is as it was. -/
def Outside (freeTxFrames : List ℕ) (area area' : MmapArea) : Prop :=
  ∀ i n, (∀ o ∈ freeTxFrames, i + n ≤ o ∨ o + UMEM_FRAME_SIZE ≤ i) → sub area' i n = sub area i n

theorem apart_of_aligned {o p : ℕ} (ho : UMEM_FRAME_SIZE ∣ o) (hp : UMEM_FRAME_SIZE ∣ p)
    (hne : o ≠ p) : o + UMEM_FRAME_SIZE ≤ p ∨ p + UMEM_FRAME_SIZE ≤ o := by
  obtain ⟨a, rfl⟩ := ho
  obtain ⟨b, rfl⟩ := hp
  unfold UMEM_FRAME_SIZE at hne ⊢
  omega

section

variable {fpm : ForwardPacketMeta} {decision : SessionDecision} {mtu : ℕ} {plan : SegmentPlan}
variable {area : MmapArea} {txOffset : ℕ} {free : List ℕ}

theorem FreeFrames.tail (h : FreeFrames area (txOffset :: free)) {area' : MmapArea}
    (hlen : area'.length = area.length) : FreeFrames area' free := by
  refine ⟨(List.nodup_cons.mp h.nodup).2, fun o ho => h.aligned o (List.mem_cons_of_mem _ ho), ?_⟩
  intro o ho
  rw [hlen]
  exact h.inside o (List.mem_cons_of_mem _ ho)

theorem FreeFrames.slice_head (h : FreeFrames area (txOffset :: free)) {len : ℕ}
    (hlen : len ≤ UMEM_FRAME_SIZE) :
    slice area txOffset len = some (sub area txOffset len)
      ∧ (sub area txOffset len).length = len := by
  have hin := h.inside txOffset List.mem_cons_self
  have hal := Nat.mod_eq_zero_of_dvd (h.aligned txOffset List.mem_cons_self)
  unfold UMEM_FRAME_SIZE at hin hal hlen
  exact ⟨slice_of_le (by omega) (by omega), length_sub (by omega)⟩

theorem onSliceMut_run {α : Type} {offset len : ℕ} {t : Bytes} (m : Edit Bytes α)
    (h : slice area offset len = some t) :
    (onSliceMut offset len m).run area = ((m.run t).1, writeAt area offset (m.run t).2) :=
  within_run h

/-- A write in the first frame is inside it. -/
theorem outside_writeAt {xs : Bytes} (hlen : xs.length ≤ UMEM_FRAME_SIZE) :
    Outside (txOffset :: free) area (writeAt area txOffset xs) := by
  intro i n hout
  apply sub_writeAt_of_disjoint
  have := hout txOffset List.mem_cons_self
  omega

/-- The casts of the two builders agree on every length a segment can have. -/
theorem Planned.segmentFrame_casts (h : Planned fpm decision mtu plan) (nat : NatDecision) {k : ℕ}
    (hk : k < segmentCount plan) :
    segmentFrame UInt16.ofNat plan fpm nat k = segmentFrame saturateLen16 plan fpm nat k := by
  have hoff := (lt_divCeil h.pos).mp hk
  have hdata := h.length_data
  have hheaders := h.headers
  have hcast : ∀ n, n < 65536 → UInt16.ofNat n = saturateLen16 n := by
    intro n hn
    rw [saturateLen16, if_pos hn]
  have hchunk : plan.chunkLen (k * plan.segmentPayloadMax) ≤ plan.data.length := by
    rw [SegmentPlan.chunkLen]
    omega
  unfold segmentFrame segmentPacket
  dsimp only
  rcases h.family with ⟨hv4, -, -, hmax⟩ | ⟨hv6, h40, -, -, hmax⟩
  · rw [if_pos hv4, if_pos hv4, hcast _ (by rw [SegmentPlan.totalIpLen]; omega)]
  · have hv4 : fpm.addrFamily ≠ AF_INET := by
      rw [hv6]
      decide
    rw [SegmentPlan.headersLen] at hdata hheaders
    rw [if_neg hv4, if_neg hv4, hcast _ (by omega)]

theorem Planned.length_segmentFrame (h : Planned fpm decision mtu plan)
    (hvlan : decision.txVlanId < 0x1000) (len16 : ℕ → UInt16) (nat : NatDecision) {k : ℕ}
    (hk : k < segmentCount plan) :
    (segmentFrame len16 plan fpm nat k).length
      = plan.ethLen + plan.totalIpLen (k * plan.segmentPayloadMax) := by
  have hoff := (lt_divCeil h.pos).mp hk
  rw [segmentFrame, List.length_append, length_ethHeader (by rwa [h.vlan]),
    h.length_packet (Nat.le_of_lt hoff), SegmentPlan.ethLen]

/-- The frames of the copying builder, by the casts of the twin. -/
theorem Planned.segmentAll_eq_some (h : Planned fpm decision mtu plan)
    (hvlan : decision.txVlanId < 0x1000) (nat : NatDecision) (out : List Bytes) :
    segmentAll plan fpm nat = some out ↔ plan.Lives fpm
      ∧ (List.range' 0 (segmentCount plan)).map (segmentFrame UInt16.ofNat plan fpm nat) = out := by
  obtain ⟨hsome, hnone⟩ := h.segmentAll_eq hvlan nat
  have hcasts : (List.range' 0 (segmentCount plan)).map (segmentFrame UInt16.ofNat plan fpm nat)
      = (List.range' 0 (segmentCount plan)).map (segmentFrame saturateLen16 plan fpm nat) := by
    apply List.map_congr_left
    intro k hk
    have := List.mem_range'_1.mp hk
    exact h.segmentFrame_casts nat (by omega)
  by_cases hlives : plan.Lives fpm
  · rw [hsome hlives, hcasts, Option.some_inj]
    exact ⟨fun heq => ⟨hlives, heq⟩, And.right⟩
  · rw [hnone hlives]
    constructor
    · intro heq
      cases heq
    · intro hboth
      exact absurd hboth.1 hlives

/-- The first segment is the longest. -/
theorem totalIpLen_le_first (plan : SegmentPlan) (dataOffset : ℕ) :
    plan.totalIpLen dataOffset ≤ plan.totalIpLen 0 := by
  rw [SegmentPlan.totalIpLen, SegmentPlan.totalIpLen, SegmentPlan.chunkLen, SegmentPlan.chunkLen]
  omega

/-- One round of the loop, for a datagram that lives and a segment that fits. -/
theorem Planned.preparedStep_round (h : Planned fpm decision mtu plan)
    (hvlan : decision.txVlanId < 0x1000) (hlives : plan.Lives fpm) (nat : NatDecision)
    {s : PreparedLoop} {k : ℕ} (hk : k * plan.segmentPayloadMax < plan.data.length)
    (hoff : s.dataOffset = k * plan.segmentPayloadMax) (hidx : s.segmentIndex = UInt16.ofNat k)
    (hfit : plan.ethLen + plan.totalIpLen (k * plan.segmentPayloadMax) ≤ UMEM_FRAME_SIZE)
    (hfree : s.freeTxFrames = txOffset :: free) (hpool : FreeFrames s.area (txOffset :: free)) :
    preparedStep plan fpm nat s = .inl (s.next plan
      (writeAt s.area txOffset (segmentFrame UInt16.ofNat plan fpm nat k)) txOffset free) := by
  obtain ⟨hslice, hlen⟩ := hpool.slice_head hfit
  have hrun := (h.buildSegment_run hvlan UInt16.ofNat nat hlen (Nat.le_of_lt hk)
    (UInt16.ofNat k)).1 hlives
  rw [preparedStep, PreparedLoop.next, hoff, hidx, if_neg (Nat.not_le.mpr hk)]
  dsimp only
  rw [if_neg (Nat.not_lt.mpr hfit), hfree]
  dsimp only
  rw [onSliceMut_run _ hslice, hrun]
  rfl

/-- A datagram that does not live, or whose segments are longer than a frame, is declined in
the first round, with nothing written but in the frame that round took. -/
theorem Planned.prepareAll_declined (h : Planned fpm decision mtu plan)
    (hvlan : decision.txVlanId < 0x1000) (nat : NatDecision) (hpool : FreeFrames area free)
    (hdead : ¬plan.Lives fpm ∨ UMEM_FRAME_SIZE < plan.ethLen + plan.totalIpLen 0) :
    ∃ area', prepareAll plan fpm nat area free = ⟨none, area', free⟩ ∧ Outside free area area' := by
  have hlong := h.long
  have hstart : ¬plan.data.length ≤ 0 := by omega
  by_cases hbig : UMEM_FRAME_SIZE < plan.ethLen + plan.totalIpLen 0
  · refine ⟨area, ?_, fun _ _ _ => rfl⟩
    apply Loop.run_inr
    rw [preparedStep, if_neg hstart]
    dsimp only
    rw [if_pos hbig, handBack_eq]
    rfl
  have hdies := hdead.resolve_right hbig
  cases free with
  | nil =>
    refine ⟨area, ?_, fun _ _ _ => rfl⟩
    apply Loop.run_inr
    rw [preparedStep, if_neg hstart]
    dsimp only
    rw [if_neg hbig, handBack_eq]
    rfl
  | cons txOffset free =>
    obtain ⟨hslice, hlen⟩ := hpool.slice_head (Nat.not_lt.mp hbig)
    obtain ⟨b, hrun, hb⟩ := (h.buildSegment_run hvlan UInt16.ofNat nat hlen (Nat.zero_le _) 0).2 hdies
    refine ⟨writeAt area txOffset b, ?_, outside_writeAt (by omega)⟩
    apply Loop.run_inr
    rw [preparedStep, if_neg hstart]
    dsimp only
    rw [if_neg hbig, onSliceMut_run _ hslice, hrun]
    dsimp only
    rw [handBack_eq]
    rfl

/-- **The loop builds every segment in a frame of its own**, for a datagram that lives and
whose segments fit. -/
theorem Planned.prepareAll_built (h : Planned fpm decision mtu plan)
    (hvlan : decision.txVlanId < 0x1000) (hlives : plan.Lives fpm) (nat : NatDecision)
    (hpool : FreeFrames area free)
    (hfit : ∀ k, k < segmentCount plan →
      plan.ethLen + plan.totalIpLen (k * plan.segmentPayloadMax) ≤ UMEM_FRAME_SIZE)
    (hmany : segmentCount plan ≤ free.length) :
    ∃ batch total maxFrame, (prepareAll plan fpm nat area free).built = some (batch, total, maxFrame)
      ∧ Outside free area (prepareAll plan fpm nat area free).area
      ∧ batch.map PreparedTxRequest.len = (List.range' 0 (segmentCount plan)).map
        (fun k => (segmentFrame UInt16.ofNat plan fpm nat k).length)
      ∧ batch.map (fun q => sub (prepareAll plan fpm nat area free).area q.offset q.len)
        = (List.range' 0 (segmentCount plan)).map (segmentFrame UInt16.ofNat plan fpm nat) := by
  -- a round in front of the end finds a frame
  have hround : ∀ (s : PreparedLoop) (k : ℕ), s.At plan k → s.segmentIndex = UInt16.ofNat k →
      FreeFrames s.area s.freeTxFrames → segmentCount plan ≤ k + s.freeTxFrames.length →
      s.dataOffset < plan.data.length →
      k < segmentCount plan ∧ ∃ txOffset rest, s.freeTxFrames = txOffset :: rest
        ∧ preparedStep plan fpm nat s = .inl (s.next plan
          (writeAt s.area txOffset (segmentFrame UInt16.ofNat plan fpm nat k)) txOffset rest) := by
    intro s k hat hidx hpool hmany hlt
    have hoff := hat.offset
    have hk : k * plan.segmentPayloadMax < plan.data.length := by omega
    rw [Nat.min_eq_left (Nat.le_of_lt hk)] at hoff
    have hcount : k < segmentCount plan := (lt_divCeil h.pos).mpr hk
    obtain ⟨txOffset, rest, hfree⟩ := List.exists_cons_of_length_pos
      (show 0 < s.freeTxFrames.length by omega)
    exact ⟨hcount, txOffset, rest, hfree, h.preparedStep_round hvlan hlives nat hk hoff hidx
      (hfit k hcount) hfree (by rwa [hfree] at hpool)⟩
  have hrun := @Loop.run_induct _ _ _ (fun s => ⟨none, s.area, s.freeTxFrames⟩) _
    (preparedStep_dec h nat)
    (motive := fun s exit => ∀ k, s.At plan k → s.segmentIndex = UInt16.ofNat k →
      FreeFrames s.area s.freeTxFrames → segmentCount plan ≤ k + s.freeTxFrames.length →
      ∃ batch total maxFrame, exit.built = some (s.prepared ++ batch, total, maxFrame)
        ∧ Outside s.freeTxFrames s.area exit.area
        ∧ batch.map PreparedTxRequest.len = (List.range' k (segmentCount plan - k)).map
          (fun k => (segmentFrame UInt16.ofNat plan fpm nat k).length)
        ∧ batch.map (fun q => sub exit.area q.offset q.len)
          = (List.range' k (segmentCount plan - k)).map (segmentFrame UInt16.ofNat plan fpm nat))
    ?_ ?_ ⟨area, free, [], 0, 0, 0, 0⟩
  · exact hrun 0 ⟨Nat.zero_le _, by rw [Nat.zero_mul, Nat.zero_min], rfl, rfl, rfl⟩ rfl hpool
      (by rwa [Nat.zero_add])
  · intro s exit hs k hat hidx hpool hmany
    have hend : plan.data.length ≤ s.dataOffset := by
      by_contra hlt
      obtain ⟨-, _, _, -, hr⟩ := hround s k hat hidx hpool hmany (Nat.not_le.mp hlt)
      rw [hr] at hs
      cases hs
    rw [preparedStep, if_pos hend] at hs
    obtain rfl := Sum.inr.inj hs
    rw [hat.end h hend, Nat.sub_self]
    exact ⟨[], _, _, by rw [List.append_nil], fun _ _ _ => rfl, rfl, rfl⟩
  · intro s s' exit hs ih k hat hidx hpool hmany
    have hlt : s.dataOffset < plan.data.length := by
      by_contra hend
      rw [preparedStep, if_pos (Nat.not_lt.mp hend)] at hs
      cases hs
    obtain ⟨hcount, txOffset, rest, hfree, hr⟩ := hround s k hat hidx hpool hmany hlt
    rw [hr] at hs
    obtain rfl := Sum.inl.inj hs
    rw [hfree] at hpool hmany ⊢
    rw [List.length_cons] at hmany
    have hlen := h.length_segmentFrame hvlan UInt16.ofNat nat hcount
    have hsize := hfit k hcount
    have hin := hpool.inside txOffset List.mem_cons_self
    have hoff : s.dataOffset = k * plan.segmentPayloadMax := by
      have := hat.offset
      omega
    have hcount16 := h.segmentCount_le
    obtain ⟨batch, total, maxFrame, hbuilt, houtside, hlens, hreads⟩ := ih (k + 1)
      (hat.next h hlt _ _ _) (by
        rw [PreparedLoop.next, hidx]
        exact saturatingSucc_ofNat (by omega))
      (hpool.tail (length_writeAt _ _ _)) (by
        rw [PreparedLoop.next]
        dsimp only
        omega)
    -- the frame of this round is apart from every later one
    have hread : sub exit.area txOffset (segmentFrame UInt16.ofNat plan fpm nat k).length
        = segmentFrame UInt16.ofNat plan fpm nat k := by
      rw [houtside _ _ ?_]
      · exact (sub_writeAt_self le_rfl (by omega)).trans List.take_length
      · intro o ho
        have hne : txOffset ≠ o := by
          rintro rfl
          exact (List.nodup_cons.mp hpool.nodup).1 ho
        have := apart_of_aligned (hpool.aligned _ List.mem_cons_self)
          (hpool.aligned o (List.mem_cons_of_mem _ ho)) hne
        omega
    have hsucc : segmentCount plan - k = (segmentCount plan - (k + 1)) + 1 := by omega
    refine ⟨⟨txOffset, plan.ethLen + plan.totalIpLen s.dataOffset⟩ :: batch, total, maxFrame, ?_,
      ?_, ?_, ?_⟩
    · rw [hbuilt, PreparedLoop.next, List.append_assoc]
      rfl
    · intro i n hout
      exact (houtside i n fun o ho => hout o (List.mem_cons_of_mem _ ho)).trans
        (outside_writeAt (by omega) i n hout)
    · rw [hsucc, List.range'_succ, List.map_cons, List.map_cons, hlens, hoff, hlen]
    · rw [hsucc, List.range'_succ, List.map_cons, List.map_cons, hreads, hoff, ← hlen, hread]

end

/-- A mapping of two frames, both free, the second in front. -/
def finPipeline : TxPipeline := ⟨List.replicate 8192 0xEE, [4096, 0], []⟩

theorem finPipeline_free : FreeFrames finPipeline.area finPipeline.freeTxFrames := by
  refine ⟨by decide, by decide, ?_⟩
  intro o ho
  rw [finPipeline, List.length_replicate]
  revert o
  decide

end Xpf.Frames
