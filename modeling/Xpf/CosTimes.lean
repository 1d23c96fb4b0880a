/-
The finish times of a promoted queue.

A bucket is served in the order of the finish time of its head item. `FlowFairState.enqueue`
anchors an idle bucket at the queue's time, a pop moves the queue's time to the finish it has
served and the head of the bucket on by the next item's bytes, and a bucket that drains
forgets its times. This file says what the two do to the times of every bucket, next to what
`CosBuckets.lean` says of the items.
-/
import Xpf.CosQueueOps

set_option autoImplicit false

namespace Xpf.Cos

open Xpf.Sessions (SessionKey)

namespace FlowFairState

/-! ## A push at the back -/

/-- The finish time an item gets at the end of its bucket. -/
def newTail (ff : FlowFairState) (item : CoSPendingTxItem) : ℕ :=
  max (ff.flowBucketTailFinishBytes (ff.bucketOf item)) ff.queueVtime + item.len

section

variable {ff ff' : FlowFairState} {item : CoSPendingTxItem} {rest : List CoSPendingTxItem} {b : ℕ}

theorem enqueue_vtime (ff : FlowFairState) (item : CoSPendingTxItem) :
    (ff.enqueue none item).queueVtime = ff.queueVtime := by
  unfold enqueue accountEnqueue
  dsimp only
  split <;> rfl

theorem enqueue_tail (ff : FlowFairState) (item : CoSPendingTxItem) :
    (ff.enqueue none item).flowBucketTailFinishBytes
      = Function.update ff.flowBucketTailFinishBytes (ff.bucketOf item)
          (min (ff.newTail item) (2 ^ 64 - 1)) := by
  unfold enqueue accountEnqueue
  dsimp only
  split <;> rfl

theorem enqueue_head (hlaid : ff.Laid) (hcounted : ff.Counted) (item : CoSPendingTxItem) :
    (ff.enqueue none item).flowBucketHeadFinishBytes
      = if ff.flowBucketItems (ff.bucketOf item) = [] then
          Function.update ff.flowBucketHeadFinishBytes (ff.bucketOf item)
            (min (ff.newTail item) (2 ^ 64 - 1))
        else ff.flowBucketHeadFinishBytes := by
  have hidle := hcounted.idle_iff hlaid (ff.bucketOf item)
  unfold enqueue accountEnqueue
  dsimp only
  by_cases hb : ff.flowBucketItems (ff.bucketOf item) = []
  · rw [if_pos hb, beq_iff_eq.mpr (hidle.mpr hb)]
    rfl
  · rw [if_neg hb, beq_false_of_ne (mt hidle.mp hb)]
    rfl

/-! ## A pop -/

/-- The finish time of the head after a pop of a bucket, the counter apart. -/
def headAdvance (ff : FlowFairState) (b : ℕ) : ℕ :=
  ff.flowBucketHeadFinishBytes b + ((ff.flowBucketItems b).tail.head?.map CoSPendingTxItem.len).getD 0

/-- A pop with a snapshot, with its times. -/
structure Served (ff ff' : FlowFairState) (item : CoSPendingTxItem) (rest : List CoSPendingTxItem) : Prop
    extends Lost ff ff' item rest where
  vtime : ff'.queueVtime = max ff.queueVtime (ff.flowBucketHeadFinishBytes (ff.bucketOf item))
  headFinish : ff'.flowBucketHeadFinishBytes
    = Function.update ff.flowBucketHeadFinishBytes (ff.bucketOf item)
        (if rest = [] then 0 else min (ff.headAdvance (ff.bucketOf item)) (2 ^ 64 - 1))
  tailFinish : ff'.flowBucketTailFinishBytes
    = Function.update ff.flowBucketTailFinishBytes (ff.bucketOf item)
        (if rest = [] then 0 else ff.flowBucketTailFinishBytes (ff.bucketOf item))
  snapshot : ff'.popSnapshotStack
    = { bucket := ff.bucketOf item
        prePopHeadFinish := ff.flowBucketHeadFinishBytes (ff.bucketOf item)
        prePopTailFinish := ff.flowBucketTailFinishBytes (ff.bucketOf item)
        prePopQueueVtime := ff.queueVtime } :: ff.popSnapshotStack

/-- A bucket is idle after a pop when its bytes are gone. -/
theorem drained_iff (hlaid : ff.Laid) (hcounted : ff.Counted) (hb : ff.flowBucketItems b = item :: rest) :
    (0 < ff.flowBucketBytes b ∧ ff.flowBucketBytes b - item.len = 0) ↔ rest = [] := by
  have hpos := hlaid.positive b
  rw [hb] at hpos
  have hbytes := hcounted.bytes b
  rw [hb, total_cons] at hbytes
  have hitem := hpos item List.mem_cons_self
  rw [← total_eq_zero_iff fun it hit => hpos it (List.mem_cons_of_mem _ hit)]
  omega

theorem takeHead_served (hlaid : ff.Laid) (hcounted : ff.Counted)
    (h : ff.takeHead b true = some (item, ff')) :
    ∃ rest, ff.bucketOf item = b ∧ Served ff (ff'.accountDequeue item.flowKey item.len) item rest := by
  obtain ⟨rest, hbucket, hlost⟩ := takeHead_lost hlaid.placed h
  refine ⟨rest, hbucket, ?_⟩
  have hb : ff.flowBucketItems b = item :: rest := hbucket ▸ hlost.head
  have hdrained := drained_iff hlaid hcounted hb
  unfold takeHead at h
  rw [hb] at h
  simp only [Option.some.injEq, Prod.mk.injEq, true_and] at h
  subst h
  subst hbucket
  refine { toLost := hlost, vtime := ?_, headFinish := ?_, tailFinish := ?_, snapshot := ?_ }
  · unfold accountDequeue
    dsimp only
    split <;> rfl
  · unfold accountDequeue
    dsimp only
    simp only [Bool.and_eq_true, decide_eq_true_eq, beq_iff_eq, hdrained, headAdvance, hb]
    cases rest with
    | nil => simp
    | cons next rest => rfl
  · unfold accountDequeue
    dsimp only
    simp only [Bool.and_eq_true, decide_eq_true_eq, beq_iff_eq, hdrained]
    cases rest with
    | nil => simp
    | cons next rest => simp
  · unfold accountDequeue
    dsimp only
    split <;> rfl

end

end FlowFairState

/-! ## A pop of the queue -/

section

variable {q : CoSQueueRuntime} {ff : FlowFairState} {item : CoSPendingTxItem}

/-- The accounting of an empty item does nothing. -/
theorem accountDequeue_zero (ff : FlowFairState) (flowKey : Option SessionKey) :
    ff.accountDequeue flowKey 0 = ff := by
  unfold FlowFairState.accountDequeue
  have hnot : (decide (0 < ff.flowBucketBytes (cosFlowBucketIndex ff.flowHashSeed flowKey))
      && ff.flowBucketBytes (cosFlowBucketIndex ff.flowHashSeed flowKey) == 0) = false := by
    by_cases h : ff.flowBucketBytes (cosFlowBucketIndex ff.flowHashSeed flowKey) = 0 <;> simp [h]
  simp only [Nat.sub_zero, hnot, Function.update_eq_self, Bool.false_eq_true, if_false]

theorem countLocalOut_sharedExact : (countLocalOut q item).sharedExact = q.sharedExact := by
  unfold countLocalOut
  split <;> rfl

/-- A snapshot pop of a promoted queue is one of its flow-fair state. -/
theorem snapshotPop_promoted (h : q.flowFairState = some ff)
    (hlisted : Roster.Lists ff.flowRrBuckets.toList ff.flowBucketItems) (targetBps : ℕ) :
    (snapshotPop q targetBps = none ∧ cosQueueMinFinishBucket ff targetBps = none) ∨
      ∃ b item ff₁ q', cosQueueMinFinishBucket ff targetBps = some b ∧
        ff.takeHead b true = some (item, ff₁) ∧ snapshotPop q targetBps = some (item, q') ∧
        q'.flowFairState = some (ff₁.accountDequeue item.flowKey item.len) ∧
        q'.sharedExact = q.sharedExact := by
  obtain ⟨hmem, -⟩ := minFinishBucket_spec ff targetBps
  unfold snapshotPop cosQueuePeekMinBucket
  rw [h]
  dsimp only
  cases hmin : cosQueueMinFinishBucket ff targetBps with
  | none => exact .inl ⟨rfl, rfl⟩
  | some b =>
    obtain ⟨⟨item, ff₁⟩, htake⟩ := takeHead_isSome hlisted (hmem b hmin) true
    have hhead : (ff.flowBucketItems b).head? = some item := by
      unfold FlowFairState.takeHead at htake
      cases hb : ff.flowBucketItems b with
      | nil => simp [hb] at htake
      | cons first rest =>
        simp only [hb, Option.some.injEq, Prod.mk.injEq] at htake
        rw [← htake.1]
        rfl
    have hpop : cosQueuePopKnownBucket q b
        = some (item, accountCosQueueFlowDequeue (countLocalOut { q with flowFairState := some ff₁ } item)
            item.flowKey item.len) := by
      unfold cosQueuePopKnownBucket cosQueuePopKnownBucketInner
      simp only [h, htake, Option.map_some]
    refine .inr ⟨b, item, ff₁, accountCosQueueFlowDequeue
      (countLocalOut { q with flowFairState := some ff₁ } item) item.flowKey item.len, rfl, htake, ?_, ?_, ?_⟩
    · dsimp only
      rw [hhead]
      exact hpop
    · unfold accountCosQueueFlowDequeue
      simp only [countLocalOut_flowFairState]
      split_ifs with hzero
      · rw [countLocalOut_flowFairState, hzero, accountDequeue_zero]
      · rfl
    · unfold accountCosQueueFlowDequeue
      simp only [countLocalOut_flowFairState]
      split_ifs <;> exact countLocalOut_sharedExact

end

end Xpf.Cos
