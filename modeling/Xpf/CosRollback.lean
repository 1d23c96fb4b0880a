/-
A batch that is rolled back.

A drain loop pops a batch with snapshots; what the hardware did not take is put back at the
front, the last item first. A push at the front is the inverse of the pop that left the
snapshot on top of the stack, also when other pops and pushes nested between the two, so the
whole batch put back restores what the scheduler reads: the items, the bytes, the finish
times, the queue's time and the set of active buckets. What it does not restore is the
observed rate of a bucket that a pop has drained (`drainedBuckets`).
-/
import Xpf.CosTimes
import Xpf.CosQueueRuns

set_option autoImplicit false

namespace Xpf.Cos

open Xpf.Sessions (SessionKey)
open FlowFairState (Gained Lost Served)

/-! ## Batches -/

/-- A batch of pops with snapshots, each under its own rate target, to the first that finds
the queue empty. -/
def popBatch : List ℕ → CoSQueueRuntime → List CoSPendingTxItem × CoSQueueRuntime
  | [], queue => ([], queue)
  | targetBps :: targets, queue =>
    match snapshotPop queue targetBps with
    | none => ([], queue)
    | some (item, queue) => (item :: (popBatch targets queue).1, (popBatch targets queue).2)

/-- The items of a batch put back at the front, the last one first; no value where the
source panics. -/
def restoreBatch (queue : CoSQueueRuntime) (items : List CoSPendingTxItem) : Option CoSQueueRuntime :=
  items.foldr (fun item q => q.bind fun q => cosQueuePushFront q item) (some queue)

/-- No pop of the batch saturates the finish time it moves on. -/
def PopsInRange : List ℕ → CoSQueueRuntime → Prop
  | [], _ => True
  | targetBps :: targets, queue =>
    (∀ ff b, queue.flowFairState = some ff → cosQueueMinFinishBucket ff targetBps = some b →
      ff.headAdvance b < 2 ^ 64) ∧
    ∀ item queue', snapshotPop queue targetBps = some (item, queue') → PopsInRange targets queue'

/-! ## The times of a push at the front -/

namespace FlowFairState

/-- What a push at the front does beside `Gained`, with its snapshot on top of the stack. -/
structure PutBack (ff ff' : FlowFairState) (item : CoSPendingTxItem) (top : CoSQueuePopSnapshot)
    (stack : List CoSQueuePopSnapshot) : Prop
    extends Gained ff ff' item (item :: ff.flowBucketItems (ff.bucketOf item)) where
  vtime : ff'.queueVtime = top.prePopQueueVtime
  headFinish : ff'.flowBucketHeadFinishBytes
    = Function.update ff.flowBucketHeadFinishBytes (ff.bucketOf item)
        (if ff.flowBucketItems (ff.bucketOf item) = [] then top.prePopHeadFinish
          else ff.flowBucketHeadFinishBytes (ff.bucketOf item)
            - ((ff.flowBucketItems (ff.bucketOf item)).head?.map CoSPendingTxItem.len).getD 0)
  tailFinish : ff'.flowBucketTailFinishBytes
    = Function.update ff.flowBucketTailFinishBytes (ff.bucketOf item)
        (if ff.flowBucketItems (ff.bucketOf item) = [] then top.prePopTailFinish
          else ff.flowBucketTailFinishBytes (ff.bucketOf item))
  observed : ff'.flowBucketObservedBps = ff.flowBucketObservedBps
  stack : ff'.popSnapshotStack = stack

theorem pushFront_putBack {ff : FlowFairState} {item : CoSPendingTxItem} {top : CoSQueuePopSnapshot}
    {stack : List CoSQueuePopSnapshot} (hstack : ff.popSnapshotStack = top :: stack)
    (htop : top.bucket = ff.bucketOf item) :
    ∃ ff', pushFrontFlowFairV8 ff (ff.bucketOf item) item.len item = some ff' ∧
      PutBack ff ff' item top stack := by
  obtain ⟨ff', hpush, hgain, htail⟩ := ff.pushFront_spec item fun t r h => by
    rw [hstack] at h
    rw [← (List.cons.inj h).1]
    exact htop
  refine ⟨ff', hpush, ?_⟩
  have hrun : pushFrontFlowFairV8 ff (ff.bucketOf item) item.len item
      = some (pushFrontRestored { ff with queueVtime := top.prePopQueueVtime, popSnapshotStack := stack }
          (some top) (ff.bucketOf item) item.len item) := by
    unfold pushFrontFlowFairV8 popMatchingSnapshot
    rw [hstack]
    dsimp only
    rw [if_pos htop]
    rfl
  rw [hrun] at hpush
  obtain rfl := Option.some.inj hpush
  rw [hstack] at htail
  refine { toGained := hgain, vtime := ?_, headFinish := ?_, tailFinish := ?_, observed := ?_, stack := htail }
  · unfold pushFrontRestored
    dsimp only
    split <;> rfl
  · unfold pushFrontRestored
    dsimp only
    by_cases hidle : ff.flowBucketItems (ff.bucketOf item) = []
    · rw [if_pos (List.isEmpty_iff.mpr hidle), if_pos hidle]
      rfl
    · rw [if_neg (mt List.isEmpty_iff.mp hidle), if_neg hidle]
      rfl
  · unfold pushFrontRestored
    dsimp only
    by_cases hidle : ff.flowBucketItems (ff.bucketOf item) = []
    · rw [if_pos (List.isEmpty_iff.mpr hidle), if_pos hidle]
      rfl
    · rw [if_neg (mt List.isEmpty_iff.mp hidle), if_neg hidle, Function.update_eq_self]
      rfl
  · unfold pushFrontRestored
    dsimp only
    split <;> rfl

/-! ## A pop and its push -/

/-- The items, the times and the snapshots of one state in another. -/
structure SameTimes (ff ff' : FlowFairState) : Prop where
  seed : ff'.flowHashSeed = ff.flowHashSeed
  items : ff'.flowBucketItems = ff.flowBucketItems
  headFinish : ff'.flowBucketHeadFinishBytes = ff.flowBucketHeadFinishBytes
  tailFinish : ff'.flowBucketTailFinishBytes = ff.flowBucketTailFinishBytes
  vtime : ff'.queueVtime = ff.queueVtime
  stack : ff'.popSnapshotStack = ff.popSnapshotStack

variable {ff ff₁ ff₂ ff' : FlowFairState} {item : CoSPendingTxItem} {rest : List CoSPendingTxItem}

/-- The snapshot of a pop. -/
def snapshotOf (ff : FlowFairState) (item : CoSPendingTxItem) : CoSQueuePopSnapshot where
  bucket := ff.bucketOf item
  prePopHeadFinish := ff.flowBucketHeadFinishBytes (ff.bucketOf item)
  prePopTailFinish := ff.flowBucketTailFinishBytes (ff.bucketOf item)
  prePopQueueVtime := ff.queueVtime

/-- **The push undoes the pop.** `ff₂` is the state between the two, with whatever nested
between them undone. -/
theorem Served.putBack (h : Served ff ff₁ item rest) (hsame : SameTimes ff₁ ff₂)
    (hrange : ff.headAdvance (ff.bucketOf item) < 2 ^ 64)
    (hback : PutBack ff₂ ff' item (ff.snapshotOf item) ff.popSnapshotStack) : SameTimes ff ff' := by
  have hseed : ff₂.flowHashSeed = ff.flowHashSeed := hsame.seed.trans h.seed
  have hbucket : ff₂.bucketOf item = ff.bucketOf item := by rw [bucketOf, hseed]
  have hitems₂ : ff₂.flowBucketItems (ff.bucketOf item) = rest := by
    rw [hsame.items, h.items, Function.update_self]
  have hadvance : min (ff.headAdvance (ff.bucketOf item)) (2 ^ 64 - 1)
      = ff.headAdvance (ff.bucketOf item) := by omega
  constructor
  · exact hback.seed.trans hseed
  · rw [hback.items, hbucket, hitems₂, hsame.items, h.items, Function.update_idem, ← h.head,
      Function.update_eq_self]
  · rw [hback.headFinish, hbucket, hitems₂, hsame.headFinish, h.headFinish, Function.update_self,
      Function.update_idem]
    have hvalue : (if rest = [] then (ff.snapshotOf item).prePopHeadFinish
        else (if rest = [] then 0 else min (ff.headAdvance (ff.bucketOf item)) (2 ^ 64 - 1))
          - (rest.head?.map CoSPendingTxItem.len).getD 0)
        = ff.flowBucketHeadFinishBytes (ff.bucketOf item) := by
      cases rest with
      | nil => rfl
      | cons next others =>
        rw [if_neg (List.cons_ne_nil _ _), if_neg (List.cons_ne_nil _ _), hadvance, headAdvance, h.head]
        exact Nat.add_sub_cancel _ _
    rw [hvalue, Function.update_eq_self]
  · rw [hback.tailFinish, hbucket, hitems₂, hsame.tailFinish, h.tailFinish, Function.update_self,
      Function.update_idem]
    have hvalue : (if rest = [] then (ff.snapshotOf item).prePopTailFinish
        else if rest = [] then 0 else ff.flowBucketTailFinishBytes (ff.bucketOf item))
        = ff.flowBucketTailFinishBytes (ff.bucketOf item) := by
      cases rest <;> rfl
    rw [hvalue, Function.update_eq_self]
  · exact hback.vtime
  · exact hback.stack

end FlowFairState

section

variable {q q' : CoSQueueRuntime} {ff ff' : FlowFairState} {item : CoSPendingTxItem}

/-- A push at the front of a promoted queue, by its snapshot. -/
theorem pushFront_promoted {top : CoSQueuePopSnapshot} {stack : List CoSQueuePopSnapshot}
    (h : q.flowFairState = some ff) (hstack : ff.popSnapshotStack = top :: stack)
    (htop : top.bucket = ff.bucketOf item) :
    ∃ q' ff', cosQueuePushFront q item = some q' ∧ q'.flowFairState = some ff' ∧
      FlowFairState.PutBack ff ff' item top stack := by
  obtain ⟨ff', hpush, hback⟩ := FlowFairState.pushFront_putBack hstack htop
  refine ⟨{ countLocalIn q item with flowFairState := some ff' }, ff', ?_, rfl, hback⟩
  unfold cosQueuePushFront
  simp only [countLocalIn_flowFairState, h]
  rw [hpush]
  rfl

theorem restoreBatch_cons (queue : CoSQueueRuntime) (item : CoSPendingTxItem)
    (items : List CoSPendingTxItem) :
    restoreBatch queue (item :: items)
      = (restoreBatch queue items).bind fun q => cosQueuePushFront q item := rfl

/-- Two states with one content have the same counters. -/
theorem FlowFairState.Counted.eq_of_items (h : ff.Counted) (hlaid : ff.Laid) (h' : ff'.Counted)
    (hlaid' : ff'.Laid) (hitems : ff'.flowBucketItems = ff.flowBucketItems) :
    ff'.flowBucketBytes = ff.flowBucketBytes ∧ ff'.activeFlowBuckets = ff.activeFlowBuckets ∧
      ∀ b, b ∈ ff'.flowRrBuckets.toList ↔ b ∈ ff.flowRrBuckets.toList := by
  have hring : ∀ b, b ∈ ff'.flowRrBuckets.toList ↔ b ∈ ff.flowRrBuckets.toList := by
    intro b
    rw [hlaid'.listed.mem_iff, hlaid.listed.mem_iff, hitems]
  refine ⟨funext fun b => by rw [h'.bytes, h.bytes, hitems], ?_, hring⟩
  rw [h'.active, h.active]
  exact ((List.perm_ext_iff_of_nodup hlaid'.listed.nodup hlaid.listed.nodup).mpr hring).length_eq

/-- **The whole batch**, by induction on the pops: what nests between the first pop and the
last push is a batch of its own. -/
theorem restoreBatch_popBatch (targets : List ℕ) : ∀ {q : CoSQueueRuntime} {ff : FlowFairState},
    q.flowFairState = some ff → ff.Laid → ff.Counted → (∀ b, ff.flowBucketBytes b < 2 ^ 64) →
    PopsInRange targets q →
    ∃ q' ff', restoreBatch (popBatch targets q).2 (popBatch targets q).1 = some q' ∧
      q'.flowFairState = some ff' ∧ FlowFairState.SameTimes ff ff' ∧ ff'.Laid ∧ ff'.Counted := by
  induction targets with
  | nil =>
    intro q ff h hlaid hcounted _ _
    exact ⟨q, ff, rfl, h, ⟨rfl, rfl, rfl, rfl, rfl, rfl⟩, hlaid, hcounted⟩
  | cons targetBps targets ih =>
    intro q ff h hlaid hcounted hfit hrange
    rcases snapshotPop_promoted h hlaid.listed targetBps with
      ⟨hpop, -⟩ | ⟨b, item, ff₁, q₁, hmin, htake, hpop, hstate, -⟩
    · rw [popBatch, hpop]
      exact ⟨q, ff, rfl, h, ⟨rfl, rfl, rfl, rfl, rfl, rfl⟩, hlaid, hcounted⟩
    · obtain ⟨rest, rfl, hserved⟩ := FlowFairState.takeHead_served hlaid hcounted htake
      have hadvance := hrange.1 ff _ h hmin
      have hpos : 0 < item.len := hlaid.positive _ item (hserved.head ▸ List.mem_cons_self)
      have hlaid₁ := hserved.toLost.laid hlaid
      have hcounted₁ := hserved.toLost.counted hlaid hcounted
      have hfit₁ : ∀ c, (ff₁.accountDequeue item.flowKey item.len).flowBucketBytes c < 2 ^ 64 := by
        intro c
        rw [hserved.bytes]
        rcases eq_or_ne c (ff.bucketOf item) with rfl | hne
        · rw [Function.update_self]
          have := hfit (ff.bucketOf item)
          omega
        · rw [Function.update_of_ne hne]
          exact hfit c
      obtain ⟨q₂, ff₂, hrestore, hstate₂, hsame, hlaid₂, hcounted₂⟩ :=
        ih hstate hlaid₁ hcounted₁ hfit₁ (hrange.2 item q₁ hpop)
      have hbucket : ff₂.bucketOf item = ff.bucketOf item := by
        rw [FlowFairState.bucketOf, hsame.seed, hserved.seed]
      obtain ⟨q', ff', hpush, hstate', hback⟩ := pushFront_promoted hstate₂
        (hsame.stack.trans hserved.snapshot) hbucket.symm
      have hsame' := hserved.putBack hsame hadvance hback
      have hperm : (item :: ff₂.flowBucketItems (ff₂.bucketOf item)).Perm
          (item :: ff₂.flowBucketItems (ff₂.bucketOf item)) := List.Perm.refl _
      have hlaid' := hback.toGained.laid hperm hpos hlaid₂
      refine ⟨q', ff', ?_, hstate', hsame', hlaid', ?_⟩
      · rw [popBatch, hpop]
        dsimp only
        rw [restoreBatch_cons, hrestore]
        exact hpush
      · refine hback.toGained.counted hperm hlaid₂ hcounted₂ ?_
        have hcell : ff'.flowBucketItems (ff₂.bucketOf item)
            = item :: ff₂.flowBucketItems (ff₂.bucketOf item) := by
          rw [hback.items, Function.update_self]
        rw [← hcell, hsame'.items, ← hcounted.bytes]
        exact hfit _

/-- **A rolled-back batch is scheduling neutral.** From a consistent flow-fair state without
snapshots, popping a batch and putting it back restores every bucket's items, bytes and finish
times, the queue's time, the active buckets and their count, and leaves no snapshot; no push
panics. -/
theorem rolledBack_neutral (q : CoSQueueRuntime) (ff : FlowFairState) (targets : List ℕ)
    (h : q.flowFairState = some ff) (hlaid : ff.Laid) (hcounted : ff.Counted)
    (hfit : ∀ b, ff.flowBucketBytes b < 2 ^ 64) (hstack : ff.popSnapshotStack = [])
    (hrange : PopsInRange targets q) :
    ∃ q' ff', restoreBatch (popBatch targets q).2 (popBatch targets q).1 = some q' ∧
      q'.flowFairState = some ff' ∧
      ff'.flowBucketItems = ff.flowBucketItems ∧ ff'.flowBucketBytes = ff.flowBucketBytes ∧
      ff'.flowBucketHeadFinishBytes = ff.flowBucketHeadFinishBytes ∧
      ff'.flowBucketTailFinishBytes = ff.flowBucketTailFinishBytes ∧
      ff'.queueVtime = ff.queueVtime ∧
      (∀ b, b ∈ ff'.flowRrBuckets.toList ↔ b ∈ ff.flowRrBuckets.toList) ∧
      ff'.activeFlowBuckets = ff.activeFlowBuckets ∧ ff'.popSnapshotStack = [] := by
  obtain ⟨q', ff', hrestore, hstate, hsame, hlaid', hcounted'⟩ :=
    restoreBatch_popBatch targets h hlaid hcounted hfit hrange
  obtain ⟨hbytes, hactive, hring⟩ := hcounted.eq_of_items hlaid hcounted' hlaid' hsame.items
  exact ⟨q', ff', hrestore, hstate, hsame.items, hbytes, hsame.headFinish, hsame.tailFinish,
    hsame.vtime, hring, hactive, hsame.stack.trans hstack⟩

end

/-- A promoted queue with one item in each of two buckets. -/
def twoFlows : FlowFairState := ((FlowFairState.new 7).enqueue none firstItem).enqueue none secondItem

/-- The queue that holds them. -/
def twoFlowQueue (ff : FlowFairState) : CoSQueueRuntime where
  flowFairEligible := true
  sharedExact := false
  items := []
  localItemCount := 1
  flowFairState := some ff

theorem twoFlows_consistent :
    twoFlows.Laid ∧ twoFlows.Counted ∧ ∀ b, twoFlows.flowBucketBytes b < 2 ^ 64 := by
  have hlaid := FlowFairState.Laid.new 7 0
  have hcounted := FlowFairState.Counted.new 7 0
  have hgain := (FlowFairState.new 7).gained_enqueue none firstItem
  have hgain' := ((FlowFairState.new 7).enqueue none firstItem).gained_enqueue none secondItem
  have hperm := List.perm_append_singleton firstItem
    ((FlowFairState.new 7).flowBucketItems ((FlowFairState.new 7).bucketOf firstItem))
  have hlaid₁ := hgain.laid hperm Nat.zero_lt_one hlaid
  have hcounted₁ := hgain.counted hperm hlaid hcounted (by decide)
  have hperm' := List.perm_append_singleton secondItem
    (((FlowFairState.new 7).enqueue none firstItem).flowBucketItems
      (((FlowFairState.new 7).enqueue none firstItem).bucketOf secondItem))
  refine ⟨hgain'.laid hperm' (show 0 < 60 by decide) hlaid₁,
    hgain'.counted hperm' hlaid₁ hcounted₁ (by decide +kernel), fun b => ?_⟩
  rw [twoFlows, hgain'.bytes, hgain.bytes]
  simp only [Function.update_apply]
  split_ifs
  · decide
  · decide +kernel
  · decide
  · exact Nat.two_pow_pos 64

theorem rolledBack_neutral_twoFlows :
    ∃ q' ff', restoreBatch (popBatch [u64Max] (twoFlowQueue twoFlows)).2
        (popBatch [u64Max] (twoFlowQueue twoFlows)).1 = some q' ∧
      q'.flowFairState = some ff' ∧ ff'.queueVtime = twoFlows.queueVtime ∧
      ff'.flowBucketHeadFinishBytes = twoFlows.flowBucketHeadFinishBytes := by
  obtain ⟨hlaid, hcounted, hfit⟩ := twoFlows_consistent
  have hrange : PopsInRange [u64Max] (twoFlowQueue twoFlows) := by
    refine ⟨fun ff b hff hmin => ?_, fun _ _ _ => trivial⟩
    obtain rfl := Option.some.inj hff
    obtain rfl : 0 = b := by
      rw [← Option.some_inj, ← hmin]
      decide +kernel
    decide +kernel
  obtain ⟨q', ff', hrestore, hstate, -, -, hhead, -, hvtime, -⟩ :=
    rolledBack_neutral (twoFlowQueue twoFlows) twoFlows [u64Max] rfl hlaid hcounted hfit rfl hrange
  exact ⟨q', ff', hrestore, hstate, hvtime, hhead⟩

/-- An item without bytes. -/
def emptyItem : CoSPendingTxItem := .preparedTx { offset := 0, len := 0, flowKey := none }

/-- A flow-fair queue it was pushed to. -/
def emptyItemQueue : CoSQueueRuntime :=
  cosQueuePushBack (Ledger.start true false (some (7, 0))).queue 0 none emptyItem

/-- The accounting passes over such an item when it arrives, but not when it is put back. -/
theorem emptyItem_counted_by_rollback :
    ¬∀ (ops : List QueueOp) (targets : List ℕ) (s : Ledger) (ff : FlowFairState),
      runs true false (some (7, 0)) ops = some s → s.queue.flowFairState = some ff →
      ff.popSnapshotStack = [] → PopsInRange targets s.queue →
      ∃ q' ff', restoreBatch (popBatch targets s.queue).2 (popBatch targets s.queue).1 = some q' ∧
        q'.flowFairState = some ff' ∧ ff'.activeFlowBuckets = ff.activeFlowBuckets := by
  intro hall
  have hrange : PopsInRange [u64Max] emptyItemQueue := by
    refine ⟨fun ff b hff hmin => ?_, fun _ _ _ => trivial⟩
    obtain rfl := Option.some.inj hff
    obtain rfl : 0 = b := by
      rw [← Option.some_inj, ← hmin]
      decide +kernel
    decide +kernel
  obtain ⟨q', ff', hrestore, hstate, hactive⟩ :=
    hall [.pushBack emptyItem 0 none] [u64Max] _ _ rfl rfl rfl hrange
  have hone : ((restoreBatch (popBatch [u64Max] emptyItemQueue).2
      (popBatch [u64Max] emptyItemQueue).1).bind (·.flowFairState)).map (·.activeFlowBuckets)
        = some 1 := by
    decide +kernel
  change restoreBatch (popBatch [u64Max] emptyItemQueue).2 (popBatch [u64Max] emptyItemQueue).1
    = some q' at hrestore
  rw [hrestore, Option.bind_some, hstate, Option.map_some, hactive] at hone
  cases hone

/-! ## Observed rates -/

/-- The pop of `item` takes the last bytes of its bucket: `bucket_drained` of
`account_cos_queue_flow_dequeue`. -/
def FlowFairState.drains (ff : FlowFairState) (item : CoSPendingTxItem) : Bool :=
  decide (0 < ff.flowBucketBytes (ff.bucketOf item)) &&
    ff.flowBucketBytes (ff.bucketOf item) - item.len == 0

/-- The buckets whose last bytes a batch takes. -/
def drainedBuckets : List ℕ → CoSQueueRuntime → List ℕ
  | [], _ => []
  | targetBps :: targets, queue =>
    match queue.flowFairState, snapshotPop queue targetBps with
    | some ff, some (item, queue) =>
      (if ff.drains item then [ff.bucketOf item] else []) ++ drainedBuckets targets queue
    | _, _ => []

/-- The active buckets that the selection under a target defers. -/
def deferredBuckets (ff : FlowFairState) (targetBps : ℕ) : List ℕ :=
  ff.flowRrBuckets.toList.filter fun b => targetBps < ff.flowBucketObservedBps b

section

variable {ff ff' : FlowFairState} {item : CoSPendingTxItem} {b : ℕ}

/-- What a pop does to the rates. -/
theorem takeHead_observed (h : ff.takeHead b true = some (item, ff')) :
    (ff'.accountDequeue item.flowKey item.len).flowBucketObservedBps
      = if ff.drains item then Function.update ff.flowBucketObservedBps (ff.bucketOf item) 0
        else ff.flowBucketObservedBps := by
  unfold FlowFairState.takeHead at h
  cases hb : ff.flowBucketItems b with
  | nil => simp [hb] at h
  | cons first rest =>
    rw [hb] at h
    simp only [Option.some.injEq, Prod.mk.injEq] at h
    obtain ⟨rfl, rfl⟩ := h
    unfold FlowFairState.accountDequeue FlowFairState.drains
    dsimp only
    split <;> rfl

/-- **The rates after a batch and its rollback**: those of the buckets it drained are gone. -/
theorem restoreBatch_observed (targets : List ℕ) : ∀ {q : CoSQueueRuntime} {ff : FlowFairState},
    q.flowFairState = some ff → ff.Shelved →
    ∃ q' ff', restoreBatch (popBatch targets q).2 (popBatch targets q).1 = some q' ∧
      q'.flowFairState = some ff' ∧ ff'.flowHashSeed = ff.flowHashSeed ∧
      ff'.flowBucketItems = ff.flowBucketItems ∧ ff'.popSnapshotStack = ff.popSnapshotStack ∧
      ff'.Shelved ∧
      (∀ b, ff'.flowBucketObservedBps b
        = if b ∈ drainedBuckets targets q then 0 else ff.flowBucketObservedBps b) ∧
      ∀ b ∈ drainedBuckets targets q, ff.flowBucketItems b ≠ [] := by
  induction targets with
  | nil =>
    intro q ff h hs
    exact ⟨q, ff, rfl, h, rfl, rfl, rfl, hs, fun b => by rw [drainedBuckets, if_neg List.not_mem_nil],
      fun b hb => absurd hb List.not_mem_nil⟩
  | cons targetBps targets ih =>
    intro q ff h hs
    rcases snapshotPop_promoted h hs.listed targetBps with
      ⟨hpop, -⟩ | ⟨b, item, ff₁, q₁, -, htake, hpop, hstate, -⟩
    · have hnone : drainedBuckets (targetBps :: targets) q = [] := by
        rw [drainedBuckets, h, hpop]
      rw [popBatch, hpop, hnone]
      exact ⟨q, ff, rfl, h, rfl, rfl, rfl, hs, fun b => by rw [if_neg List.not_mem_nil],
        fun b hb => absurd hb List.not_mem_nil⟩
    · obtain ⟨rest, rfl, hlost⟩ := FlowFairState.takeHead_lost hs.placed htake
      obtain ⟨top, htop, hstack⟩ := (takeHead_stack htake).2 rfl
      rw [← accountDequeue_stack item.flowKey item.len] at hstack
      obtain ⟨q₂, ff₂, hrestore, hstate₂, hseed, hitems, hstack₂, hs₂, hrates, hbusy⟩ :=
        ih hstate (hlost.shelved hs)
      have hbucket : ff₂.bucketOf item = ff.bucketOf item := by
        rw [FlowFairState.bucketOf, hseed, hlost.seed]
      obtain ⟨q', ff', hpush, hstate', hback⟩ := pushFront_promoted hstate₂
        (hstack₂.trans hstack) (htop.trans hbucket.symm)
      have hcons : drainedBuckets (targetBps :: targets) q
          = (if ff.drains item then [ff.bucketOf item] else []) ++ drainedBuckets targets q₁ := by
        rw [drainedBuckets, h, hpop]
      have hfirst : ff.flowBucketItems (ff.bucketOf item) ≠ [] := by
        rw [hlost.head]
        exact List.cons_ne_nil _ _
      refine ⟨q', ff', ?_, hstate', hback.seed.trans (hseed.trans hlost.seed), ?_, hback.stack,
        hback.toGained.shelved (List.Perm.refl _) hs₂, fun b => ?_, fun b hb => ?_⟩
      · rw [popBatch, hpop]
        dsimp only
        rw [restoreBatch_cons, hrestore]
        exact hpush
      · rw [hback.items, hbucket, hitems, hlost.items, Function.update_self, Function.update_idem,
          ← hlost.head, Function.update_eq_self]
      · rw [hback.observed, hrates, hcons, takeHead_observed htake]
        by_cases hin : b ∈ drainedBuckets targets q₁
        · rw [if_pos hin, if_pos (List.mem_append_right _ hin)]
        · rw [if_neg hin]
          by_cases hdrains : ff.drains item
          · rw [if_pos hdrains, if_pos hdrains, Function.update_apply]
            simp only [List.singleton_append, List.mem_cons, hin, or_false]
          · rw [if_neg hdrains, if_neg hdrains, List.nil_append, if_neg hin]
      · rw [hcons] at hb
        rcases List.mem_append.mp hb with hb | hb
        · split at hb
          · rw [List.mem_singleton.mp hb]
            exact hfirst
          · exact absurd hb List.not_mem_nil
        · have hne := hbusy b hb
          rw [hlost.items] at hne
          rcases eq_or_ne b (ff.bucketOf item) with rfl | hb'
          · exact hfirst
          · rwa [Function.update_of_ne hb'] at hne

/-- **When a rolled-back batch leaves the rate caps alone.** The buckets deferred under a
target are the same as before exactly when the batch takes the last bytes of none of them. -/
theorem rolledBack_deferred_iff (q : CoSQueueRuntime) (ff : FlowFairState) (targets : List ℕ)
    (targetBps : ℕ) (h : q.flowFairState = some ff) (hs : ff.Shelved)
    (hstack : ff.popSnapshotStack = []) :
    ∃ q' ff', restoreBatch (popBatch targets q).2 (popBatch targets q).1 = some q' ∧
      q'.flowFairState = some ff' ∧ ff'.popSnapshotStack = [] ∧
      ((∀ b, b ∈ deferredBuckets ff' targetBps ↔ b ∈ deferredBuckets ff targetBps) ↔
        ∀ b ∈ drainedBuckets targets q, ff.flowBucketObservedBps b ≤ targetBps) := by
  obtain ⟨q', ff', hrestore, hstate, -, hitems, hstack', hs', hrates, hbusy⟩ :=
    restoreBatch_observed targets h hs
  refine ⟨q', ff', hrestore, hstate, hstack'.trans hstack, ?_⟩
  have hmem : ∀ b, b ∈ ff'.flowRrBuckets.toList ↔ b ∈ ff.flowRrBuckets.toList := by
    intro b
    rw [hs'.listed.mem_iff, hs.listed.mem_iff, hitems]
  simp only [deferredBuckets, List.mem_filter, decide_eq_true_eq, hmem]
  constructor
  · intro hall b hb
    have hactive : b ∈ ff.flowRrBuckets.toList := (hs.listed.mem_iff b).mpr (hbusy b hb)
    have hiff := hall b
    rw [hrates b, if_pos hb] at hiff
    by_contra hover
    exact absurd (hiff.mpr ⟨hactive, Nat.lt_of_not_le hover⟩).2 (Nat.not_lt_zero _)
  · intro hall b
    rw [hrates b]
    split
    · rename_i hb
      have := hall b hb
      constructor
      · rintro ⟨-, hlt⟩
        exact absurd hlt (Nat.not_lt_zero _)
      · rintro ⟨-, hlt⟩
        omega
    · rfl

end

/-- The two flows, both observed above ten bits a second. -/
def hotFlows : FlowFairState := { twoFlows with flowBucketObservedBps := fun _ => 100 }

theorem hotFlows_shelved : hotFlows.Shelved := by
  obtain ⟨hlaid, -, -⟩ := twoFlows_consistent
  exact ⟨hlaid.placed, hlaid.fits, hlaid.listed⟩

theorem rolledBack_deferred_iff_hotFlows :
    ∃ q' ff', restoreBatch (popBatch [u64Max] (twoFlowQueue hotFlows)).2
        (popBatch [u64Max] (twoFlowQueue hotFlows)).1 = some q' ∧
      q'.flowFairState = some ff' ∧
      ∀ b, b ∈ deferredBuckets ff' 100 ↔ b ∈ deferredBuckets hotFlows 100 := by
  obtain ⟨q', ff', hrestore, hstate, -, hiff⟩ := rolledBack_deferred_iff (twoFlowQueue hotFlows)
    hotFlows [u64Max] 100 rfl hotFlows_shelved rfl
  exact ⟨q', ff', hrestore, hstate, hiff.mpr fun b _ => Nat.le_refl 100⟩

/-- One pop drains the first flow; put back, it is no longer deferred. -/
theorem rolledBack_lifts_cap :
    ¬∀ (q : CoSQueueRuntime) (ff : FlowFairState) (targets : List ℕ) (targetBps : ℕ),
      q.flowFairState = some ff → ff.Shelved → ff.popSnapshotStack = [] →
      ∃ q' ff', restoreBatch (popBatch targets q).2 (popBatch targets q).1 = some q' ∧
        q'.flowFairState = some ff' ∧
        ∀ b, b ∈ deferredBuckets ff' targetBps ↔ b ∈ deferredBuckets ff targetBps := by
  intro hall
  obtain ⟨q', ff', hrestore, hstate, hsame⟩ :=
    hall (twoFlowQueue hotFlows) hotFlows [u64Max] 10 rfl hotFlows_shelved rfl
  have hgone : ((restoreBatch (popBatch [u64Max] (twoFlowQueue hotFlows)).2
      (popBatch [u64Max] (twoFlowQueue hotFlows)).1).bind (·.flowFairState)).map
        (fun ff => decide (0 ∈ deferredBuckets ff 10)) = some false := by
    decide +kernel
  have hthere : 0 ∈ deferredBuckets hotFlows 10 := by decide +kernel
  rw [hrestore, Option.bind_some, hstate, Option.map_some, decide_eq_true ((hsame 0).mpr hthere)] at hgone
  cases hgone

end Xpf.Cos
