/-
Runs of a shaped queue: items come in at the back, are popped, are put back at the front in
the reverse order of their pops, and the queue is drained; on the way it may be promoted.

The ledger beside the queue writes down what arrived and what has left and not come back.
Everything the queue keeps is compared with the items it holds, and these with the ledger.
-/
import Xpf.Runs
import Xpf.CosQueueOps
import Mathlib.Algebra.Order.BigOperators.Group.List
import Mathlib.Algebra.Order.Group.Nat

set_option autoImplicit false

namespace Xpf.Cos

open Xpf.Sessions (SessionKey)
open Xpf.Runs (run run_snoc EachStep run_invariant_of)

inductive QueueOp
  /-- An item arrives; the seed is drawn and the frontier read if the queue comes to need them. -/
  | pushBack (item : CoSPendingTxItem) (seed : UInt64) (peerFrontier : Option ℕ)
  | pop (targetBps : ℕ)
  /-- The item popped last and not put back since is put back. -/
  | pushFront
  | drainAll
  /-- The rate estimates the capped selection reads are written between two operations. -/
  | observe (observedBps : ℕ → ℕ)

/-- A queue, the items that arrived, and those that left and have not been put back. -/
structure Ledger where
  queue : CoSQueueRuntime
  arrived : List CoSPendingTxItem
  out : List CoSPendingTxItem

/-- An empty queue as it is built: a FIFO, or promoted at once with a seed and the time of
its peers. -/
def Ledger.start (flowFairEligible sharedExact : Bool) (promoted : Option (UInt64 × ℕ)) : Ledger where
  queue :=
    { flowFairEligible := flowFairEligible
      sharedExact := sharedExact
      items := []
      localItemCount := 0
      flowFairState := promoted.map fun p => { FlowFairState.new p.1 with queueVtime := p.2 } }
  arrived := []
  out := []

def observeRates (queue : CoSQueueRuntime) (observedBps : ℕ → ℕ) : CoSQueueRuntime :=
  { queue with
    flowFairState := queue.flowFairState.map fun ff => { ff with flowBucketObservedBps := observedBps } }

/-- One operation; no value where the source panics or does not return. -/
def Ledger.step (s : Ledger) : QueueOp → Option Ledger
  | .pushBack item seed peerFrontier =>
    some { s with
      queue := cosQueuePushBack s.queue seed peerFrontier item
      arrived := s.arrived ++ [item] }
  | .pop targetBps =>
    match snapshotPop s.queue targetBps with
    | none => some s
    | some (item, queue) => some { s with queue := queue, out := s.out ++ [item] }
  | .pushFront =>
    match s.out.getLast? with
    | none => some s
    | some item =>
      (cosQueuePushFront s.queue item).map fun queue => { s with queue := queue, out := s.out.dropLast }
  | .drainAll =>
    (cosQueueDrainAll s.queue).map fun d => { s with queue := d.2, out := s.out ++ d.1 }
  | .observe observedBps => some { s with queue := observeRates s.queue observedBps }

/-- One operation of a run that has not panicked. -/
def advance (s : Option Ledger) (op : QueueOp) : Option Ledger := s.bind fun s => s.step op

/-- The item an operation brings in has a positive length. -/
def QueueOp.Positive : QueueOp → Prop
  | .pushBack item _ _ => 0 < item.len
  | _ => True

instance (op : QueueOp) : Decidable op.Positive :=
  match op with
  | .pushBack item _ _ => inferInstanceAs (Decidable (0 < item.len))
  | .pop _ | .pushFront | .drainAll | .observe _ => .isTrue trivial

namespace Ledger

/-! ## The invariant -/

/-- What holds in every run: the items of each flow are accounted for in their order, and
the snapshots are those of the items that left last. -/
structure Kept (s : Ledger) : Prop where
  sound : s.queue.Sound
  positive : ∀ item ∈ s.out, 0 < item.len
  flows : ∀ k, flow k s.out ++ flow k s.queue.resident = flow k s.arrived
  aligned : ∀ ff, s.queue.flowFairState = some ff → ∀ p ∈ ff.popSnapshotStack.zip s.out.reverse,
    p.1.bucket = ff.bucketOf p.2

theorem Kept.start (flowFairEligible sharedExact : Bool) (promoted : Option (UInt64 × ℕ)) :
    (Ledger.start flowFairEligible sharedExact promoted).Kept := by
  have hlaid : ∀ ff, (Ledger.start flowFairEligible sharedExact promoted).queue.flowFairState = some ff →
      ff.Laid ∧ ff.popSnapshotStack = [] := by
    intro ff hff
    obtain ⟨p, -, rfl⟩ := Option.map_eq_some_iff.mp hff
    exact ⟨FlowFairState.Laid.new p.1 p.2, rfl⟩
  have hsound : (Ledger.start flowFairEligible sharedExact promoted).queue.Sound :=
    ⟨fun _ h => absurd h List.not_mem_nil, fun _ _ => rfl, fun ff hff => (hlaid ff hff).1⟩
  refine ⟨hsound, fun _ h => absurd h List.not_mem_nil, fun k => ?_, fun ff hff => ?_⟩
  · cases hstate : (Ledger.start flowFairEligible sharedExact promoted).queue.flowFairState with
    | none =>
      rw [CoSQueueRuntime.resident_fifo hstate]
      rfl
    | some ff =>
      obtain ⟨p, -, rfl⟩ := Option.map_eq_some_iff.mp hstate
      rw [hsound.flow_promoted hstate]
      rfl
  · rw [(hlaid ff hff).2]
    exact fun _ h => absurd h List.not_mem_nil

theorem counted_start (flowFairEligible sharedExact : Bool) (promoted : Option (UInt64 × ℕ)) :
    (Ledger.start flowFairEligible sharedExact promoted).queue.Counted := by
  have hempty : (Ledger.start flowFairEligible sharedExact promoted).queue.resident = [] := by
    have hflows := (Kept.start flowFairEligible sharedExact promoted).flows
    exact (perm_of_flow_eq hflows).eq_nil
  refine ⟨fun ff hff => ?_, ?_⟩
  · obtain ⟨p, -, rfl⟩ := Option.map_eq_some_iff.mp hff
    exact FlowFairState.Counted.new p.1 p.2
  · rw [hempty]
    rfl

variable {s : Ledger}

/-- **One operation.** It does not panic, keeps the invariant, and keeps the counters right
when what the queue then holds is within them. -/
theorem Kept.step (hs : s.Kept) (op : QueueOp) (hop : op.Positive) :
    ∃ s', s.step op = some s' ∧ s'.Kept ∧ (s.queue.Counted → s'.queue.Fits → s'.queue.Counted) := by
  cases op with
  | pushBack item seed peerFrontier =>
    obtain ⟨hsound, hflows, hcounted, hstack⟩ := pushBack_spec hs.sound seed peerFrontier hop
    refine ⟨_, rfl, ⟨hsound, hs.positive, fun k => ?_, fun ff hff => ?_⟩, hcounted⟩
    · rw [hflows k, ← List.append_assoc, hs.flows k, ← flow_append]
    · rw [hstack ff hff]
      exact fun _ h => absurd h List.not_mem_nil
  | pop targetBps =>
    simp only [Ledger.step]
    cases hpop : snapshotPop s.queue targetBps with
    | none => exact ⟨s, rfl, hs, fun h _ => h⟩
    | some popped =>
      obtain ⟨item, queue⟩ := popped
      obtain ⟨hleft, hstack⟩ := snapshotPop_spec hs.sound hpop
      refine ⟨_, rfl, ⟨hleft.sound, ?_, fun k => ?_, fun ff' hff' => ?_⟩, fun h _ => hleft.queue_counted h⟩
      · intro it hit
        rcases List.mem_append.mp hit with hit | hit
        · exact hs.positive it hit
        · rw [List.mem_singleton.mp hit]
          exact hleft.positive
      · rw [flow_append, List.append_assoc, ← hleft.flows k]
        exact hs.flows k
      · obtain ⟨ff, hff, hseed, top, htop, hstack⟩ := hstack ff' hff'
        have haligned := hs.aligned ff hff
        unfold FlowFairState.bucketOf at haligned htop ⊢
        rw [hstack, List.reverse_concat, List.zip_cons_cons, hseed, List.forall_mem_cons]
        exact ⟨htop, haligned⟩
  | pushFront =>
    simp only [Ledger.step]
    cases hlast : s.out.getLast? with
    | none => exact ⟨s, rfl, hs, fun h _ => h⟩
    | some item =>
      obtain ⟨before, hout⟩ := List.getLast?_eq_some_iff.mp hlast
      have hreverse : s.out.reverse = item :: before.reverse := by
        rw [hout, List.reverse_concat]
      have hpos : 0 < item.len := hs.positive item (hout ▸ List.mem_concat_self)
      -- the snapshot on top is the one the item left when it was popped
      have hmatch : ∀ ff, s.queue.flowFairState = some ff → ∀ top rest, ff.popSnapshotStack = top :: rest →
          top.bucket = ff.bucketOf item := by
        intro ff hff top rest hstack
        refine hs.aligned ff hff (top, item) ?_
        rw [hstack, hreverse, List.zip_cons_cons]
        exact List.mem_cons_self
      obtain ⟨queue, hpush, hentered, hflows, hstack⟩ := pushFront_queue hs.sound hpos hmatch
      refine ⟨{ s with queue := queue, out := s.out.dropLast }, by simp only [hpush, Option.map_some],
        ⟨hentered.sound, ?_, fun k => ?_, fun ff' hff' => ?_⟩, ?_⟩
      · exact fun it hit => hs.positive it (List.mem_of_mem_dropLast hit)
      · have hold := hs.flows k
        rw [hout, flow_append, List.append_assoc, ← hflows k] at hold
        rw [hout, List.dropLast_concat]
        exact hold
      · obtain ⟨ff, hff, hseed, htail⟩ := hstack ff' hff'
        have haligned := hs.aligned ff hff
        unfold FlowFairState.bucketOf at haligned ⊢
        rw [hreverse] at haligned
        rw [htail, hseed, hout, List.dropLast_concat]
        cases hst : ff.popSnapshotStack with
        | nil => exact fun _ h => absurd h List.not_mem_nil
        | cons top rest =>
          rw [hst, List.zip_cons_cons, List.forall_mem_cons] at haligned
          exact haligned.2
      · intro hcounted hfits
        refine ⟨hentered.counted hcounted.buckets hfits.buckets, hentered.locals_exact ?_ hcounted.locals hfits.locals⟩
        refine perm_of_flow_eq fun k => ?_
        exact (hflows k).trans (flow_cons item s.queue.resident).symm
  | drainAll =>
    obtain ⟨items, queue, hdrain, hsound, hempty, hpos, hflows, hcounted, hstack⟩ := drainAll_spec hs.sound
    refine ⟨_, by simp only [Ledger.step, hdrain]; rfl, ⟨hsound, ?_, fun k => ?_, fun ff hff => ?_⟩,
      fun h _ => hcounted h⟩
    · intro it hit
      rcases List.mem_append.mp hit with hit | hit
      · exact hs.positive it hit
      · exact hpos it hit
    · rw [hempty, flow_append, flow_nil, List.append_nil, ← hflows k]
      exact hs.flows k
    · rw [hstack ff hff]
      exact fun _ h => absurd h List.not_mem_nil
  | observe observedBps =>
    have hitems : ∀ ff : FlowFairState,
        ({ ff with flowBucketObservedBps := observedBps } : FlowFairState).flowBucketItems = ff.flowBucketItems :=
      fun _ => rfl
    refine ⟨_, rfl, ⟨?_, hs.positive, fun k => ?_, fun ff hff => ?_⟩, fun hcounted _ => ?_⟩
    · exact sound_of_state hs.sound fun ff h => ⟨h.placed, h.positive, h.fits, h.listed⟩
    · rw [observeRates, resident_of_state hitems]
      exact hs.flows k
    · obtain ⟨ff₀, h₀, rfl⟩ := Option.map_eq_some_iff.mp hff
      exact hs.aligned ff₀ h₀
    · exact counted_of_state hcounted hitems fun ff h => ⟨h.bytes, h.active⟩

/-! ## The books are right -/

/-- Everything a shaped queue keeps, against the items that arrived, left and are there. -/
structure Exact (s : Ledger) : Prop where
  /-- No item is lost and none is there twice. -/
  kept : (s.out ++ s.queue.resident).Perm s.arrived
  /-- The items of a flow have left, and will leave, in the order of their arrival. -/
  inOrder : ∀ key, flow key s.out ++ flow key s.queue.resident = flow key s.arrived
  bucketBytes : ∀ ff, s.queue.flowFairState = some ff →
    ∀ b, ff.flowBucketBytes b = ((ff.flowBucketItems b).map CoSPendingTxItem.len).sum
  ring : ∀ ff, s.queue.flowFairState = some ff → ff.flowRrBuckets.toList.Nodup ∧
    ∀ b, b ∈ ff.flowRrBuckets.toList ↔ ff.flowBucketItems b ≠ []
  activeBuckets : ∀ ff, s.queue.flowFairState = some ff → ff.activeFlowBuckets
    = ((List.range cosFlowFairBuckets).filter fun b => ff.flowBucketItems b ≠ []).length
  locals : s.queue.localItemCount = s.queue.resident.countP CoSPendingTxItem.isLocal
  len : cosQueueLen s.queue = s.queue.resident.length

theorem Kept.exact (hs : s.Kept) (hcounted : s.queue.Counted) : s.Exact where
  kept := perm_of_flow_eq fun k => by rw [flow_append, hs.flows k]
  inOrder := hs.flows
  bucketBytes := fun ff hff => (hcounted.buckets ff hff).bytes
  ring := fun ff hff => ⟨(hs.sound.laid ff hff).listed.nodup, (hs.sound.laid ff hff).listed.mem_iff⟩
  activeBuckets := fun ff hff => by
    have hlaid := hs.sound.laid ff hff
    rw [(hcounted.buckets ff hff).active]
    exact (hlaid.listed.perm_filter hlaid.bucket_lt).length_eq
  locals := hcounted.locals
  len := by
    unfold cosQueueLen
    cases h : s.queue.flowFairState with
    | none => rw [CoSQueueRuntime.resident_fifo h]
    | some ff =>
      have hlaid := hs.sound.laid ff h
      rw [hs.sound.resident_promoted h]
      exact hlaid.listed.sum_length hlaid.bucket_lt

end Ledger

/-- After the operation no bucket holds `2^64` bytes and the queue fewer than `2^32` local items. -/
def WithinCounters (s : Option Ledger) (op : QueueOp) : Prop :=
  ∀ s', advance s op = some s' → s'.queue.Fits

section

variable (flowFairEligible sharedExact : Bool) (promoted : Option (UInt64 × ℕ)) (ops : List QueueOp)

/-- The run of the operations on an empty queue. -/
def runs : Option Ledger := run advance (some (Ledger.start flowFairEligible sharedExact promoted)) ops

theorem kept_run (hpos : ∀ op ∈ ops, op.Positive) :
    ∃ s, runs flowFairEligible sharedExact promoted ops = some s ∧ s.Kept := by
  refine run_invariant_of (P := fun o => ∃ s : Ledger, o = some s ∧ s.Kept)
    (C := fun _ (op : QueueOp) => op.Positive)
    ⟨_, rfl, Ledger.Kept.start flowFairEligible sharedExact promoted⟩ ?_ ?_
  · rintro _ op hop ⟨s, rfl, hs⟩
    obtain ⟨s', hstep, hs', -⟩ := hs.step op hop
    exact ⟨s', hstep, hs'⟩
  · exact fun before op hpre => hpos op (hpre.subset (by simp))

/-- **Shaped-queue bookkeeping is exact** in every run whose items stay within the counters:
no operation panics, and all the queue keeps agrees with the items. -/
theorem shaped_queue_exact (hpos : ∀ op ∈ ops, op.Positive)
    (hfits : EachStep advance (some (Ledger.start flowFairEligible sharedExact promoted)) WithinCounters ops) :
    ∃ s, runs flowFairEligible sharedExact promoted ops = some s ∧ s.Exact := by
  have hrun : ∃ s, runs flowFairEligible sharedExact promoted ops = some s ∧ s.Kept ∧ s.queue.Counted := by
    refine run_invariant_of (P := fun o => ∃ s : Ledger, o = some s ∧ s.Kept ∧ s.queue.Counted)
      (C := fun o (op : QueueOp) => op.Positive ∧ WithinCounters o op)
      ⟨_, rfl, Ledger.Kept.start _ _ _, Ledger.counted_start _ _ _⟩ ?_ ?_
    · rintro _ op ⟨hop, hwithin⟩ ⟨s, rfl, hs, hcounted⟩
      obtain ⟨s', hstep, hs', hcount⟩ := hs.step op hop
      exact ⟨s', hstep, hs', hcount hcounted (hwithin s' hstep)⟩
    · exact fun before op hpre => ⟨hpos op (hpre.subset (by simp)), hfits before op hpre⟩
  obtain ⟨s, hs, hkept, hcounted⟩ := hrun
  exact ⟨s, hs, hkept.exact hcounted⟩

/-- What the pushes of a list of operations bring in. -/
def pushedItems (ops : List QueueOp) : List CoSPendingTxItem :=
  ops.filterMap fun
    | .pushBack item _ _ => some item
    | _ => none

/-- The ledger's arrivals are the pushed items. -/
theorem arrived_run {ops : List QueueOp} {s : Ledger}
    (h : runs flowFairEligible sharedExact promoted ops = some s) : s.arrived = pushedItems ops := by
  induction ops using List.reverseRecOn generalizing s with
  | nil =>
    obtain rfl := Option.some.inj h
    rfl
  | append_singleton before op ih =>
    rw [runs, run_snoc] at h
    obtain ⟨s₀, h₀, hstep⟩ := Option.bind_eq_some_iff.mp h
    rw [pushedItems, List.filterMap_append, ← pushedItems, ← ih h₀]
    cases op with
    | pushBack item seed peerFrontier =>
      obtain rfl := Option.some.inj hstep
      rfl
    | pop targetBps =>
      simp only [Ledger.step] at hstep
      split at hstep <;> obtain rfl := Option.some.inj hstep <;> simp
    | pushFront =>
      simp only [Ledger.step] at hstep
      split at hstep
      · obtain rfl := Option.some.inj hstep
        simp
      · obtain ⟨queue, -, rfl⟩ := Option.map_eq_some_iff.mp hstep
        simp
    | drainAll =>
      obtain ⟨d, -, rfl⟩ := Option.map_eq_some_iff.mp hstep
      simp
    | observe observedBps =>
      obtain rfl := Option.some.inj hstep
      simp

/-- A run that brings in fewer than `2^64` bytes and `2^32` items stays within the counters. -/
theorem within_of_pushed (hpos : ∀ op ∈ ops, op.Positive) (hbytes : total (pushedItems ops) < 2 ^ 64)
    (hlen : (pushedItems ops).length < 2 ^ 32) :
    EachStep advance (some (Ledger.start flowFairEligible sharedExact promoted)) WithinCounters ops := by
  intro before op hpre s' hs'
  have hrun : runs flowFairEligible sharedExact promoted (before ++ [op]) = some s' := by
    rw [runs, run_snoc]
    exact hs'
  obtain ⟨s, hs, hkept⟩ := kept_run flowFairEligible sharedExact promoted (before ++ [op])
    fun o ho => hpos o (hpre.subset ho)
  obtain rfl : s = s' := Option.some.inj (hs.symm.trans hrun)
  -- what the queue holds is among the arrivals, and these among the pushed items
  have hsub : s.queue.resident.Subperm (pushedItems ops) := by
    have harrived := arrived_run flowFairEligible sharedExact promoted hrun
    have hperm : (s.out ++ s.queue.resident).Perm s.arrived := perm_of_flow_eq fun k => by
      rw [flow_append, hkept.flows k]
    have hpushed : s.arrived.Sublist (pushedItems ops) := by
      rw [harrived]
      exact hpre.sublist.filterMap _
    exact (List.sublist_append_right _ _).subperm.trans (hperm.subperm.trans hpushed.subperm)
  have htotal : ∀ l : List CoSPendingTxItem, l.Subperm (pushedItems ops) → total l ≤ total (pushedItems ops) := by
    rintro l ⟨l', hperm, hsublist⟩
    rw [← total_perm hperm]
    exact List.Sublist.sum_le_sum (hsublist.map _) fun _ _ => Nat.zero_le _
  refine ⟨fun ff hff b => ?_, ?_⟩
  · have hlaid := hkept.sound.laid ff hff
    have hbucket : (ff.flowBucketItems b).Subperm s.queue.resident := by
      rcases eq_or_ne (ff.flowBucketItems b) [] with hb | hb
      · rw [hb]
        exact List.nil_subperm
      · rw [hkept.sound.resident_promoted hff]
        exact (List.sublist_flatten_of_mem (List.mem_map_of_mem (List.mem_range.mpr (hlaid.bucket_lt b hb)))).subperm
    exact (htotal _ (hbucket.trans hsub)).trans_lt hbytes
  · exact (List.countP_le_length.trans hsub.length_le).trans_lt hlen

end

/-- A local item of one byte and one prepared item, of two flows. -/
def firstItem : CoSPendingTxItem := .localTx { bytes := [0], flowKey := none }

def secondItem : CoSPendingTxItem :=
  .preparedTx
    { offset := 0
      len := 60
      flowKey := some
        { addrFamily := 2, protocol := 17, srcIp := .v4 1, dstIp := .v4 2, srcPort := 53, dstPort := 53,
          discriminator := .none, routingDomain := 0 } }

/-- A FIFO that is promoted by its second item, popped, rolled back and drained. -/
theorem shaped_queue_exact_promoted :
    ∃ s, runs true false none
      [.pushBack firstItem 7 none, .pushBack secondItem 7 none, .pop u64Max, .pushFront, .drainAll] = some s ∧
      s.Exact := by
  refine shaped_queue_exact true false none _ (by decide) ?_
  exact within_of_pushed true false none _ (by decide) (by decide) (by decide)

/-- The FIFO after `n` pushes of one local item. -/
theorem runs_locals (n : ℕ) :
    runs false false none (List.replicate n (.pushBack firstItem 0 none)) = some
      { queue :=
          { flowFairEligible := false, sharedExact := false, items := List.replicate n firstItem
            localItemCount := min n (2 ^ 32 - 1), flowFairState := none }
        arrived := List.replicate n firstItem
        out := [] } := by
  induction n with
  | zero => rfl
  | succ n ih =>
    have hcount : saturatingAdd32 (min n (2 ^ 32 - 1)) 1 = min (n + 1) (2 ^ 32 - 1) := by
      unfold saturatingAdd32
      omega
    rw [runs, List.replicate_succ', run_snoc, ← runs, ih, List.replicate_succ', ← hcount]
    rfl

/-- With `2^32` local items in the queue their count has stopped one short. -/
theorem shaped_queue_saturates :
    (∀ op ∈ List.replicate (2 ^ 32) (QueueOp.pushBack firstItem 0 none), op.Positive) ∧
      ¬ ∃ s, runs false false none (List.replicate (2 ^ 32) (.pushBack firstItem 0 none)) = some s ∧ s.Exact := by
  constructor
  · intro op hop
    rw [List.eq_of_mem_replicate hop]
    exact Nat.zero_lt_one
  · rintro ⟨s, hs, hexact⟩
    have hlocals := hexact.locals
    obtain rfl := Option.some.inj (hs.symm.trans (runs_locals (2 ^ 32)))
    rw [CoSQueueRuntime.resident_fifo rfl, List.countP_replicate, if_pos (show firstItem.isLocal = true from rfl)] at hlocals
    change min (2 ^ 32) (2 ^ 32 - 1) = 2 ^ 32 at hlocals
    omega

end Xpf.Cos
