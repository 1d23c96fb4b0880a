/-
The operations of a shaped queue, each with one statement of what it does: to the items of
every flow in their order, to the counters, and to the stack of snapshots. FIFO and promoted
queues, and pops with and without a snapshot, meet in these statements.
-/
import Xpf.CosBuckets

set_option autoImplicit false

namespace Xpf.Cos

open Xpf.Sessions (SessionKey)
open Xpf.Roster
open FlowFairState (Gained Lost)

/-- The items of one flow, in their order. -/
def flow (key : Option SessionKey) (l : List CoSPendingTxItem) : List CoSPendingTxItem :=
  ofKey CoSPendingTxItem.flowKey key l

section

variable {k : Option SessionKey}

@[simp] theorem flow_nil : flow k [] = [] := rfl

@[simp] theorem flow_append (l₁ l₂ : List CoSPendingTxItem) : flow k (l₁ ++ l₂) = flow k l₁ ++ flow k l₂ :=
  ofKey_append l₁ l₂

theorem flow_cons (item : CoSPendingTxItem) (l : List CoSPendingTxItem) :
    flow k (item :: l) = flow k [item] ++ flow k l := ofKey_cons item l

theorem flow_singleton_of_ne {item : CoSPendingTxItem} (h : item.flowKey ≠ k) : flow k [item] = [] :=
  ofKey_singleton_of_ne h

theorem perm_of_flow_eq {l₁ l₂ : List CoSPendingTxItem} (h : ∀ k, flow k l₁ = flow k l₂) : l₁.Perm l₂ :=
  perm_of_ofKey_eq h

end

namespace CoSQueueRuntime

/-- The items are where the queue's operations look for them. -/
structure Sound (q : CoSQueueRuntime) : Prop where
  positive : ∀ item ∈ q.items, 0 < item.len
  moved : ∀ ff, q.flowFairState = some ff → q.items = []
  laid : ∀ ff, q.flowFairState = some ff → ff.Laid

def BucketsCounted (q : CoSQueueRuntime) : Prop := ∀ ff, q.flowFairState = some ff → ff.Counted

/-- No bucket holds more bytes than its counter can say. -/
def BucketsFit (q : CoSQueueRuntime) : Prop :=
  ∀ ff, q.flowFairState = some ff → ∀ b, total (ff.flowBucketItems b) < 2 ^ 64

/-- The counters of the queue are right. -/
structure Counted (q : CoSQueueRuntime) : Prop where
  buckets : q.BucketsCounted
  locals : q.localItemCount = q.resident.countP CoSPendingTxItem.isLocal

/-- What the queue holds is within its counters. -/
structure Fits (q : CoSQueueRuntime) : Prop where
  buckets : q.BucketsFit
  locals : q.resident.countP CoSPendingTxItem.isLocal < 2 ^ 32

variable {q q' : CoSQueueRuntime} {ff ff' : FlowFairState} {item : CoSPendingTxItem}

theorem resident_fifo (h : q.flowFairState = none) : q.resident = q.items := by
  rw [resident, h, List.append_nil]

theorem Sound.resident_promoted (hq : q.Sound) (h : q.flowFairState = some ff) :
    q.resident = (List.range cosFlowFairBuckets).flatMap ff.flowBucketItems := by
  rw [resident, h, hq.moved ff h, List.nil_append]

theorem Sound.flow_promoted (hq : q.Sound) (h : q.flowFairState = some ff) (k : Option SessionKey) :
    flow k q.resident = flow k (ff.flowBucketItems (cosFlowBucketIndex ff.flowHashSeed k)) := by
  rw [hq.resident_promoted h]
  exact (hq.laid ff h).ofKey_eq k

theorem Sound.promoted (hlaid : ff.Laid) (hitems : q.items = []) (h : q.flowFairState = some ff) : q.Sound where
  positive := by
    rw [hitems]
    exact fun _ hmem => absurd hmem List.not_mem_nil
  moved := fun _ _ => hitems
  laid := fun ff' h' => by
    obtain rfl : ff = ff' := Option.some.inj (h.symm.trans h')
    exact hlaid

theorem Sound.fifo (hpos : ∀ item ∈ q.items, 0 < item.len) (h : q.flowFairState = none) : q.Sound where
  positive := hpos
  moved := fun _ h' => by simp [h] at h'
  laid := fun _ h' => by simp [h] at h'

end CoSQueueRuntime

open CoSQueueRuntime (BucketsCounted BucketsFit)

section

variable {q q' : CoSQueueRuntime} {ff ff' : FlowFairState} {item : CoSPendingTxItem}

@[simp] theorem countLocalIn_items : (countLocalIn q item).items = q.items := by
  unfold countLocalIn
  split <;> rfl

@[simp] theorem countLocalIn_flowFairState : (countLocalIn q item).flowFairState = q.flowFairState := by
  unfold countLocalIn
  split <;> rfl

theorem countLocalIn_count : (countLocalIn q item).localItemCount
    = if item.isLocal then saturatingAdd32 q.localItemCount 1 else q.localItemCount := by
  unfold countLocalIn
  split <;> rfl

@[simp] theorem countLocalOut_items : (countLocalOut q item).items = q.items := by
  unfold countLocalOut
  split <;> rfl

@[simp] theorem countLocalOut_flowFairState : (countLocalOut q item).flowFairState = q.flowFairState := by
  unfold countLocalOut
  split <;> rfl

theorem countLocalOut_count : (countLocalOut q item).localItemCount
    = if item.isLocal then q.localItemCount - 1 else q.localItemCount := by
  unfold countLocalOut
  split <;> rfl

/-! ## Pushes -/

/-- What a push does to a queue, at either end. -/
structure Entered (q q' : CoSQueueRuntime) (item : CoSPendingTxItem) : Prop where
  sound : q'.Sound
  locals : q'.localItemCount
    = if item.isLocal then saturatingAdd32 q.localItemCount 1 else q.localItemCount
  fit : q'.BucketsFit → q.BucketsFit
  counted : q.BucketsCounted → q'.BucketsFit → q'.BucketsCounted

/-- A push to a FIFO. -/
theorem entered_fifo {l : List CoSPendingTxItem} (hq : q.Sound) (h : q.flowFairState = none)
    (hpos : 0 < item.len) (hl : l.Perm (item :: q.items)) :
    Entered q { countLocalIn q item with items := l } item := by
  have hnone : ∀ r : CoSQueueRuntime, r.flowFairState = none → r.BucketsFit ∧ r.BucketsCounted := by
    intro r hr
    exact ⟨fun ff hff => by simp [hr] at hff, fun ff hff => by simp [hr] at hff⟩
  have hstate : ({ countLocalIn q item with items := l } : CoSQueueRuntime).flowFairState = none := by simp [h]
  constructor
  · refine CoSQueueRuntime.Sound.fifo ?_ hstate
    intro it hit
    rcases List.mem_cons.mp (hl.mem_iff.mp hit) with rfl | hit
    · exact hpos
    · exact hq.positive it hit
  · exact countLocalIn_count
  · exact fun _ => (hnone q h).1
  · exact fun _ _ => (hnone _ hstate).2

/-- A push to a promoted queue. -/
theorem entered_promoted {l : List CoSPendingTxItem} (hq : q.Sound) (h : q.flowFairState = some ff)
    (hpos : 0 < item.len) (hgain : Gained ff ff' item l)
    (hl : l.Perm (item :: ff.flowBucketItems (ff.bucketOf item))) :
    Entered q { countLocalIn q item with flowFairState := some ff' } item := by
  have hlaid := hq.laid ff h
  have hfit : BucketsFit { countLocalIn q item with flowFairState := some ff' } →
      ∀ b, total (ff'.flowBucketItems b) < 2 ^ 64 := fun hfit => hfit ff' rfl
  constructor
  · refine CoSQueueRuntime.Sound.promoted (hgain.laid hl hpos hlaid) ?_ rfl
    simp [hq.moved ff h]
  · exact countLocalIn_count
  · intro hq' ff₀ h₀ b
    obtain rfl : ff = ff₀ := Option.some.inj (h.symm.trans h₀)
    have hb := hfit hq' b
    rw [hgain.items] at hb
    rcases eq_or_ne b (ff.bucketOf item) with rfl | hne
    · rw [Function.update_self, total_perm hl, total_cons] at hb
      omega
    · rwa [Function.update_of_ne hne] at hb
  · intro hcounted hq' ff₁ h₁
    obtain rfl : ff' = ff₁ := Option.some.inj h₁
    refine hgain.counted hl hlaid (hcounted ff h) ?_
    have hb := hfit hq' (ff.bucketOf item)
    rwa [hgain.items, Function.update_self] at hb

/-- The flows after a push to a promoted queue. -/
theorem flow_gained {l : List CoSPendingTxItem} (hq : q.Sound) (h : q.flowFairState = some ff)
    (hq' : q'.Sound) (h' : q'.flowFairState = some ff') (hgain : Gained ff ff' item l)
    (k : Option SessionKey) :
    flow k q'.resident
      = if cosFlowBucketIndex ff.flowHashSeed k = ff.bucketOf item then flow k l else flow k q.resident := by
  rw [hq'.flow_promoted h', hq.flow_promoted h, hgain.bucket_eq k]
  split <;> rfl

theorem ne_of_bucket_ne {k : Option SessionKey} (h : cosFlowBucketIndex ff.flowHashSeed k ≠ ff.bucketOf item) :
    item.flowKey ≠ k := fun heq => h (by rw [← heq])

theorem pushBackProbed_fifo (h : q.flowFairState = none) (peerFrontier : Option ℕ) (item : CoSPendingTxItem) :
    pushBackProbed q peerFrontier item = { countLocalIn q item with items := q.items ++ [item] } := by
  obtain ⟨eligible, sharedExact, items, count, state⟩ := q
  cases h
  cases item <;> rfl

theorem pushBackProbed_promoted (h : q.flowFairState = some ff) (peerFrontier : Option ℕ) (hpos : 0 < item.len) :
    ∃ reentryFrontier, pushBackProbed q peerFrontier item
      = { countLocalIn q item with flowFairState := some (ff.enqueue reentryFrontier item) } := by
  obtain ⟨eligible, sharedExact, items, count, state⟩ := q
  cases h
  refine ⟨if sharedExact && ff.activeFlowBuckets == 0 then peerFrontier else none, ?_⟩
  unfold pushBackProbed accountCosQueueFlowEnqueue
  simp only [clearSnapshots, countLocalIn_flowFairState, Option.map_some, if_neg hpos.ne']
  cases item <;> rfl

theorem entered_pushBackProbed (hq : q.Sound) (peerFrontier : Option ℕ) (hpos : 0 < item.len) :
    Entered q (pushBackProbed q peerFrontier item) item := by
  cases h : q.flowFairState with
  | none =>
    rw [pushBackProbed_fifo h]
    exact entered_fifo hq h hpos (List.perm_append_singleton _ _)
  | some ff =>
    obtain ⟨reentryFrontier, heq⟩ := pushBackProbed_promoted h peerFrontier hpos
    rw [heq]
    exact entered_promoted hq h hpos (ff.gained_enqueue reentryFrontier item) (List.perm_append_singleton _ _)

theorem flow_pushBackProbed (hq : q.Sound) (peerFrontier : Option ℕ) (hpos : 0 < item.len)
    (k : Option SessionKey) :
    flow k (pushBackProbed q peerFrontier item).resident = flow k q.resident ++ flow k [item] := by
  have hq' := (entered_pushBackProbed hq peerFrontier hpos).sound
  cases h : q.flowFairState with
  | none =>
    have h' : (pushBackProbed q peerFrontier item).flowFairState = none := by
      rw [pushBackProbed_fifo h, countLocalIn_flowFairState, h]
    rw [CoSQueueRuntime.resident_fifo h', CoSQueueRuntime.resident_fifo h, pushBackProbed_fifo h]
    exact flow_append _ _
  | some ff =>
    obtain ⟨reentryFrontier, heq⟩ := pushBackProbed_promoted h peerFrontier hpos
    have h' : (pushBackProbed q peerFrontier item).flowFairState = some (ff.enqueue reentryFrontier item) := by
      rw [heq]
    rw [flow_gained hq h hq' h' (ff.gained_enqueue reentryFrontier item) k]
    split
    · rename_i hb
      rw [hq.flow_promoted h, hb]
      exact flow_append _ _
    · rename_i hb
      rw [flow_singleton_of_ne (ne_of_bucket_ne hb), List.append_nil]

/-- A push at the back leaves no snapshot behind and does not promote below the probe. -/
theorem pushBackProbed_state (peerFrontier : Option ℕ) (hpos : 0 < item.len) :
    (q.flowFairState = none → (pushBackProbed q peerFrontier item).flowFairState = none) ∧
      ∀ ff, q.flowFairState = some ff → ∃ ff', (pushBackProbed q peerFrontier item).flowFairState = some ff' ∧
        ff'.popSnapshotStack = [] := by
  constructor
  · intro h
    rw [pushBackProbed_fifo h, countLocalIn_flowFairState, h]
  · intro ff h
    obtain ⟨reentryFrontier, heq⟩ := pushBackProbed_promoted h peerFrontier hpos
    exact ⟨_, by rw [heq], ff.enqueue_stack reentryFrontier item⟩

/-! ## Promotion -/

/-- One item moved over: out of the count of the FIFO and into its bucket. -/
def moveItem (peerFrontier : Option ℕ) (q : CoSQueueRuntime) (item : CoSPendingTxItem) : CoSQueueRuntime :=
  pushBackProbed (countLocalOut q item) peerFrontier item

theorem sound_countLocalOut (hq : q.Sound) : (countLocalOut q item).Sound where
  positive := by simpa using hq.positive
  moved := by simpa using hq.moved
  laid := by simpa using hq.laid

theorem resident_countLocalOut : (countLocalOut q item).resident = q.resident := by
  simp [CoSQueueRuntime.resident]

/-- What moving a list of items into a promoted queue does. -/
structure Moved (q q' : CoSQueueRuntime) (l : List CoSPendingTxItem) : Prop where
  sound : q'.Sound
  flows : ∀ k, flow k q'.resident = flow k q.resident ++ flow k l
  fit : q'.BucketsFit → q.BucketsFit
  counted : q.BucketsCounted → q'.BucketsFit → q'.BucketsCounted
  locals : l.countP CoSPendingTxItem.isLocal ≤ q.localItemCount → q.localItemCount < 2 ^ 32 →
    q'.localItemCount = q.localItemCount
  promoted : ∃ ff, q'.flowFairState = some ff

theorem moved_items (peerFrontier : Option ℕ) (l : List CoSPendingTxItem) (hq : q.Sound)
    (hff : ∃ ff, q.flowFairState = some ff) (hpos : ∀ item ∈ l, 0 < item.len) :
    Moved q (l.foldl (moveItem peerFrontier) q) l := by
  induction l generalizing q with
  | nil => exact ⟨hq, fun k => by simp, id, fun h _ => h, fun _ _ => rfl, hff⟩
  | cons item l ih =>
    have hitem : 0 < item.len := hpos item List.mem_cons_self
    have hout : (countLocalOut q item).Sound := sound_countLocalOut hq
    have hstep : Entered (countLocalOut q item) (moveItem peerFrontier q item) item :=
      entered_pushBackProbed hout peerFrontier hitem
    obtain ⟨ff, hff⟩ := hff
    obtain ⟨ff', hff', -⟩ := (pushBackProbed_state peerFrontier hitem).2 ff (countLocalOut_flowFairState.trans hff)
    have hrest := ih hstep.sound ⟨ff', hff'⟩ fun it hit => hpos it (List.mem_cons_of_mem _ hit)
    rw [List.foldl_cons]
    constructor
    · exact hrest.sound
    · intro k
      have hflow := flow_pushBackProbed hout peerFrontier hitem k
      rw [resident_countLocalOut] at hflow
      rw [hrest.flows k, moveItem, hflow, flow_cons item l, List.append_assoc]
    · intro hfit
      have := hstep.fit (hrest.fit hfit)
      exact fun ff h => this ff (countLocalOut_flowFairState.trans h)
    · intro hcounted hfit
      refine hrest.counted (hstep.counted ?_ (hrest.fit hfit)) hfit
      exact fun ff h => hcounted ff (countLocalOut_flowFairState.symm.trans h)
    · intro hle hlt
      have hback : (moveItem peerFrontier q item).localItemCount = q.localItemCount := by
        rw [hstep.locals, countLocalOut_count]
        by_cases hlocal : item.isLocal
        · rw [List.countP_cons_of_pos hlocal] at hle
          rw [if_pos hlocal, if_pos hlocal, saturatingAdd32]
          omega
        · rw [if_neg hlocal, if_neg hlocal]
      refine (hrest.locals ?_ ?_).trans hback
      · rw [List.countP_cons] at hle
        rw [hback]
        omega
      · rw [hback]
        exact hlt
    · exact hrest.promoted

/-- A promotion moves every item, in order, and changes no count. -/
theorem moved_promotion (hq : q.Sound) (h : q.flowFairState = none) (seed : UInt64) (peerFrontier : Option ℕ) :
    (promoteToFlowFair q seed peerFrontier).Sound ∧
      (∀ k, flow k (promoteToFlowFair q seed peerFrontier).resident = flow k q.resident) ∧
      (q.Counted → q.resident.countP CoSPendingTxItem.isLocal < 2 ^ 32 →
        (promoteToFlowFair q seed peerFrontier).BucketsFit → (promoteToFlowFair q seed peerFrontier).Counted) := by
  have hres := CoSQueueRuntime.resident_fifo h
  -- the promoted queue before the items are moved
  have hstart : ({ q with items := [], flowFairState := some (FlowFairState.new seed) } : CoSQueueRuntime).Sound :=
    CoSQueueRuntime.Sound.promoted (FlowFairState.Laid.new seed 0) rfl rfl
  have hempty : ∀ k, flow k ({ q with items := [], flowFairState := some (FlowFairState.new seed) } :
      CoSQueueRuntime).resident = [] := by
    intro k
    rw [hstart.flow_promoted rfl]
    rfl
  have hmoved := moved_items peerFrontier q.items hstart ⟨_, rfl⟩ hq.positive
  have hflows : ∀ k, flow k (promoteToFlowFair q seed peerFrontier).resident = flow k q.resident := by
    intro k
    refine (hmoved.flows k).trans ?_
    rw [hempty, List.nil_append, hres]
  refine ⟨hmoved.sound, hflows, fun hcounted hlt hfit => ⟨?_, ?_⟩⟩
  · refine hmoved.counted ?_ hfit
    intro ff hff
    obtain rfl := Option.some.inj hff
    exact FlowFairState.Counted.new seed 0
  · rw [(perm_of_flow_eq hflows).countP_eq, ← hcounted.locals]
    refine hmoved.locals ?_ ?_
    · rw [← hres, ← hcounted.locals]
    · rw [← hcounted.locals] at hlt
      exact hlt

theorem Entered.locals_exact (h : Entered q q' item) (hperm : q'.resident.Perm (item :: q.resident))
    (hcounted : q.localItemCount = q.resident.countP CoSPendingTxItem.isLocal)
    (hfit : q'.resident.countP CoSPendingTxItem.isLocal < 2 ^ 32) :
    q'.localItemCount = q'.resident.countP CoSPendingTxItem.isLocal := by
  rw [hperm.countP_eq, List.countP_cons] at hfit ⊢
  rw [h.locals, hcounted]
  by_cases hlocal : item.isLocal
  · rw [if_pos hlocal] at hfit ⊢
    rw [if_pos hlocal, saturatingAdd32]
    omega
  · rw [if_neg hlocal, if_neg hlocal, Nat.add_zero]

theorem perm_pushed_back (h : ∀ k, flow k q'.resident = flow k q.resident ++ flow k [item]) :
    q'.resident.Perm (item :: q.resident) := by
  refine (perm_of_flow_eq fun k => ?_).trans (List.perm_append_singleton item q.resident)
  rw [h k, flow_append]

/-- The probe either leaves the queue or promotes it, and in both cases moves nothing out. -/
theorem maybePromote_spec (hq : q.Sound) (seed : UInt64) (peerFrontier : Option ℕ) (incoming : CoSPendingTxItem) :
    (maybePromoteBestEffort q seed peerFrontier incoming).Sound ∧
      (∀ k, flow k (maybePromoteBestEffort q seed peerFrontier incoming).resident = flow k q.resident) ∧
      (q.Counted → q.resident.countP CoSPendingTxItem.isLocal < 2 ^ 32 →
        (maybePromoteBestEffort q seed peerFrontier incoming).BucketsFit →
          (maybePromoteBestEffort q seed peerFrontier incoming).Counted) := by
  have hstay : q.Sound ∧ (∀ k, flow k q.resident = flow k q.resident) ∧
      (q.Counted → q.resident.countP CoSPendingTxItem.isLocal < 2 ^ 32 → q.BucketsFit → q.Counted) :=
    ⟨hq, fun _ => rfl, fun h _ _ => h⟩
  unfold maybePromoteBestEffort
  split
  · exact hstay
  · rename_i hprobe
    have hnone : q.flowFairState = none := by
      simp only [Bool.or_eq_true, not_or, Bool.not_eq_true, Option.isSome_eq_false_iff,
        Option.isNone_iff_eq_none] at hprobe
      exact hprobe.2
    split
    · exact hstay
    · split
      · exact hstay
      · exact moved_promotion hq hnone seed peerFrontier

theorem pushBack_spec (hq : q.Sound) (seed : UInt64) (peerFrontier : Option ℕ) (hpos : 0 < item.len) :
    (cosQueuePushBack q seed peerFrontier item).Sound ∧
      (∀ k, flow k (cosQueuePushBack q seed peerFrontier item).resident = flow k q.resident ++ flow k [item]) ∧
      (q.Counted → (cosQueuePushBack q seed peerFrontier item).Fits →
        (cosQueuePushBack q seed peerFrontier item).Counted) ∧
      ∀ ff, (cosQueuePushBack q seed peerFrontier item).flowFairState = some ff → ff.popSnapshotStack = [] := by
  obtain ⟨hsound, hflows, hcount⟩ := maybePromote_spec hq seed peerFrontier item
  have hentered := entered_pushBackProbed hsound peerFrontier hpos
  have hprobed := flow_pushBackProbed hsound peerFrontier hpos
  have hflow : ∀ k, flow k (cosQueuePushBack q seed peerFrontier item).resident
      = flow k q.resident ++ flow k [item] := by
    intro k
    exact (hprobed k).trans (by rw [hflows k])
  refine ⟨hentered.sound, hflow, fun hcounted hfits => ?_, fun ff hff => ?_⟩
  · have hlocals : q.resident.countP CoSPendingTxItem.isLocal < 2 ^ 32 := by
      have hlt := hfits.locals
      rw [(perm_pushed_back hflow).countP_eq, List.countP_cons] at hlt
      omega
    have hpromoted := hcount hcounted hlocals (hentered.fit hfits.buckets)
    exact ⟨hentered.counted hpromoted.buckets hfits.buckets,
      hentered.locals_exact (perm_pushed_back hprobed) hpromoted.locals hfits.locals⟩
  · have hstate := pushBackProbed_state (q := maybePromoteBestEffort q seed peerFrontier item) peerFrontier hpos
    cases h : (maybePromoteBestEffort q seed peerFrontier item).flowFairState with
    | none =>
      have hnone := hstate.1 h
      rw [cosQueuePushBack, hnone] at hff
      cases hff
    | some ff₀ =>
      obtain ⟨ff', hff', hstack⟩ := hstate.2 ff₀ h
      rw [cosQueuePushBack, hff'] at hff
      obtain rfl := Option.some.inj hff
      exact hstack

/-! ## Pops -/

/-- What a pop does to a queue. -/
structure Left (q q' : CoSQueueRuntime) (item : CoSPendingTxItem) : Prop where
  sound : q'.Sound
  positive : 0 < item.len
  flows : ∀ k, flow k q.resident = flow k [item] ++ flow k q'.resident
  locals : q'.localItemCount = if item.isLocal then q.localItemCount - 1 else q.localItemCount
  counted : q.BucketsCounted → q'.BucketsCounted

theorem pop_fifo (hq : q.Sound) (h : q.flowFairState = none) {b : ℕ} {pushSnapshot : Bool}
    (hpop : cosQueuePopKnownBucketInner q b pushSnapshot = some (item, q')) :
    Left q q' item ∧ q'.flowFairState = none := by
  obtain ⟨eligible, sharedExact, items, count, state⟩ := q
  cases h
  cases items with
  | nil => simp [cosQueuePopKnownBucketInner] at hpop
  | cons first rest =>
    have hpop' : some (first, countLocalOut ⟨eligible, sharedExact, rest, count, none⟩ first) = some (item, q') := by
      rw [← hpop]
      cases first <;> rfl
    obtain ⟨rfl, rfl⟩ := Prod.mk.inj (Option.some.inj hpop')
    have hstate : (countLocalOut ⟨eligible, sharedExact, rest, count, none⟩ first).flowFairState = none := by simp
    refine ⟨⟨?_, ?_, ?_, ?_, ?_⟩, hstate⟩
    · refine CoSQueueRuntime.Sound.fifo ?_ hstate
      intro it hit
      rw [countLocalOut_items] at hit
      exact hq.positive it (List.mem_cons_of_mem _ hit)
    · exact hq.positive first List.mem_cons_self
    · intro k
      rw [CoSQueueRuntime.resident_fifo rfl, CoSQueueRuntime.resident_fifo hstate, countLocalOut_items]
      exact flow_cons first rest
    · exact countLocalOut_count
    · intro _ ff hff
      rw [hstate] at hff
      cases hff

/-- The snapshot a pop leaves behind. -/
theorem takeHead_stack {b : ℕ} {pushSnapshot : Bool} (h : ff.takeHead b pushSnapshot = some (item, ff')) :
    (pushSnapshot = false → ff'.popSnapshotStack = ff.popSnapshotStack) ∧
      (pushSnapshot = true → ∃ top, top.bucket = b ∧ ff'.popSnapshotStack = top :: ff.popSnapshotStack) := by
  unfold FlowFairState.takeHead at h
  dsimp only at h
  split at h
  · cases h
  · obtain ⟨rfl, rfl⟩ := Prod.mk.inj (Option.some.inj h)
    constructor
    · rintro rfl
      rfl
    · rintro rfl
      exact ⟨_, rfl, rfl⟩

theorem accountDequeue_stack (flowKey : Option SessionKey) (itemLen : ℕ) :
    (ff.accountDequeue flowKey itemLen).popSnapshotStack = ff.popSnapshotStack := by
  unfold FlowFairState.accountDequeue
  dsimp only
  split <;> rfl

theorem pop_promoted (hq : q.Sound) (h : q.flowFairState = some ff) {b : ℕ} {pushSnapshot : Bool}
    (hpop : cosQueuePopKnownBucketInner q b pushSnapshot = some (item, q')) :
    Left q q' item ∧ ∃ ff', q'.flowFairState = some ff' ∧ ff'.flowHashSeed = ff.flowHashSeed ∧
      (pushSnapshot = false → ff'.popSnapshotStack = ff.popSnapshotStack) ∧
      (pushSnapshot = true → ∃ top, top.bucket = ff.bucketOf item ∧
        ff'.popSnapshotStack = top :: ff.popSnapshotStack) := by
  have hlaid := hq.laid ff h
  unfold cosQueuePopKnownBucketInner at hpop
  simp only [h] at hpop
  cases htake : ff.takeHead b pushSnapshot with
  | none => simp [htake] at hpop
  | some taken =>
    obtain ⟨first, ff₁⟩ := taken
    obtain ⟨rest, hbucket, hlost⟩ := FlowFairState.takeHead_lost hlaid.placed htake
    have hpos : 0 < first.len := by
      refine hlaid.positive (ff.bucketOf first) first ?_
      rw [hlost.head]
      exact List.mem_cons_self
    rw [htake] at hpop
    simp only [Option.map_some, Option.some.injEq, Prod.mk.injEq] at hpop
    obtain ⟨rfl, hq'⟩ := hpop
    have hstate : q'.flowFairState = some (ff₁.accountDequeue first.flowKey first.len) := by
      rw [← hq']
      unfold accountCosQueueFlowDequeue
      simp only [countLocalOut_flowFairState, if_neg hpos.ne']
    have hitems : q'.items = [] := by
      rw [← hq', ← hq.moved ff h]
      unfold accountCosQueueFlowDequeue
      simp only [countLocalOut_flowFairState, if_neg hpos.ne', countLocalOut_items]
    have hcount : q'.localItemCount = if first.isLocal then q.localItemCount - 1 else q.localItemCount := by
      rw [← hq']
      unfold accountCosQueueFlowDequeue
      simp only [countLocalOut_flowFairState, if_neg hpos.ne', countLocalOut_count]
    have hq'sound : q'.Sound := CoSQueueRuntime.Sound.promoted (hlost.laid hlaid) hitems hstate
    have hstack := takeHead_stack htake
    rw [← accountDequeue_stack first.flowKey first.len] at hstack
    refine ⟨⟨hq'sound, hpos, fun k => ?_, hcount, ?_⟩, _, hstate, hlost.seed, ?_⟩
    · rw [hq.flow_promoted h, hq'sound.flow_promoted hstate, hlost.items, hlost.seed]
      rcases eq_or_ne (cosFlowBucketIndex ff.flowHashSeed k) (ff.bucketOf first) with hb | hb
      · rw [hb, Function.update_self, hlost.head]
        exact flow_cons first rest
      · rw [Function.update_of_ne hb, flow_singleton_of_ne (ne_of_bucket_ne hb), List.nil_append]
    · intro hcounted ff₀ hff₀
      obtain rfl : _ = ff₀ := Option.some.inj (hstate.symm.trans hff₀)
      exact hlost.counted hlaid (hcounted ff h)
    · rw [hbucket]
      exact hstack

theorem Left.perm (h : Left q q' item) : q.resident.Perm (item :: q'.resident) := by
  refine perm_of_flow_eq fun k => ?_
  exact (h.flows k).trans (flow_cons item q'.resident).symm

theorem Left.locals_exact (h : Left q q' item)
    (hcounted : q.localItemCount = q.resident.countP CoSPendingTxItem.isLocal) :
    q'.localItemCount = q'.resident.countP CoSPendingTxItem.isLocal := by
  rw [h.perm.countP_eq, List.countP_cons] at hcounted
  rw [h.locals]
  split
  · rename_i hlocal
    rw [if_pos hlocal] at hcounted
    omega
  · rename_i hlocal
    rw [if_neg hlocal] at hcounted
    omega

theorem Left.queue_counted (h : Left q q' item) (hcounted : q.Counted) : q'.Counted :=
  ⟨h.counted hcounted.buckets, h.locals_exact hcounted.locals⟩

/-! ## Selection -/

/-- A scan that keeps its candidate or takes the one before it ends on one it has seen. -/
theorem scan_mem {f : Option ℕ → ℕ → Option ℕ} (hf : ∀ acc x, f acc x = acc ∨ f acc x = some x)
    (l : List ℕ) (acc : Option ℕ) : ∀ b, l.foldl f acc = some b → acc = some b ∨ b ∈ l := by
  induction l generalizing acc with
  | nil => exact fun b h => .inl h
  | cons x l ih =>
    intro b hb
    rw [List.foldl_cons] at hb
    rcases ih (f acc x) b hb with hx | hmem
    · rcases hf acc x with hkeep | htake
      · exact .inl (hkeep ▸ hx)
      · rw [htake] at hx
        obtain rfl := Option.some.inj hx
        exact .inr List.mem_cons_self
    · exact .inr (List.mem_cons_of_mem _ hmem)

theorem scan_none {f : Option ℕ → ℕ → Option ℕ} (hf : ∀ acc x, (f acc x).isSome) (l : List ℕ)
    (acc : Option ℕ) (h : l.foldl f acc = none) : l = [] ∧ acc = none := by
  induction l generalizing acc with
  | nil => exact ⟨rfl, h⟩
  | cons x l ih =>
    have hsome := hf acc x
    rw [(ih (f acc x) h).2] at hsome
    cases hsome

/-- The two halves of the capped scan do not look at each other. -/
theorem cappedScan_foldl (ff : FlowFairState) (targetBps : ℕ) (l : List ℕ) (acc : Option ℕ × Option ℕ) :
    l.foldl (cappedScan ff targetBps) acc
      = (l.foldl (fun a x => (cappedScan ff targetBps (a, none) x).1) acc.1,
        l.foldl (fun a x => (cappedScan ff targetBps (none, a) x).2) acc.2) := by
  induction l generalizing acc with
  | nil => rfl
  | cons x l ih => exact ih _

/-- The selected bucket is an active one, and there is one when any bucket is active. -/
theorem minFinishBucket_spec (ff : FlowFairState) (targetBps : ℕ) :
    (∀ b, cosQueueMinFinishBucket ff targetBps = some b → b ∈ ff.flowRrBuckets.toList) ∧
      (cosQueueMinFinishBucket ff targetBps = none → ff.flowRrBuckets.toList = []) := by
  unfold cosQueueMinFinishBucket
  split
  · unfold cosQueueMinFinishBucketNoCap
    constructor
    · intro b hb
      refine (scan_mem ?_ _ none b hb).resolve_left (by simp)
      intro acc x
      cases acc with
      | none => exact .inr rfl
      | some c =>
        dsimp only
        split
        · exact .inr rfl
        · exact .inl rfl
    · intro h
      refine (scan_none ?_ _ none h).1
      intro acc x
      cases acc with
      | none => rfl
      | some c =>
        dsimp only
        split <;> rfl
  · dsimp only
    rw [cappedScan_foldl]
    have hboth : ∀ acc x, (cappedScan ff targetBps (acc, none) x).1 = acc ∨
        (cappedScan ff targetBps (acc, none) x).1 = some x := by
      intro acc x
      exact (ite_eq_or_eq _ (some x) acc).symm
    have hfallback : ∀ acc x, (cappedScan ff targetBps (none, acc) x).2 = acc ∨
        (cappedScan ff targetBps (none, acc) x).2 = some x := by
      intro acc x
      exact (ite_eq_or_eq _ (some x) acc).symm
    constructor
    · intro b hb
      rcases Option.or_eq_some_iff.mp hb with hb | ⟨-, hb⟩
      · exact (scan_mem hboth _ none b hb).resolve_left (by simp)
      · exact (scan_mem hfallback _ none b hb).resolve_left (by simp)
    · intro h
      refine (scan_none ?_ _ none (Option.or_eq_none_iff.mp h).2).1
      intro acc x
      cases acc with
      | none => rfl
      | some c =>
        unfold cappedScan
        dsimp only
        split <;> rfl

/-- A selected bucket has an item to pop. -/
theorem takeHead_isSome (hlisted : Lists ff.flowRrBuckets.toList ff.flowBucketItems) {b : ℕ}
    (hb : b ∈ ff.flowRrBuckets.toList) (pushSnapshot : Bool) :
    ∃ taken, ff.takeHead b pushSnapshot = some taken := by
  have hne := (hlisted.mem_iff b).mp hb
  unfold FlowFairState.takeHead
  cases h : ff.flowBucketItems b with
  | nil => exact absurd h hne
  | cons item rest => exact ⟨_, rfl⟩

/-- A queue whose selection finds nothing is empty. -/
theorem resident_of_idle (hq : q.Sound) (h : q.flowFairState = some ff) (hidle : ff.flowRrBuckets.toList = []) :
    q.resident = [] := by
  have hlaid := hq.laid ff h
  have hlen := hlaid.listed.sum_length hlaid.bucket_lt
  rw [hidle, ← hq.resident_promoted h] at hlen
  exact List.length_eq_zero_iff.mp hlen.symm

/-- The pop of a drain takes an item unless there is none. -/
theorem popNoSnapshot_spec (hq : q.Sound) :
    (cosQueuePopFrontNoSnapshot q = none ∧ q.resident = []) ∨
      ∃ item q', cosQueuePopFrontNoSnapshot q = some (item, q') ∧ Left q q' item ∧
        ∀ ff', q'.flowFairState = some ff' → ∃ ff, q.flowFairState = some ff ∧
          ff'.popSnapshotStack = ff.popSnapshotStack := by
  unfold cosQueuePopFrontNoSnapshot
  cases h : q.flowFairState with
  | none =>
    dsimp only
    cases hpop : cosQueuePopKnownBucketInner q minFinishBucketFifo false with
    | none =>
      refine .inl ⟨rfl, ?_⟩
      rw [CoSQueueRuntime.resident_fifo h]
      cases hitems : q.items with
      | nil => rfl
      | cons item rest => simp [cosQueuePopKnownBucketInner, h, hitems] at hpop
    | some popped =>
      obtain ⟨item, q'⟩ := popped
      obtain ⟨hleft, hnone⟩ := pop_fifo hq h hpop
      refine .inr ⟨item, q', rfl, hleft, fun ff' hff' => ?_⟩
      rw [hnone] at hff'
      cases hff'
  | some ff =>
    dsimp only
    obtain ⟨hmem, hidle⟩ := minFinishBucket_spec ff u64Max
    cases hmin : cosQueueMinFinishBucket ff u64Max with
    | none => exact .inl ⟨rfl, resident_of_idle hq h (hidle hmin)⟩
    | some b =>
      obtain ⟨taken, htake⟩ := takeHead_isSome (hq.laid ff h).listed (hmem b hmin) false
      cases hpop : cosQueuePopKnownBucketInner q b false with
      | none => simp [cosQueuePopKnownBucketInner, h, htake] at hpop
      | some popped =>
        obtain ⟨item, q'⟩ := popped
        obtain ⟨hleft, ff', hff', -, hstack, -⟩ := pop_promoted hq h hpop
        refine .inr ⟨item, q', hpop ▸ rfl, hleft, fun ff₁ hff₁ => ?_⟩
        rw [hff'] at hff₁
        obtain rfl := Option.some.inj hff₁
        exact ⟨ff, rfl, hstack rfl⟩

/-- What draining does to a queue. -/
structure Drained (q q' : CoSQueueRuntime) (items : List CoSPendingTxItem) : Prop where
  sound : q'.Sound
  empty : q'.resident = []
  positive : ∀ item ∈ items, 0 < item.len
  flows : ∀ k, flow k q.resident = flow k items
  counted : q.Counted → q'.Counted
  stack : ∀ ff', q'.flowFairState = some ff' → ∃ ff, q.flowFairState = some ff ∧
    ff'.popSnapshotStack = ff.popSnapshotStack

/-- With a round for each item and one more the loop ends on an empty queue. -/
theorem drainLoop_spec (rounds : ℕ) (hq : q.Sound) (hrounds : q.resident.length < rounds) :
    ∃ items q', drainLoop rounds q = some (items, q') ∧ Drained q q' items := by
  induction rounds generalizing q with
  | zero => omega
  | succ rounds ih =>
    unfold drainLoop
    rcases popNoSnapshot_spec hq with ⟨hpop, hempty⟩ | ⟨item, q₁, hpop, hleft, hstack⟩
    · rw [hpop]
      refine ⟨[], q, rfl, hq, hempty, ?_, ?_, id, fun ff h => ⟨ff, h, rfl⟩⟩
      · exact fun _ h => absurd h List.not_mem_nil
      · exact fun k => by rw [hempty]
    · rw [hpop]
      have hlen : q₁.resident.length < rounds := by
        have := hleft.perm.length_eq
        rw [List.length_cons] at this
        omega
      obtain ⟨items, q', hloop, hdrained⟩ := ih hleft.sound hlen
      refine ⟨item :: items, q', by simp [hloop], hdrained.sound, hdrained.empty, ?_, ?_, ?_, ?_⟩
      · intro it hit
        rcases List.mem_cons.mp hit with rfl | hit
        · exact hleft.positive
        · exact hdrained.positive it hit
      · intro k
        rw [hleft.flows k, hdrained.flows k, ← flow_cons]
      · exact fun hcounted => hdrained.counted (hleft.queue_counted hcounted)
      · intro ff' hff'
        obtain ⟨ff₁, hff₁, hsame⟩ := hdrained.stack ff' hff'
        obtain ⟨ff, hff, hsame₁⟩ := hstack ff₁ hff₁
        exact ⟨ff, hff, hsame.trans hsame₁⟩

/-- A change of the flow-fair state that leaves the items and their counters alone. -/
theorem sound_of_state {f : FlowFairState → FlowFairState} (hq : q.Sound)
    (hf : ∀ ff : FlowFairState, ff.Laid → (f ff).Laid) :
    ({ q with flowFairState := q.flowFairState.map f } : CoSQueueRuntime).Sound where
  positive := hq.positive
  moved := fun ff h => by
    obtain ⟨ff₀, h₀, -⟩ := Option.map_eq_some_iff.mp h
    exact hq.moved ff₀ h₀
  laid := fun ff h => by
    obtain ⟨ff₀, h₀, rfl⟩ := Option.map_eq_some_iff.mp h
    exact hf ff₀ (hq.laid ff₀ h₀)

theorem resident_of_state {f : FlowFairState → FlowFairState}
    (hf : ∀ ff : FlowFairState, (f ff).flowBucketItems = ff.flowBucketItems) :
    ({ q with flowFairState := q.flowFairState.map f } : CoSQueueRuntime).resident = q.resident := by
  unfold CoSQueueRuntime.resident
  cases q.flowFairState with
  | none => rfl
  | some ff => simp [hf ff]

theorem counted_of_state {f : FlowFairState → FlowFairState} (hq : q.Counted)
    (hitems : ∀ ff : FlowFairState, (f ff).flowBucketItems = ff.flowBucketItems)
    (hf : ∀ ff : FlowFairState, ff.Counted → (f ff).Counted) :
    ({ q with flowFairState := q.flowFairState.map f } : CoSQueueRuntime).Counted where
  buckets := fun ff h => by
    obtain ⟨ff₀, h₀, rfl⟩ := Option.map_eq_some_iff.mp h
    exact hf ff₀ (hq.buckets ff₀ h₀)
  locals := by
    rw [resident_of_state hitems]
    exact hq.locals

theorem drainAll_spec (hq : q.Sound) :
    ∃ items q', cosQueueDrainAll q = some (items, q') ∧ q'.Sound ∧ q'.resident = [] ∧
      (∀ item ∈ items, 0 < item.len) ∧ (∀ k, flow k q.resident = flow k items) ∧ (q.Counted → q'.Counted) ∧
      ∀ ff, q'.flowFairState = some ff → ff.popSnapshotStack = [] := by
  have hsound : (clearSnapshots q).Sound :=
    sound_of_state hq fun ff h => ⟨h.placed, h.positive, h.fits, h.listed⟩
  have hres : (clearSnapshots q).resident = q.resident := resident_of_state fun _ => rfl
  have hrounds : (clearSnapshots q).resident.length < q.resident.length + 1 := by
    rw [hres]
    omega
  obtain ⟨items, q', hloop, hdrained⟩ := drainLoop_spec _ hsound hrounds
  refine ⟨items, q', hloop, hdrained.sound, hdrained.empty, hdrained.positive, ?_, ?_, ?_⟩
  · intro k
    rw [← hdrained.flows k, hres]
  · intro hcounted
    exact hdrained.counted (counted_of_state hcounted (fun _ => rfl) fun ff h => ⟨h.bytes, h.active⟩)
  · intro ff' hff'
    obtain ⟨ff, hff, hstack⟩ := hdrained.stack ff' hff'
    obtain ⟨ff₀, -, rfl⟩ := Option.map_eq_some_iff.mp hff
    exact hstack

/-! ## Putting an item back -/

theorem pushFront_queue (hq : q.Sound) (hpos : 0 < item.len)
    (hmatch : ∀ ff, q.flowFairState = some ff → ∀ top rest, ff.popSnapshotStack = top :: rest →
      top.bucket = ff.bucketOf item) :
    ∃ q', cosQueuePushFront q item = some q' ∧ Entered q q' item ∧
      (∀ k, flow k q'.resident = flow k [item] ++ flow k q.resident) ∧
      ∀ ff', q'.flowFairState = some ff' → ∃ ff, q.flowFairState = some ff ∧
        ff'.flowHashSeed = ff.flowHashSeed ∧ ff'.popSnapshotStack = ff.popSnapshotStack.tail := by
  cases h : q.flowFairState with
  | none =>
    have heq : cosQueuePushFront q item = some { countLocalIn q item with items := item :: q.items } := by
      obtain ⟨eligible, sharedExact, items, count, state⟩ := q
      cases h
      cases item <;> rfl
    have hstate : ({ countLocalIn q item with items := item :: q.items } : CoSQueueRuntime).flowFairState = none := by
      simp [h]
    refine ⟨_, heq, entered_fifo hq h hpos (List.Perm.refl _), fun k => ?_, fun ff' hff' => ?_⟩
    · rw [CoSQueueRuntime.resident_fifo hstate, CoSQueueRuntime.resident_fifo h]
      exact flow_cons item q.items
    · rw [hstate] at hff'
      cases hff'
  | some ff =>
    obtain ⟨ff', hpush, hgain, hstack⟩ := ff.pushFront_spec item (hmatch ff h)
    have heq : cosQueuePushFront q item = some { countLocalIn q item with flowFairState := some ff' } := by
      unfold cosQueuePushFront
      simp only [countLocalIn_flowFairState, h]
      rw [hpush]
      rfl
    have hentered := entered_promoted hq h hpos hgain (List.Perm.refl _)
    refine ⟨_, heq, hentered, fun k => ?_, fun ff₁ hff₁ => ?_⟩
    · rw [flow_gained hq h hentered.sound rfl hgain k]
      split
      · rename_i hb
        rw [hq.flow_promoted h, hb]
        exact flow_cons item _
      · rename_i hb
        rw [flow_singleton_of_ne (ne_of_bucket_ne hb), List.nil_append]
    · obtain rfl := Option.some.inj hff₁
      exact ⟨ff, rfl, hgain.seed, hstack⟩

/-! ## The snapshot pop -/

/-- The two calls of a drain loop: select with `cos_queue_peek_min_bucket`, pop with
`cos_queue_pop_known_bucket`. -/
def snapshotPop (queue : CoSQueueRuntime) (targetBps : ℕ) : Option (CoSPendingTxItem × CoSQueueRuntime) :=
  match cosQueuePeekMinBucket queue targetBps with
  | none => none
  | some (bucket, _) => cosQueuePopKnownBucket queue bucket

theorem snapshotPop_spec (hq : q.Sound) {targetBps : ℕ} (hpop : snapshotPop q targetBps = some (item, q')) :
    Left q q' item ∧ ∀ ff', q'.flowFairState = some ff' → ∃ ff, q.flowFairState = some ff ∧
      ff'.flowHashSeed = ff.flowHashSeed ∧
      ∃ top, top.bucket = ff.bucketOf item ∧ ff'.popSnapshotStack = top :: ff.popSnapshotStack := by
  unfold snapshotPop at hpop
  split at hpop
  · cases hpop
  · cases h : q.flowFairState with
    | none =>
      obtain ⟨hleft, hnone⟩ := pop_fifo hq h hpop
      refine ⟨hleft, fun ff' hff' => ?_⟩
      rw [hnone] at hff'
      cases hff'
    | some ff =>
      obtain ⟨hleft, ff', hff', hseed, -, hstack⟩ := pop_promoted hq h hpop
      refine ⟨hleft, fun ff₁ hff₁ => ?_⟩
      rw [hff'] at hff₁
      obtain rfl := Option.some.inj hff₁
      exact ⟨ff, rfl, hseed, hstack rfl⟩

end

end Xpf.Cos
