/-
The buckets of a promoted queue: what a push and a pop do to the items, and that the bytes,
the active count and the ring follow them.

A push or a pop reaches the same components by several paths of the source, with and without
a snapshot. `Gained` and `Lost` say what all of those paths do; the invariants are carried
over these two and not over the paths.
-/
import Xpf.Roster
import Xpf.CosQueue

set_option autoImplicit false

namespace Xpf.Cos

open Xpf.Sessions (SessionKey)
open Xpf.Roster

/-- The bytes of a list of items. -/
def total (l : List CoSPendingTxItem) : ℕ := (l.map CoSPendingTxItem.len).sum

@[simp] theorem total_nil : total [] = 0 := rfl

@[simp] theorem total_cons (item : CoSPendingTxItem) (l : List CoSPendingTxItem) :
    total (item :: l) = item.len + total l := rfl

theorem total_perm {l₁ l₂ : List CoSPendingTxItem} (h : l₁.Perm l₂) : total l₁ = total l₂ :=
  (h.map _).sum_eq

theorem total_eq_zero_iff {l : List CoSPendingTxItem} (hpos : ∀ item ∈ l, 0 < item.len) :
    total l = 0 ↔ l = [] := by
  cases l with
  | nil => simp
  | cons item rest =>
    have := hpos item List.mem_cons_self
    simp
    omega

namespace FlowFairState

/-- The bucket an item belongs to. -/
abbrev bucketOf (ff : FlowFairState) (item : CoSPendingTxItem) : ℕ :=
  cosFlowBucketIndex ff.flowHashSeed item.flowKey

/-- Every item is in the bucket of its flow, and the ring lists the non-empty buckets. -/
structure Laid (ff : FlowFairState) : Prop where
  placed : ∀ b, ∀ item ∈ ff.flowBucketItems b, ff.bucketOf item = b
  positive : ∀ b, ∀ item ∈ ff.flowBucketItems b, 0 < item.len
  fits : ff.flowRrBuckets.Fits
  listed : Lists ff.flowRrBuckets.toList ff.flowBucketItems

/-- The same without the lengths: what a state keeps also with empty items in it. -/
structure Shelved (ff : FlowFairState) : Prop where
  placed : ∀ b, ∀ item ∈ ff.flowBucketItems b, ff.bucketOf item = b
  fits : ff.flowRrBuckets.Fits
  listed : Lists ff.flowRrBuckets.toList ff.flowBucketItems

theorem Laid.shelved {ff : FlowFairState} (h : ff.Laid) : ff.Shelved := ⟨h.placed, h.fits, h.listed⟩

/-- The counters of the buckets are right. -/
structure Counted (ff : FlowFairState) : Prop where
  bytes : ∀ b, ff.flowBucketBytes b = total (ff.flowBucketItems b)
  active : ff.activeFlowBuckets = ff.flowRrBuckets.toList.length

theorem Laid.new (seed : UInt64) (vtime : ℕ) :
    Laid { FlowFairState.new seed with queueVtime := vtime } where
  placed := fun _ _ h => absurd h List.not_mem_nil
  positive := fun _ _ h => absurd h List.not_mem_nil
  fits := Nat.zero_le _
  listed := Lists.empty

theorem Counted.new (seed : UInt64) (vtime : ℕ) :
    Counted { FlowFairState.new seed with queueVtime := vtime } :=
  ⟨fun _ => rfl, rfl⟩

section

variable {ff ff' : FlowFairState} {item : CoSPendingTxItem} {l rest : List CoSPendingTxItem} {b : ℕ}

theorem Shelved.bucket_lt (h : ff.Shelved) (b : ℕ) (hb : ff.flowBucketItems b ≠ []) :
    b < cosFlowFairBuckets := by
  obtain ⟨item, hitem⟩ := List.exists_mem_of_ne_nil _ hb
  rw [← h.placed b item hitem]
  exact cosFlowBucketIndex_lt _ _

theorem Laid.bucket_lt (h : ff.Laid) (b : ℕ) (hb : ff.flowBucketItems b ≠ []) : b < cosFlowFairBuckets :=
  h.shelved.bucket_lt b hb

/-- With items of positive length an idle byte count is an empty bucket. -/
theorem Counted.idle_iff (h : ff.Counted) (hlaid : ff.Laid) (b : ℕ) :
    ff.flowBucketBytes b = 0 ↔ ff.flowBucketItems b = [] := by
  rw [h.bytes b]
  exact total_eq_zero_iff (hlaid.positive b)

/-- The items of one flow are those of its bucket. -/
theorem Laid.ofKey_eq (h : ff.Laid) (k : Option SessionKey) :
    ofKey CoSPendingTxItem.flowKey k ((List.range cosFlowFairBuckets).flatMap ff.flowBucketItems)
      = ofKey CoSPendingTxItem.flowKey k (ff.flowBucketItems (cosFlowBucketIndex ff.flowHashSeed k)) := by
  have hmem : cosFlowBucketIndex ff.flowHashSeed k ∈ List.range cosFlowFairBuckets :=
    List.mem_range.mpr (cosFlowBucketIndex_lt _ _)
  have hother : ∀ c ∈ List.range cosFlowFairBuckets, c ≠ cosFlowBucketIndex ff.flowHashSeed k →
      ofKey CoSPendingTxItem.flowKey k (ff.flowBucketItems c) = [] := by
    intro c _ hne
    rw [ofKey, List.filter_eq_nil_iff]
    intro item hitem hkey
    rw [decide_eq_true_eq] at hkey
    have hplaced := h.placed c item hitem
    rw [bucketOf, hkey] at hplaced
    exact hne hplaced.symm
  have hunique := flatMap_eq_of_unique List.nodup_range hmem hother
  rw [← hunique]
  exact List.filter_flatMap

/-! ## What a push does -/

/-- A push: the item's bucket becomes `l`, its bytes grow by the item's, and the bucket
enters the ring and the active count when it was empty. -/
structure Gained (ff ff' : FlowFairState) (item : CoSPendingTxItem) (l : List CoSPendingTxItem) : Prop where
  seed : ff'.flowHashSeed = ff.flowHashSeed
  items : ff'.flowBucketItems = Function.update ff.flowBucketItems (ff.bucketOf item) l
  bytes : ff'.flowBucketBytes = Function.update ff.flowBucketBytes (ff.bucketOf item)
    (saturatingAdd64 (ff.flowBucketBytes (ff.bucketOf item)) item.len)
  ring_idle : ff.flowBucketItems (ff.bucketOf item) = [] →
    ff'.flowRrBuckets = ff.flowRrBuckets.pushBack (ff.bucketOf item) ∨
      ff'.flowRrBuckets = ff.flowRrBuckets.pushFront (ff.bucketOf item)
  ring_busy : ff.flowBucketItems (ff.bucketOf item) ≠ [] → ff'.flowRrBuckets = ff.flowRrBuckets
  active : ff.Laid → ff.Counted → ff'.activeFlowBuckets =
    if ff.flowBucketItems (ff.bucketOf item) = [] then saturatingAdd16 ff.activeFlowBuckets 1
    else ff.activeFlowBuckets

/-- A bucket that was empty finds a place in the ring. -/
theorem Gained.ring_entered (h : Gained ff ff' item l) (hs : ff.Shelved)
    (hidle : ff.flowBucketItems (ff.bucketOf item) = []) :
    ff'.flowRrBuckets.Fits ∧
      ff'.flowRrBuckets.toList.Perm (ff.bucketOf item :: ff.flowRrBuckets.toList) := by
  have hlen : ff.flowRrBuckets.len < cosFlowFairBuckets := by
    rw [← RingBuffer.length_toList]
    exact hs.listed.length_lt hs.bucket_lt hidle (cosFlowBucketIndex_lt _ _)
  rcases h.ring_idle hidle with hring | hring
  · rw [hring, RingBuffer.toList_pushBack _ _ hlen]
    exact ⟨hlen, List.perm_append_singleton _ _⟩
  · rw [hring, RingBuffer.toList_pushFront _ _ hlen]
    exact ⟨hlen, List.Perm.refl _⟩

/-- What holds of the new item and of every item of a bucket holds of every item after it. -/
theorem Gained.forall_items (h : Gained ff ff' item l)
    (hl : l.Perm (item :: ff.flowBucketItems (ff.bucketOf item))) {P : ℕ → CoSPendingTxItem → Prop}
    (hitem : P (ff.bucketOf item) item) (hold : ∀ b, ∀ it ∈ ff.flowBucketItems b, P b it) :
    ∀ b, ∀ it ∈ ff'.flowBucketItems b, P b it := by
  intro b it hit
  rw [h.items] at hit
  rcases eq_or_ne b (ff.bucketOf item) with rfl | hb
  · rw [Function.update_self, hl.mem_iff, List.mem_cons] at hit
    rcases hit with rfl | hit
    · exact hitem
    · exact hold _ it hit
  · rw [Function.update_of_ne hb] at hit
    exact hold b it hit

theorem Gained.shelved (h : Gained ff ff' item l)
    (hl : l.Perm (item :: ff.flowBucketItems (ff.bucketOf item))) (hs : ff.Shelved) : ff'.Shelved := by
  have hne : l ≠ [] := fun hnil => by simp [hnil] at hl
  constructor
  · rw [show ff'.bucketOf = ff.bucketOf by unfold bucketOf; rw [h.seed]]
    exact h.forall_items (P := fun b it => ff.bucketOf it = b) hl rfl hs.placed
  · by_cases hidle : ff.flowBucketItems (ff.bucketOf item) = []
    · exact (h.ring_entered hs hidle).1
    · rw [h.ring_busy hidle]
      exact hs.fits
  · rw [h.items]
    by_cases hidle : ff.flowBucketItems (ff.bucketOf item) = []
    · exact hs.listed.enter hidle hne (h.ring_entered hs hidle).2
    · rw [h.ring_busy hidle]
      exact hs.listed.stay hidle hne

theorem Gained.laid (h : Gained ff ff' item l) (hl : l.Perm (item :: ff.flowBucketItems (ff.bucketOf item)))
    (hpos : 0 < item.len) (hlaid : ff.Laid) : ff'.Laid := by
  have hs := h.shelved hl hlaid.shelved
  exact ⟨hs.placed, h.forall_items (P := fun _ it => 0 < it.len) hl hpos hlaid.positive, hs.fits, hs.listed⟩

theorem Gained.counted (h : Gained ff ff' item l) (hl : l.Perm (item :: ff.flowBucketItems (ff.bucketOf item)))
    (hlaid : ff.Laid) (hcounted : ff.Counted) (hfit : total l < 2 ^ 64) : ff'.Counted := by
  have htotal : total l = item.len + total (ff.flowBucketItems (ff.bucketOf item)) := by
    rw [total_perm hl, total_cons]
  constructor
  · intro b
    rw [h.bytes, h.items]
    rcases eq_or_ne b (ff.bucketOf item) with rfl | hb
    · rw [Function.update_self, Function.update_self, hcounted.bytes, saturatingAdd64]
      omega
    · rw [Function.update_of_ne hb, Function.update_of_ne hb, hcounted.bytes]
  · rw [h.active hlaid hcounted, hcounted.active]
    by_cases hidle : ff.flowBucketItems (ff.bucketOf item) = []
    · have hlen : ff.flowRrBuckets.toList.length < 4096 :=
        hlaid.listed.length_lt hlaid.bucket_lt hidle (cosFlowBucketIndex_lt _ _)
      rw [if_pos hidle, (h.ring_entered hlaid.shelved hidle).2.length_eq, List.length_cons, saturatingAdd16]
      omega
    · rw [if_neg hidle, h.ring_busy hidle]

/-- Of the items of a flow, a push adds the pushed one and keeps the rest. -/
theorem Gained.bucket_eq (h : Gained ff ff' item l) (k : Option SessionKey) :
    ff'.flowBucketItems (cosFlowBucketIndex ff'.flowHashSeed k)
      = if cosFlowBucketIndex ff.flowHashSeed k = ff.bucketOf item then l
        else ff.flowBucketItems (cosFlowBucketIndex ff.flowHashSeed k) := by
  rw [h.items, h.seed, Function.update_apply]

/-! ## What a pop does -/

/-- A pop of `item` from the head of a bucket. -/
structure Lost (ff ff' : FlowFairState) (item : CoSPendingTxItem) (rest : List CoSPendingTxItem) : Prop where
  head : ff.flowBucketItems (ff.bucketOf item) = item :: rest
  seed : ff'.flowHashSeed = ff.flowHashSeed
  items : ff'.flowBucketItems = Function.update ff.flowBucketItems (ff.bucketOf item) rest
  bytes : ff'.flowBucketBytes = Function.update ff.flowBucketBytes (ff.bucketOf item)
    (ff.flowBucketBytes (ff.bucketOf item) - item.len)
  ring : ff'.flowRrBuckets =
    if rest = [] then ff.flowRrBuckets.remove (ff.bucketOf item) else ff.flowRrBuckets
  active : ff'.activeFlowBuckets =
    if 0 < ff.flowBucketBytes (ff.bucketOf item) ∧ ff.flowBucketBytes (ff.bucketOf item) - item.len = 0
    then ff.activeFlowBuckets - 1 else ff.activeFlowBuckets

/-- What holds of every item of a bucket holds of those that are left. -/
theorem Lost.forall_items (h : Lost ff ff' item rest) {P : ℕ → CoSPendingTxItem → Prop}
    (hold : ∀ b, ∀ it ∈ ff.flowBucketItems b, P b it) : ∀ b, ∀ it ∈ ff'.flowBucketItems b, P b it := by
  intro b it hit
  rw [h.items] at hit
  rcases eq_or_ne b (ff.bucketOf item) with rfl | hb
  · rw [Function.update_self] at hit
    refine hold _ it ?_
    rw [h.head]
    exact List.mem_cons_of_mem _ hit
  · rw [Function.update_of_ne hb] at hit
    exact hold b it hit

theorem Lost.shelved (h : Lost ff ff' item rest) (hs : ff.Shelved) : ff'.Shelved := by
  have hbusy : ff.flowBucketItems (ff.bucketOf item) ≠ [] := by
    rw [h.head]
    exact List.cons_ne_nil _ _
  constructor
  · rw [show ff'.bucketOf = ff.bucketOf by unfold bucketOf; rw [h.seed]]
    exact h.forall_items (P := fun b it => ff.bucketOf it = b) hs.placed
  · rw [h.ring]
    split
    · exact hs.fits.remove _
    · exact hs.fits
  · rw [h.ring, h.items]
    split
    · rename_i hrest
      rw [hrest, RingBuffer.toList_remove _ _ hs.fits]
      exact hs.listed.leave _
    · rename_i hrest
      exact hs.listed.stay hbusy hrest

theorem Lost.laid (h : Lost ff ff' item rest) (hlaid : ff.Laid) : ff'.Laid := by
  have hs := h.shelved hlaid.shelved
  exact ⟨hs.placed, h.forall_items (P := fun _ it => 0 < it.len) hlaid.positive, hs.fits, hs.listed⟩

theorem Lost.counted (h : Lost ff ff' item rest) (hlaid : ff.Laid) (hcounted : ff.Counted) : ff'.Counted := by
  have hbytes : ff.flowBucketBytes (ff.bucketOf item) = item.len + total rest := by
    rw [hcounted.bytes, h.head, total_cons]
  have hpos : 0 < item.len := by
    refine hlaid.positive (ff.bucketOf item) item ?_
    rw [h.head]
    exact List.mem_cons_self
  have hmem : ff.bucketOf item ∈ ff.flowRrBuckets.toList := by
    rw [hlaid.listed.mem_iff, h.head]
    exact List.cons_ne_nil _ _
  constructor
  · intro b
    rw [h.bytes, h.items]
    rcases eq_or_ne b (ff.bucketOf item) with rfl | hb
    · rw [Function.update_self, Function.update_self]
      omega
    · rw [Function.update_of_ne hb, Function.update_of_ne hb, hcounted.bytes]
  · -- the byte count comes to zero when the last item goes, the items being of positive length
    have hrest : total rest = 0 ↔ rest = [] := by
      refine total_eq_zero_iff fun it hit => hlaid.positive (ff.bucketOf item) it ?_
      rw [h.head]
      exact List.mem_cons_of_mem _ hit
    have hdrained : (0 < ff.flowBucketBytes (ff.bucketOf item) ∧
        ff.flowBucketBytes (ff.bucketOf item) - item.len = 0) ↔ rest = [] := by
      rw [← hrest]
      omega
    rw [h.active, h.ring, hcounted.active, if_congr hdrained rfl rfl]
    split
    · rw [RingBuffer.toList_remove _ _ hlaid.fits, List.length_erase_of_mem hmem]
    · rfl

/-! ## The paths of the source -/

/-- The accounting of an enqueue leaves the items and the ring to the push itself. -/
theorem accountEnqueue_frame (ff : FlowFairState) (reentryFrontier : Option ℕ)
    (flowKey : Option SessionKey) (itemLen : ℕ) :
    (ff.accountEnqueue reentryFrontier flowKey itemLen).flowHashSeed = ff.flowHashSeed ∧
      (ff.accountEnqueue reentryFrontier flowKey itemLen).flowBucketItems = ff.flowBucketItems ∧
      (ff.accountEnqueue reentryFrontier flowKey itemLen).flowRrBuckets = ff.flowRrBuckets ∧
      (ff.accountEnqueue reentryFrontier flowKey itemLen).popSnapshotStack = ff.popSnapshotStack := by
  cases reentryFrontier <;> unfold accountEnqueue <;> dsimp only <;> split <;> exact ⟨rfl, rfl, rfl, rfl⟩

theorem accountEnqueue_bytes (ff : FlowFairState) (reentryFrontier : Option ℕ)
    (flowKey : Option SessionKey) (itemLen : ℕ) :
    (ff.accountEnqueue reentryFrontier flowKey itemLen).flowBucketBytes
      = Function.update ff.flowBucketBytes (cosFlowBucketIndex ff.flowHashSeed flowKey)
        (saturatingAdd64 (ff.flowBucketBytes (cosFlowBucketIndex ff.flowHashSeed flowKey)) itemLen) := by
  cases reentryFrontier <;> unfold accountEnqueue <;> dsimp only <;> split <;> rfl

theorem accountEnqueue_active (ff : FlowFairState) (reentryFrontier : Option ℕ)
    (flowKey : Option SessionKey) (itemLen : ℕ) :
    (ff.accountEnqueue reentryFrontier flowKey itemLen).activeFlowBuckets
      = if ff.flowBucketBytes (cosFlowBucketIndex ff.flowHashSeed flowKey) = 0
        then saturatingAdd16 ff.activeFlowBuckets 1 else ff.activeFlowBuckets := by
  cases reentryFrontier <;> unfold accountEnqueue <;> dsimp only <;> simp only [beq_iff_eq] <;> split <;> rfl

/-- An enqueue on the flow-fair state, its accounting and its push. -/
def enqueue (ff : FlowFairState) (reentryFrontier : Option ℕ) (item : CoSPendingTxItem) : FlowFairState :=
  (({ ff with popSnapshotStack := [] } : FlowFairState).accountEnqueue reentryFrontier item.flowKey
    item.len).appendItem item

theorem enqueue_stack (ff : FlowFairState) (reentryFrontier : Option ℕ) (item : CoSPendingTxItem) :
    (ff.enqueue reentryFrontier item).popSnapshotStack = [] :=
  (accountEnqueue_frame { ff with popSnapshotStack := [] } reentryFrontier item.flowKey item.len).2.2.2

theorem gained_enqueue (ff : FlowFairState) (reentryFrontier : Option ℕ) (item : CoSPendingTxItem) :
    Gained ff (ff.enqueue reentryFrontier item) item (ff.flowBucketItems (ff.bucketOf item) ++ [item]) := by
  obtain ⟨hseed, hitems, hring, -⟩ :=
    accountEnqueue_frame { ff with popSnapshotStack := [] } reentryFrontier item.flowKey item.len
  dsimp only at hseed hitems hring
  constructor
  · exact hseed
  · simp only [enqueue, appendItem, hseed, hitems]
  · simp only [enqueue, appendItem]
    exact accountEnqueue_bytes _ _ _ _
  · intro hidle
    left
    simp only [enqueue, appendItem, hseed, hitems, hring]
    rw [if_pos (List.isEmpty_iff.mpr hidle)]
  · intro hbusy
    simp only [enqueue, appendItem, hseed, hitems, hring]
    rw [if_neg (mt List.isEmpty_iff.mp hbusy)]
  · intro hlaid hcounted
    refine (accountEnqueue_active { ff with popSnapshotStack := [] } reentryFrontier item.flowKey item.len).trans ?_
    exact if_congr (hcounted.idle_iff hlaid _) rfl rfl

/-- A pop on the flow-fair state, its bookkeeping and its accounting. -/
theorem takeHead_lost {pushSnapshot : Bool} (hplaced : ∀ b, ∀ item ∈ ff.flowBucketItems b, ff.bucketOf item = b)
    (h : ff.takeHead b pushSnapshot = some (item, ff')) :
    ∃ rest, ff.bucketOf item = b ∧ Lost ff (ff'.accountDequeue item.flowKey item.len) item rest := by
  unfold takeHead at h
  cases hb : ff.flowBucketItems b with
  | nil => simp [hb] at h
  | cons first rest =>
    rw [hb] at h
    simp only [Option.some.injEq, Prod.mk.injEq] at h
    obtain ⟨rfl, rfl⟩ := h
    have hfirst : ff.bucketOf first = b := hplaced b first (hb ▸ List.mem_cons_self)
    refine ⟨rest, hfirst, ?_⟩
    constructor
    · rw [hfirst, hb]
    · unfold accountDequeue
      dsimp only
      split <;> rfl
    · rw [hfirst]
      unfold accountDequeue
      dsimp only
      split <;> rfl
    · unfold accountDequeue
      dsimp only
      split <;> rfl
    · rw [hfirst]
      unfold accountDequeue
      dsimp only
      split <;> cases rest <;> simp
    · unfold accountDequeue
      dsimp only
      simp only [Bool.and_eq_true, decide_eq_true_eq, beq_iff_eq]
      split <;> rfl

theorem gained_withSnapshot (snap : CoSQueuePopSnapshot) (hidle : ff.flowBucketItems (ff.bucketOf item) = []) :
    Gained ff (pushFrontDrainedBucketWithSnapshot ff (ff.bucketOf item) item.len item snap) item
      (item :: ff.flowBucketItems (ff.bucketOf item)) where
  seed := rfl
  items := rfl
  bytes := rfl
  ring_idle := fun _ => .inr rfl
  ring_busy := fun hbusy => absurd hidle hbusy
  active := fun _ _ => (if_pos hidle).symm

theorem gained_noSnapshot (hidle : ff.flowBucketItems (ff.bucketOf item) = []) :
    Gained ff (pushFrontDrainedBucketNoSnapshot ff (ff.bucketOf item) item.len item) item
      (item :: ff.flowBucketItems (ff.bucketOf item)) := by
  constructor
  · unfold pushFrontDrainedBucketNoSnapshot
    dsimp only
    split <;> rfl
  · unfold pushFrontDrainedBucketNoSnapshot
    dsimp only
    split <;> rfl
  · unfold pushFrontDrainedBucketNoSnapshot
    dsimp only
    split <;> rfl
  · intro _
    right
    unfold pushFrontDrainedBucketNoSnapshot
    dsimp only
    split <;> rfl
  · intro hbusy
    exact absurd hidle hbusy
  · intro hlaid hcounted
    have hzero : (ff.flowBucketBytes (ff.bucketOf item) == 0) = true :=
      beq_iff_eq.mpr ((hcounted.idle_iff hlaid _).mpr hidle)
    unfold pushFrontDrainedBucketNoSnapshot
    rw [if_pos hidle, hzero]
    rfl

theorem gained_active (hbusy : ff.flowBucketItems (ff.bucketOf item) ≠ []) :
    Gained ff (pushFrontActiveBucketHeadRebase ff (ff.bucketOf item) item.len item) item
      (item :: ff.flowBucketItems (ff.bucketOf item)) where
  seed := rfl
  items := rfl
  bytes := rfl
  ring_idle := fun hidle => absurd hidle hbusy
  ring_busy := fun _ => rfl
  active := fun _ _ => (if_neg hbusy).symm

/-- The queue's time and the snapshots have no part in what a push does to the buckets. -/
theorem Gained.of_restored {vtime : ℕ} {stack : List CoSQueuePopSnapshot}
    (h : Gained { ff with queueVtime := vtime, popSnapshotStack := stack } ff' item l) :
    Gained ff ff' item l where
  seed := h.seed
  items := h.items
  bytes := h.bytes
  ring_idle := h.ring_idle
  ring_busy := h.ring_busy
  active := fun hlaid hcounted =>
    h.active ⟨hlaid.placed, hlaid.positive, hlaid.fits, hlaid.listed⟩ ⟨hcounted.bytes, hcounted.active⟩

theorem gained_restored (ff : FlowFairState) (snapshot : Option CoSQueuePopSnapshot) (item : CoSPendingTxItem) :
    Gained ff (pushFrontRestored ff snapshot (ff.bucketOf item) item.len item) item
      (item :: ff.flowBucketItems (ff.bucketOf item)) := by
  unfold pushFrontRestored
  by_cases hidle : ff.flowBucketItems (ff.bucketOf item) = []
  · rw [if_pos (List.isEmpty_iff.mpr hidle)]
    cases snapshot with
    | none => exact gained_noSnapshot hidle
    | some snap => exact gained_withSnapshot snap hidle
  · rw [if_neg (mt List.isEmpty_iff.mp hidle)]
    exact gained_active hidle

theorem pushFrontRestored_stack (ff : FlowFairState) (snapshot : Option CoSQueuePopSnapshot)
    (bucket itemLen : ℕ) (item : CoSPendingTxItem) :
    (pushFrontRestored ff snapshot bucket itemLen item).popSnapshotStack = ff.popSnapshotStack := by
  unfold pushFrontRestored
  split
  · cases snapshot with
    | none =>
      unfold pushFrontDrainedBucketNoSnapshot
      dsimp only
      split <;> rfl
    | some snap => rfl
  · rfl

/-- A push at the front whose snapshot is the item's own, or which has none, does not panic
and takes its snapshot off the stack. -/
theorem pushFront_spec (ff : FlowFairState) (item : CoSPendingTxItem)
    (hmatch : ∀ top rest, ff.popSnapshotStack = top :: rest → top.bucket = ff.bucketOf item) :
    ∃ ff', pushFrontFlowFairV8 ff (ff.bucketOf item) item.len item = some ff' ∧
      Gained ff ff' item (item :: ff.flowBucketItems (ff.bucketOf item)) ∧
      ff'.popSnapshotStack = ff.popSnapshotStack.tail := by
  unfold pushFrontFlowFairV8 popMatchingSnapshot
  cases hstack : ff.popSnapshotStack with
  | nil =>
    refine ⟨_, rfl, Gained.of_restored (gained_restored { ff with queueVtime := ff.queueVtime - item.len } none item), ?_⟩
    rw [pushFrontRestored_stack]
    exact hstack
  | cons top rest =>
    dsimp only
    rw [if_pos (hmatch top rest hstack)]
    refine ⟨_, rfl, Gained.of_restored (gained_restored { ff with queueVtime := top.prePopQueueVtime, popSnapshotStack := rest } (some top) item), ?_⟩
    rw [pushFrontRestored_stack]
    rfl

end

end FlowFairState

end Xpf.Cos
