/-
Shaped transmit queues: `userspace-dp/src/afxdp/cos/queue_ops/` with the flow hash of
`cos/flow_hash.rs` and the active ring of `types/cos.rs`.

A queue is a plain FIFO until a second flow shows up; it is then promoted to virtual-finish
order over 4096 buckets, each a FIFO of the flows that hash to it. The promoted queue keeps,
beside the items themselves, the bytes of each bucket, the finish times the selection reads,
the number of active buckets, a ring of the active buckets and a stack of what a pop saw, from
which a pop is rolled back.

What other workers and the operating system supply is an argument where it is read: the
hash seed drawn at a promotion, and the frontier the peers' slots show when an idle shared
queue becomes busy. What the queue publishes to its peers is read by nothing here and left out.
-/
import Xpf.RingBuffer
import Xpf.SessionKeys

set_option autoImplicit false

namespace Xpf.Cos

open Xpf.Sessions (SessionKey IpAddr TunnelDiscriminator)

/-! ## Items -/

structure TxRequest where
  bytes : List UInt8
  flowKey : Option SessionKey
  deriving DecidableEq

structure PreparedTxRequest where
  offset : UInt64
  len : UInt32
  flowKey : Option SessionKey
  deriving DecidableEq

inductive CoSPendingTxItem
  | localTx (req : TxRequest)
  | preparedTx (req : PreparedTxRequest)
  deriving DecidableEq

namespace CoSPendingTxItem

/-- `cos_item_len`. -/
def len : CoSPendingTxItem → ℕ
  | localTx req => req.bytes.length
  | preparedTx req => req.len.toNat

/-- `cos_item_flow_key`. -/
def flowKey : CoSPendingTxItem → Option SessionKey
  | localTx req => req.flowKey
  | preparedTx req => req.flowKey

def isLocal : CoSPendingTxItem → Bool
  | localTx _ => true
  | preparedTx _ => false

end CoSPendingTxItem

/-! ## The flow hash -/

def cosFlowFairBuckets : ℕ := 4096
def cosFlowFairBucketMask : ℕ := cosFlowFairBuckets - 1
def cosFlowFairKeylessBucket : ℕ := 0
def cosFlowFairKeylessRealFallback : ℕ := 1

/-- `mix_cos_flow_bucket`. -/
def mixCosFlowBucket (seed value : UInt64) : UInt64 :=
  seed ^^^ (value + (0x9e3779b97f4a7c15 : UInt64) + (seed <<< (6 : UInt64)) + (seed >>> (2 : UInt64)))

/-- `mix_u32_halves_for_cos_bucket`. -/
def mixU32HalvesForCosBucket (seed : UInt64) (value : UInt32) : UInt64 :=
  mixCosFlowBucket (mixCosFlowBucket seed (value &&& 0xffff).toUInt64) (value >>> 16).toUInt64

/-- `finalize_cos_flow_bucket`. -/
def finalizeCosFlowBucket (seed : UInt64) : UInt64 :=
  let z := (seed ^^^ (seed >>> 30)) * 0xbf58476d1ce4e5b9
  let z := (z ^^^ (z >>> 27)) * 0x94d049bb133111eb
  z ^^^ (z >>> 31)

/-- An address goes into the hash as one word of 32 bits or as two of 64. -/
def mixCosFlowAddr (seed : UInt64) : IpAddr → UInt64
  | .v4 addr => mixCosFlowBucket seed (UInt64.ofNat addr.toNat)
  | .v6 addr =>
    mixCosFlowBucket (mixCosFlowBucket seed (UInt64.ofNat (addr.toNat / 2 ^ 64)))
      (UInt64.ofNat (addr.toNat % 2 ^ 64))

/-- What tells apart flows with one 5-tuple, by the class of their tunnel. -/
def mixCosFlowDiscriminator (seed : UInt64) : TunnelDiscriminator → UInt64
  | .none => seed
  | .unkeyed => mixCosFlowBucket seed 2
  | .keyed key => mixU32HalvesForCosBucket (mixCosFlowBucket seed 3) key
  | .pptp handle => mixU32HalvesForCosBucket (mixCosFlowBucket seed 4) handle
  | .ipsec ifId => mixU32HalvesForCosBucket (mixCosFlowBucket seed 6) ifId
  | .unparseable => mixCosFlowBucket seed 5

/-- `exact_cos_flow_bucket`. -/
def exactCosFlowBucket (queueSeed : UInt64) : Option SessionKey → UInt16
  | none => 0
  | some flowKey =>
    let seed := queueSeed ^^^ flowKey.protocol.toUInt64 ^^^ (flowKey.addrFamily.toUInt64 <<< 8)
    let seed := mixCosFlowAddr seed flowKey.srcIp
    let seed := mixCosFlowAddr seed flowKey.dstIp
    let seed := mixCosFlowBucket seed flowKey.srcPort.toUInt64
    let seed := mixCosFlowBucket seed flowKey.dstPort.toUInt64
    let seed :=
      if flowKey.routingDomain ≠ 0 then
        mixU32HalvesForCosBucket (mixCosFlowBucket seed 1) flowKey.routingDomain
      else seed
    let seed := mixCosFlowDiscriminator seed flowKey.discriminator
    (finalizeCosFlowBucket seed &&& 0xffff).toUInt16

/-- `cos_flow_bucket_index`: bucket 0 is kept for items without a flow. -/
def cosFlowBucketIndex (queueSeed : UInt64) (flowKey : Option SessionKey) : ℕ :=
  if flowKey.isNone then cosFlowFairKeylessBucket
  else
    let idx := (exactCosFlowBucket queueSeed flowKey).toNat &&& cosFlowFairBucketMask
    if idx = cosFlowFairKeylessBucket then cosFlowFairKeylessRealFallback else idx

theorem cosFlowBucketIndex_lt (seed : UInt64) (flowKey : Option SessionKey) :
    cosFlowBucketIndex seed flowKey < cosFlowFairBuckets := by
  have hmask : (exactCosFlowBucket seed flowKey).toNat &&& cosFlowFairBucketMask
      ≤ cosFlowFairBucketMask := Nat.and_le_right
  have hbound : cosFlowFairBucketMask < cosFlowFairBuckets := by decide
  unfold cosFlowBucketIndex
  split
  · decide
  · dsimp only
    split
    · decide
    · exact hmask.trans_lt hbound

/-! ## The queue -/

/-- `FlowRrRing`: the active buckets, the mask of the source being a remainder. -/
abbrev FlowRrRing := RingBuffer ℕ cosFlowFairBuckets

structure CoSQueuePopSnapshot where
  bucket : ℕ
  prePopHeadFinish : ℕ
  prePopTailFinish : ℕ
  prePopQueueVtime : ℕ

/-- `FlowFairState`; the snapshot stack has its top first. -/
structure FlowFairState where
  queueVtime : ℕ
  flowHashSeed : UInt64
  activeFlowBuckets : ℕ
  activeFlowBucketsPeak : ℕ
  flowBucketBytes : ℕ → ℕ
  flowBucketHeadFinishBytes : ℕ → ℕ
  flowBucketTailFinishBytes : ℕ → ℕ
  flowBucketObservedBps : ℕ → ℕ
  flowBucketItems : ℕ → List CoSPendingTxItem
  flowRrBuckets : FlowRrRing
  popSnapshotStack : List CoSQueuePopSnapshot

/-- `FlowFairState::new_boxed`. -/
def FlowFairState.new (flowHashSeed : UInt64) : FlowFairState where
  queueVtime := 0
  flowHashSeed := flowHashSeed
  activeFlowBuckets := 0
  activeFlowBucketsPeak := 0
  flowBucketBytes := fun _ => 0
  flowBucketHeadFinishBytes := fun _ => 0
  flowBucketTailFinishBytes := fun _ => 0
  flowBucketObservedBps := fun _ => 0
  flowBucketItems := fun _ => []
  flowRrBuckets := { buf := fun _ => 0, head := 0, len := 0 }
  popSnapshotStack := []

/-- `CoSQueueRuntime`, as far as its items are concerned. -/
structure CoSQueueRuntime where
  flowFairEligible : Bool
  sharedExact : Bool
  items : List CoSPendingTxItem
  localItemCount : ℕ
  flowFairState : Option FlowFairState

/-- `u64::saturating_add`. -/
def saturatingAdd64 (a b : ℕ) : ℕ := min (a + b) (2 ^ 64 - 1)

/-- `u32::saturating_add`. -/
def saturatingAdd32 (a b : ℕ) : ℕ := min (a + b) (2 ^ 32 - 1)

/-- `u16::saturating_add`. -/
def saturatingAdd16 (a b : ℕ) : ℕ := min (a + b) (2 ^ 16 - 1)

def u64Max : ℕ := 2 ^ 64 - 1

/-! ## Accounting -/

namespace FlowFairState

/-- One more active bucket, and the peak with it. -/
def bumpActive (ff : FlowFairState) : FlowFairState :=
  let active := saturatingAdd16 ff.activeFlowBuckets 1
  { ff with
    activeFlowBuckets := active
    activeFlowBucketsPeak := if active > ff.activeFlowBucketsPeak then active else ff.activeFlowBucketsPeak }

def addBytes (ff : FlowFairState) (bucket itemLen : ℕ) : FlowFairState :=
  { ff with
    flowBucketBytes :=
      Function.update ff.flowBucketBytes bucket (saturatingAdd64 (ff.flowBucketBytes bucket) itemLen) }

/-- The tail of a bucket moves on from the later of itself and the queue's time; the head of
a bucket that was idle is its tail. -/
def anchor (ff : FlowFairState) (bucket itemLen : ℕ) (wasIdle : Bool) : FlowFairState :=
  let newTail := saturatingAdd64 (max (ff.flowBucketTailFinishBytes bucket) ff.queueVtime) itemLen
  { ff with
    flowBucketTailFinishBytes := Function.update ff.flowBucketTailFinishBytes bucket newTail
    flowBucketHeadFinishBytes :=
      if wasIdle then Function.update ff.flowBucketHeadFinishBytes bucket newTail
      else ff.flowBucketHeadFinishBytes }

/-- `account_cos_queue_flow_enqueue`, its part on the flow-fair state. -/
def accountEnqueue (ff : FlowFairState) (reentryFrontier : Option ℕ) (flowKey : Option SessionKey)
    (itemLen : ℕ) : FlowFairState :=
  let bucket := cosFlowBucketIndex ff.flowHashSeed flowKey
  let ff : FlowFairState :=
    match reentryFrontier with
    | some frontier => { ff with queueVtime := max ff.queueVtime frontier }
    | none => ff
  let bucketWasEmpty : Bool := ff.flowBucketBytes bucket == 0
  let ff := if bucketWasEmpty then ff.bumpActive else ff
  (ff.addBytes bucket itemLen).anchor bucket itemLen bucketWasEmpty

/-- `account_cos_queue_flow_dequeue`, its part on the flow-fair state. -/
def accountDequeue (ff : FlowFairState) (flowKey : Option SessionKey) (itemLen : ℕ) : FlowFairState :=
  let bucket := cosFlowBucketIndex ff.flowHashSeed flowKey
  let remaining := ff.flowBucketBytes bucket - itemLen
  let bucketDrained : Bool := decide (0 < ff.flowBucketBytes bucket) && remaining == 0
  let ff : FlowFairState :=
    if bucketDrained then
      { ff with
        activeFlowBuckets := ff.activeFlowBuckets - 1
        flowBucketHeadFinishBytes := Function.update ff.flowBucketHeadFinishBytes bucket 0
        flowBucketTailFinishBytes := Function.update ff.flowBucketTailFinishBytes bucket 0
        flowBucketObservedBps := Function.update ff.flowBucketObservedBps bucket 0 }
    else ff
  { ff with flowBucketBytes := Function.update ff.flowBucketBytes bucket remaining }

end FlowFairState

/-- `account_cos_queue_flow_enqueue`. `peerFrontier` is what `peer_frontier_vtime` returns
when the worker's own slot is vacant; only an idle shared queue asks for it. -/
def accountCosQueueFlowEnqueue (queue : CoSQueueRuntime) (peerFrontier : Option ℕ)
    (flowKey : Option SessionKey) (itemLen : ℕ) : CoSQueueRuntime :=
  match queue.flowFairState with
  | none => queue
  | some ff =>
    if itemLen = 0 then queue
    else
      let reentryFrontier :=
        if queue.sharedExact && ff.activeFlowBuckets == 0 then peerFrontier else none
      { queue with flowFairState := some (ff.accountEnqueue reentryFrontier flowKey itemLen) }

/-- `account_cos_queue_flow_dequeue`. -/
def accountCosQueueFlowDequeue (queue : CoSQueueRuntime) (flowKey : Option SessionKey)
    (itemLen : ℕ) : CoSQueueRuntime :=
  match queue.flowFairState with
  | none => queue
  | some ff =>
    if itemLen = 0 then queue
    else { queue with flowFairState := some (ff.accountDequeue flowKey itemLen) }

/-! ## Pushing at the back -/

/-- A local item is counted in. -/
def countLocalIn (queue : CoSQueueRuntime) (item : CoSPendingTxItem) : CoSQueueRuntime :=
  if item.isLocal then { queue with localItemCount := saturatingAdd32 queue.localItemCount 1 } else queue

/-- A local item is counted out. -/
def countLocalOut (queue : CoSQueueRuntime) (item : CoSPendingTxItem) : CoSQueueRuntime :=
  if item.isLocal then { queue with localItemCount := queue.localItemCount - 1 } else queue

/-- `pop_snapshot_stack.clear()`. -/
def clearSnapshots (queue : CoSQueueRuntime) : CoSQueueRuntime :=
  { queue with
    flowFairState := queue.flowFairState.map fun ff => { ff with popSnapshotStack := [] } }

/-- The item goes to the end of its bucket, which enters the ring when it was empty. -/
def FlowFairState.appendItem (ff : FlowFairState) (item : CoSPendingTxItem) : FlowFairState :=
  let bucket := cosFlowBucketIndex ff.flowHashSeed item.flowKey
  let wasEmpty := (ff.flowBucketItems bucket).isEmpty
  { ff with
    flowBucketItems := Function.update ff.flowBucketItems bucket (ff.flowBucketItems bucket ++ [item])
    flowRrBuckets := if wasEmpty then ff.flowRrBuckets.pushBack bucket else ff.flowRrBuckets }

/-- `cos_queue_push_back` below its promotion probe. -/
def pushBackProbed (queue : CoSQueueRuntime) (peerFrontier : Option ℕ) (item : CoSPendingTxItem) :
    CoSQueueRuntime :=
  let queue := clearSnapshots (countLocalIn queue item)
  let queue := accountCosQueueFlowEnqueue queue peerFrontier item.flowKey item.len
  match queue.flowFairState with
  | none => { queue with items := queue.items ++ [item] }
  | some ff => { queue with flowFairState := some (ff.appendItem item) }

/-- `promote_to_flow_fair`. The pushes find the queue promoted, so their probe does nothing. -/
def promoteToFlowFair (queue : CoSQueueRuntime) (seed : UInt64) (peerFrontier : Option ℕ) :
    CoSQueueRuntime :=
  queue.items.foldl (fun q item => pushBackProbed (countLocalOut q item) peerFrontier item)
    { queue with items := [], flowFairState := some (FlowFairState.new seed) }

/-- `maybe_promote_best_effort`. -/
def maybePromoteBestEffort (queue : CoSQueueRuntime) (seed : UInt64) (peerFrontier : Option ℕ)
    (incoming : CoSPendingTxItem) : CoSQueueRuntime :=
  if !queue.flowFairEligible || queue.flowFairState.isSome then queue
  else
    match queue.items.head? with
    | none => queue
    | some front =>
      if front.flowKey = incoming.flowKey then queue else promoteToFlowFair queue seed peerFrontier

/-- `cos_queue_push_back`. -/
def cosQueuePushBack (queue : CoSQueueRuntime) (seed : UInt64) (peerFrontier : Option ℕ)
    (item : CoSPendingTxItem) : CoSQueueRuntime :=
  pushBackProbed (maybePromoteBestEffort queue seed peerFrontier item) peerFrontier item

/-! ## Selection -/

/-- `cos_queue_min_finish_bucket_no_cap`: the first of the buckets with the least finish. -/
def cosQueueMinFinishBucketNoCap (ff : FlowFairState) : Option ℕ :=
  ff.flowRrBuckets.toList.foldl
    (fun best bucket =>
      match best with
      | none => some bucket
      | some b =>
        if ff.flowBucketHeadFinishBytes bucket < ff.flowBucketHeadFinishBytes b then some bucket
        else best)
    none

/-- The state of the capped scan: the best bucket under the cap, and the best of all. -/
def cappedScan (ff : FlowFairState) (targetBps : ℕ) (acc : Option ℕ × Option ℕ) (bucket : ℕ) :
    Option ℕ × Option ℕ :=
  let better (best : Option ℕ) : Bool :=
    match best with
    | none => true
    | some b => decide (ff.flowBucketHeadFinishBytes bucket < ff.flowBucketHeadFinishBytes b)
  let fallback := if better acc.2 then some bucket else acc.2
  let eligible :=
    if decide (ff.flowBucketObservedBps bucket ≤ targetBps) && better acc.1 then some bucket else acc.1
  (eligible, fallback)

/-- `cos_queue_min_finish_bucket`. -/
def cosQueueMinFinishBucket (ff : FlowFairState) (targetBps : ℕ) : Option ℕ :=
  if targetBps = u64Max then cosQueueMinFinishBucketNoCap ff
  else
    let acc := ff.flowRrBuckets.toList.foldl (cappedScan ff targetBps) (none, none)
    acc.1.or acc.2

/-- `MIN_FINISH_BUCKET_FIFO`. -/
def minFinishBucketFifo : ℕ := 2 ^ 16 - 1

/-- `cos_queue_peek_min_bucket`. -/
def cosQueuePeekMinBucket (queue : CoSQueueRuntime) (targetBps : ℕ) :
    Option (ℕ × CoSPendingTxItem) :=
  match queue.flowFairState with
  | none => queue.items.head?.map fun item => (minFinishBucketFifo, item)
  | some ff =>
    match cosQueueMinFinishBucket ff targetBps with
    | none => none
    | some bucket => (ff.flowBucketItems bucket).head?.map fun item => (bucket, item)

/-- `cos_queue_is_empty`. -/
def cosQueueIsEmpty (queue : CoSQueueRuntime) : Bool :=
  match queue.flowFairState with
  | none => queue.items.isEmpty
  | some ff => ff.flowRrBuckets.toList.isEmpty

/-- `cos_queue_len`. -/
def cosQueueLen (queue : CoSQueueRuntime) : ℕ :=
  match queue.flowFairState with
  | none => queue.items.length
  | some ff => (ff.flowRrBuckets.toList.map fun bucket => (ff.flowBucketItems bucket).length).sum

/-! ## Popping -/

/-- The part of a pop on the flow-fair state before the accounting. -/
def FlowFairState.takeHead (ff : FlowFairState) (bucket : ℕ) (pushSnapshot : Bool) :
    Option (CoSPendingTxItem × FlowFairState) :=
  let servedFinish := ff.flowBucketHeadFinishBytes bucket
  match ff.flowBucketItems bucket with
  | [] => none
  | item :: rest =>
    let snapshot : CoSQueuePopSnapshot :=
      { bucket := bucket
        prePopHeadFinish := servedFinish
        prePopTailFinish := ff.flowBucketTailFinishBytes bucket
        prePopQueueVtime := ff.queueVtime }
    some (item,
      { ff with
        flowBucketItems := Function.update ff.flowBucketItems bucket rest
        popSnapshotStack := if pushSnapshot then snapshot :: ff.popSnapshotStack else ff.popSnapshotStack
        queueVtime :=
          if pushSnapshot then max ff.queueVtime servedFinish else saturatingAdd64 ff.queueVtime item.len
        flowBucketHeadFinishBytes :=
          match rest with
          | next :: _ =>
            Function.update ff.flowBucketHeadFinishBytes bucket
              (saturatingAdd64 (ff.flowBucketHeadFinishBytes bucket) next.len)
          | [] => ff.flowBucketHeadFinishBytes
        flowRrBuckets :=
          match rest with
          | _ :: _ => ff.flowRrBuckets
          | [] => ff.flowRrBuckets.remove bucket })

/-- `cos_queue_pop_known_bucket_inner`. -/
def cosQueuePopKnownBucketInner (queue : CoSQueueRuntime) (bucket : ℕ) (pushSnapshot : Bool) :
    Option (CoSPendingTxItem × CoSQueueRuntime) :=
  let taken : Option (CoSPendingTxItem × CoSQueueRuntime) :=
    match queue.flowFairState with
    | none =>
      match queue.items with
      | [] => none
      | item :: rest => some (item, { queue with items := rest })
    | some ff =>
      (ff.takeHead bucket pushSnapshot).map fun t => (t.1, { queue with flowFairState := some t.2 })
  taken.map fun t => (t.1, accountCosQueueFlowDequeue (countLocalOut t.2 t.1) t.1.flowKey t.1.len)

/-- `cos_queue_pop_known_bucket`. -/
def cosQueuePopKnownBucket (queue : CoSQueueRuntime) (bucket : ℕ) :
    Option (CoSPendingTxItem × CoSQueueRuntime) :=
  cosQueuePopKnownBucketInner queue bucket true

/-- `cos_queue_pop_front_no_snapshot`. -/
def cosQueuePopFrontNoSnapshot (queue : CoSQueueRuntime) : Option (CoSPendingTxItem × CoSQueueRuntime) :=
  match queue.flowFairState with
  | none => cosQueuePopKnownBucketInner queue minFinishBucketFifo false
  | some ff =>
    match cosQueueMinFinishBucket ff u64Max with
    | none => none
    | some bucket => cosQueuePopKnownBucketInner queue bucket false

/-! ## Pushing at the front -/

/-- `pop_matching_snapshot`, with no value where the source panics. -/
def popMatchingSnapshot (ff : FlowFairState) (bucket : ℕ) :
    Option (Option CoSQueuePopSnapshot × FlowFairState) :=
  match ff.popSnapshotStack with
  | [] => some (none, ff)
  | top :: rest =>
    if top.bucket = bucket then some (some top, { ff with popSnapshotStack := rest }) else none

/-- `restore_queue_vtime`. -/
def restoreQueueVtime (ff : FlowFairState) (snapshot : Option CoSQueuePopSnapshot) (itemLen : ℕ) :
    FlowFairState :=
  match snapshot with
  | some snap => { ff with queueVtime := snap.prePopQueueVtime }
  | none => { ff with queueVtime := ff.queueVtime - itemLen }

/-- The item goes to the front of a bucket that was empty, and the bucket into the ring. -/
def FlowFairState.reopen (ff : FlowFairState) (bucket : ℕ) (item : CoSPendingTxItem) : FlowFairState :=
  { ff with
    flowBucketItems := Function.update ff.flowBucketItems bucket (item :: ff.flowBucketItems bucket)
    flowRrBuckets := ff.flowRrBuckets.pushFront bucket }

/-- `push_front_drained_bucket_with_snapshot`. -/
def pushFrontDrainedBucketWithSnapshot (ff : FlowFairState) (bucket itemLen : ℕ)
    (item : CoSPendingTxItem) (snap : CoSQueuePopSnapshot) : FlowFairState :=
  let ff := ff.addBytes bucket itemLen
  let ff : FlowFairState :=
    { ff with
      flowBucketHeadFinishBytes := Function.update ff.flowBucketHeadFinishBytes bucket snap.prePopHeadFinish
      flowBucketTailFinishBytes := Function.update ff.flowBucketTailFinishBytes bucket snap.prePopTailFinish }
  ff.bumpActive.reopen bucket item

/-- `push_front_drained_bucket_no_snapshot`. -/
def pushFrontDrainedBucketNoSnapshot (ff : FlowFairState) (bucket itemLen : ℕ)
    (item : CoSPendingTxItem) : FlowFairState :=
  let wasIdle : Bool := ff.flowBucketBytes bucket == 0
  let ff := if wasIdle then ff.bumpActive else ff
  ((ff.addBytes bucket itemLen).anchor bucket itemLen wasIdle).reopen bucket item

/-- `push_front_active_bucket_head_rebase`. -/
def pushFrontActiveBucketHeadRebase (ff : FlowFairState) (bucket itemLen : ℕ)
    (item : CoSPendingTxItem) : FlowFairState :=
  let currentHeadBytes := ((ff.flowBucketItems bucket).head?.map CoSPendingTxItem.len).getD 0
  let ff : FlowFairState :=
    { ff with
      flowBucketHeadFinishBytes :=
        Function.update ff.flowBucketHeadFinishBytes bucket
          (ff.flowBucketHeadFinishBytes bucket - currentHeadBytes) }
  let ff := ff.addBytes bucket itemLen
  { ff with
    flowBucketItems := Function.update ff.flowBucketItems bucket (item :: ff.flowBucketItems bucket) }

/-- The part of `push_front_flow_fair_v8` below the restored queue time. -/
def pushFrontRestored (ff : FlowFairState) (snapshot : Option CoSQueuePopSnapshot) (bucket itemLen : ℕ)
    (item : CoSPendingTxItem) : FlowFairState :=
  if (ff.flowBucketItems bucket).isEmpty then
    match snapshot with
    | some snap => pushFrontDrainedBucketWithSnapshot ff bucket itemLen item snap
    | none => pushFrontDrainedBucketNoSnapshot ff bucket itemLen item
  else pushFrontActiveBucketHeadRebase ff bucket itemLen item

/-- `push_front_flow_fair_v8`, with no value where the source panics. -/
def pushFrontFlowFairV8 (ff : FlowFairState) (bucket itemLen : ℕ) (item : CoSPendingTxItem) :
    Option FlowFairState :=
  (popMatchingSnapshot ff bucket).map fun s =>
    pushFrontRestored (restoreQueueVtime s.2 s.1 itemLen) s.1 bucket itemLen item

/-- `cos_queue_push_front`, with no value where the source panics. The accounting of the
FIFO branch does nothing, the queue not being flow-fair. -/
def cosQueuePushFront (queue : CoSQueueRuntime) (item : CoSPendingTxItem) : Option CoSQueueRuntime :=
  let queue := countLocalIn queue item
  match queue.flowFairState with
  | none =>
    let queue := accountCosQueueFlowEnqueue queue none item.flowKey item.len
    some { queue with items := item :: queue.items }
  | some ff =>
    let bucket := cosFlowBucketIndex ff.flowHashSeed item.flowKey
    (pushFrontFlowFairV8 ff bucket item.len item).map fun ff =>
      { queue with flowFairState := some ff }

/-! ## Draining -/

/-- What a queue holds, whatever its counters and its ring say. -/
def CoSQueueRuntime.resident (queue : CoSQueueRuntime) : List CoSPendingTxItem :=
  queue.items ++
    match queue.flowFairState with
    | none => []
    | some ff => (List.range cosFlowFairBuckets).flatMap ff.flowBucketItems

/-- The loop of `cos_queue_drain_all`; no value when it runs out of rounds. -/
def drainLoop : ℕ → CoSQueueRuntime → Option (List CoSPendingTxItem × CoSQueueRuntime)
  | 0, _ => none
  | rounds + 1, queue =>
    match cosQueuePopFrontNoSnapshot queue with
    | none => some ([], queue)
    | some (item, queue) => (drainLoop rounds queue).map fun d => (item :: d.1, d.2)

/-- `cos_queue_drain_all`, with one round for each item and one to find the queue empty. -/
def cosQueueDrainAll (queue : CoSQueueRuntime) : Option (List CoSPendingTxItem × CoSQueueRuntime) :=
  drainLoop (queue.resident.length + 1) (clearSnapshots queue)

end Xpf.Cos
