/-
Flow-fair queues are byte-fair.

The scheduler keeps one number for the queue and one for each bucket: the queue's virtual
time, and the finish time of the bucket's head. In every reachable state the queue's time lies
between the start and the finish of every head (`Timed`). While a bucket has items its start
time moves by exactly the bytes that are popped from it, so over an interval the bytes of two
such buckets are both the progress of the queue's time, up to one item at either end.
-/
import Xpf.CosTimes
import Xpf.CosQueueRuns

set_option autoImplicit false

namespace Xpf.Cos

open Xpf.Sessions (SessionKey)
open Xpf.Runs (run run_snoc EachStep run_invariant_of)
open FlowFairState (Served)

/-! ## Selection -/

/-- The candidate of the uncapped scan only gets smaller. -/
theorem minFinish_scan {ff : FlowFairState} {b : ℕ} (l : List ℕ) (acc : Option ℕ)
    (hfold : l.foldl (fun best bucket =>
      match best with
      | none => some bucket
      | some b =>
        if ff.flowBucketHeadFinishBytes bucket < ff.flowBucketHeadFinishBytes b then some bucket
        else best) acc = some b) :
    (∀ a, acc = some a → ff.flowBucketHeadFinishBytes b ≤ ff.flowBucketHeadFinishBytes a) ∧
      ∀ c ∈ l, ff.flowBucketHeadFinishBytes b ≤ ff.flowBucketHeadFinishBytes c := by
  induction l generalizing acc with
  | nil =>
    subst hfold
    exact ⟨fun a ha => by rw [Option.some.inj ha], fun _ hc => absurd hc List.not_mem_nil⟩
  | cons x l ih =>
    rw [List.foldl_cons] at hfold
    obtain ⟨hacc, hrest⟩ := ih _ hfold
    cases acc with
    | none =>
      refine ⟨fun a ha => by simp at ha, fun c hc => ?_⟩
      rcases List.mem_cons.mp hc with rfl | hc
      · exact hacc c rfl
      · exact hrest c hc
    | some a =>
      dsimp only at hacc
      by_cases hlt : ff.flowBucketHeadFinishBytes x < ff.flowBucketHeadFinishBytes a
      · rw [if_pos hlt] at hacc
        have hx := hacc x rfl
        refine ⟨fun a' ha' => ?_, fun c hc => ?_⟩
        · obtain rfl := Option.some.inj ha'
          exact hx.trans hlt.le
        · rcases List.mem_cons.mp hc with rfl | hc
          · exact hx
          · exact hrest c hc
      · rw [if_neg hlt] at hacc
        have ha := hacc a rfl
        refine ⟨fun a' ha' => ?_, fun c hc => ?_⟩
        · obtain rfl := Option.some.inj ha'
          exact ha
        · rcases List.mem_cons.mp hc with rfl | hc
          · exact ha.trans (Nat.le_of_not_lt hlt)
          · exact hrest c hc

/-- The uncapped selection finds a bucket with the least finish time. -/
theorem minFinish_le {ff : FlowFairState} {b : ℕ} (h : cosQueueMinFinishBucketNoCap ff = some b) :
    ∀ c ∈ ff.flowRrBuckets.toList,
      ff.flowBucketHeadFinishBytes b ≤ ff.flowBucketHeadFinishBytes c := by
  unfold cosQueueMinFinishBucketNoCap at h
  exact (minFinish_scan _ none h).2

/-! ## The invariant of the times -/

namespace FlowFairState

/-- The queue's time lies between the start and the finish of every head, and an idle bucket
has no tail to be anchored at. -/
structure Timed (ff : FlowFairState) : Prop where
  idle : ∀ b, ff.flowBucketItems b = [] → ff.flowBucketTailFinishBytes b = 0
  began : ∀ b head rest, ff.flowBucketItems b = head :: rest →
    head.len ≤ ff.flowBucketHeadFinishBytes b ∧
      ff.flowBucketHeadFinishBytes b ≤ ff.queueVtime + head.len ∧
      ff.queueVtime ≤ ff.flowBucketHeadFinishBytes b

theorem Timed.new (seed : UInt64) (vtime : ℕ) :
    Timed { FlowFairState.new seed with queueVtime := vtime } where
  idle := fun _ _ => rfl
  began := fun _ _ _ h => by cases h

/-- The start time of the head of a bucket. -/
def headStart (ff : FlowFairState) (b : ℕ) : ℕ :=
  ff.flowBucketHeadFinishBytes b - ((ff.flowBucketItems b).head?.map CoSPendingTxItem.len).getD 0

section

variable {ff ff' : FlowFairState} {item : CoSPendingTxItem} {rest : List CoSPendingTxItem} {b : ℕ}

/-- **A push keeps the times**: an idle bucket starts at the queue's time. -/
theorem Timed.enqueue (ht : ff.Timed) (hlaid : ff.Laid) (hcounted : ff.Counted)
    (hrange : ff.newTail item < 2 ^ 64) : (ff.enqueue none item).Timed := by
  have hgain := ff.gained_enqueue none item
  have hmin : min (ff.newTail item) (2 ^ 64 - 1) = ff.newTail item := by omega
  refine ⟨fun c hc => ?_, fun c head rest hc => ?_⟩
  · rw [hgain.items] at hc
    rcases eq_or_ne c (ff.bucketOf item) with rfl | hne
    · rw [Function.update_self] at hc
      simp at hc
    · rw [Function.update_of_ne hne] at hc
      rw [enqueue_tail, Function.update_of_ne hne]
      exact ht.idle c hc
  · rw [hgain.items] at hc
    rw [enqueue_vtime, enqueue_head hlaid hcounted, hmin]
    rcases eq_or_ne c (ff.bucketOf item) with rfl | hne
    · rw [Function.update_self] at hc
      by_cases hidle : ff.flowBucketItems (ff.bucketOf item) = []
      · rw [hidle] at hc
        obtain ⟨rfl, -⟩ := List.cons.inj hc
        rw [if_pos hidle, Function.update_self, newTail, ht.idle _ hidle]
        omega
      · obtain ⟨first, others, hfirst⟩ := List.exists_cons_of_ne_nil hidle
        rw [hfirst] at hc
        obtain ⟨rfl, -⟩ := List.cons.inj hc
        rw [if_neg hidle]
        exact ht.began _ _ _ hfirst
    · rw [Function.update_of_ne hne] at hc
      have hsame : (if ff.flowBucketItems (ff.bucketOf item) = [] then
          Function.update ff.flowBucketHeadFinishBytes (ff.bucketOf item) (ff.newTail item)
          else ff.flowBucketHeadFinishBytes) c = ff.flowBucketHeadFinishBytes c := by
        split_ifs
        · rw [Function.update_of_ne hne]
        · rfl
      rw [hsame]
      exact ht.began c head rest hc

/-- **A pop of a least head keeps the times**: the queue's time is the finish it has served. -/
theorem Timed.served (ht : ff.Timed) (h : Served ff ff' item rest)
    (hmin : ∀ c, ff.flowBucketItems c ≠ [] →
      ff.flowBucketHeadFinishBytes (ff.bucketOf item) ≤ ff.flowBucketHeadFinishBytes c)
    (hrange : ff.headAdvance (ff.bucketOf item) < 2 ^ 64) : ff'.Timed := by
  have hvtime : ff'.queueVtime = ff.flowBucketHeadFinishBytes (ff.bucketOf item) := by
    rw [h.vtime]
    exact max_eq_right (ht.began _ _ _ h.head).2.2
  have hadvance : min (ff.headAdvance (ff.bucketOf item)) (2 ^ 64 - 1)
      = ff.headAdvance (ff.bucketOf item) := by omega
  refine ⟨fun c hc => ?_, fun c head others hc => ?_⟩
  · rw [h.items] at hc
    rw [h.tailFinish]
    rcases eq_or_ne c (ff.bucketOf item) with rfl | hne
    · rw [Function.update_self] at hc
      rw [Function.update_self, if_pos hc]
    · rw [Function.update_of_ne hne] at hc
      rw [Function.update_of_ne hne]
      exact ht.idle c hc
  · rw [h.items] at hc
    rw [h.headFinish, hvtime, hadvance]
    rcases eq_or_ne c (ff.bucketOf item) with rfl | hne
    · rw [Function.update_self] at hc
      rw [Function.update_self, if_neg (by rw [hc]; exact List.cons_ne_nil _ _), headAdvance, h.head,
        hc]
      change head.len ≤ _ + head.len ∧ _ + head.len ≤ _ + head.len ∧ _ ≤ _ + head.len
      omega
    · rw [Function.update_of_ne hne] at hc
      rw [Function.update_of_ne hne]
      have hbegan := ht.began c head others hc
      have hleast := hmin c (by rw [hc]; exact List.cons_ne_nil _ _)
      have hhead := (ht.began _ _ _ h.head).2.2
      omega

/-- A push leaves the start of a bucket that has items. -/
theorem headStart_enqueue (hlaid : ff.Laid) (hcounted : ff.Counted) (item : CoSPendingTxItem)
    (hb : ff.flowBucketItems b ≠ []) : (ff.enqueue none item).headStart b = ff.headStart b := by
  have hgain := ff.gained_enqueue none item
  rw [headStart, headStart, hgain.items, enqueue_head hlaid hcounted]
  rcases eq_or_ne b (ff.bucketOf item) with rfl | hne
  · rw [if_neg hb, Function.update_self]
    obtain ⟨first, others, hfirst⟩ := List.exists_cons_of_ne_nil hb
    rw [hfirst]
    rfl
  · rw [Function.update_of_ne hne]
    split_ifs
    · rw [Function.update_of_ne hne]
    · rfl

/-- A pop moves the start of its bucket by the bytes it takes, and no other. -/
theorem headStart_served (ht : ff.Timed) (h : Served ff ff' item rest)
    (hrange : ff.headAdvance (ff.bucketOf item) < 2 ^ 64) (hb : ff'.flowBucketItems b ≠ []) :
    ff'.headStart b = ff.headStart b + if ff.bucketOf item = b then item.len else 0 := by
  have hadvance : min (ff.headAdvance (ff.bucketOf item)) (2 ^ 64 - 1)
      = ff.headAdvance (ff.bucketOf item) := by omega
  rw [headStart, headStart, h.headFinish, h.items]
  rcases eq_or_ne b (ff.bucketOf item) with rfl | hne
  · rw [h.items, Function.update_self] at hb
    obtain ⟨next, others, rfl⟩ := List.exists_cons_of_ne_nil hb
    have hbegan := (ht.began _ _ _ h.head).1
    rw [Function.update_self, Function.update_self, if_neg hb, if_pos rfl, hadvance, headAdvance,
      h.head]
    change _ + next.len - next.len = _ - item.len + item.len
    omega
  · rw [Function.update_of_ne hne, Function.update_of_ne hne, if_neg hne.symm, Nat.add_zero]

end

end FlowFairState

/-! ## Operations -/

/-- A push of an item of positive length, or an uncapped pop. -/
def QueueOp.Uncapped : QueueOp → Prop
  | .pushBack item _ _ => 0 < item.len
  | .pop targetBps => targetBps = u64Max
  | _ => False

/-- The sums an operation saturates are in range. -/
def FlowFairState.InRange (ff : FlowFairState) : QueueOp → Prop
  | .pushBack item _ _ =>
    ff.newTail item < 2 ^ 64 ∧ ff.flowBucketBytes (ff.bucketOf item) + item.len < 2 ^ 64
  | .pop _ => ∀ b, cosQueueMinFinishBucketNoCap ff = some b → ff.headAdvance b < 2 ^ 64
  | _ => True

/-- No counter of the flow-fair state saturates in the operation. -/
def Unsaturated (s : Option Ledger) (op : QueueOp) : Prop :=
  ∀ l ff, s = some l → l.queue.flowFairState = some ff → ff.InRange op

/-- The bytes of a list of items that belong to a bucket. -/
def bytesOf (seed : UInt64) (b : ℕ) (l : List CoSPendingTxItem) : ℕ :=
  total (l.filter fun item => cosFlowBucketIndex seed item.flowKey = b)

theorem bytesOf_append (seed : UInt64) (b : ℕ) (l₁ l₂ : List CoSPendingTxItem) :
    bytesOf seed b (l₁ ++ l₂) = bytesOf seed b l₁ + bytesOf seed b l₂ := by
  rw [bytesOf, List.filter_append, total, List.map_append, List.sum_append]
  rfl

theorem bytesOf_singleton (seed : UInt64) (b : ℕ) (item : CoSPendingTxItem) :
    bytesOf seed b [item] = if cosFlowBucketIndex seed item.flowKey = b then item.len else 0 := by
  rw [bytesOf, List.filter_singleton]
  by_cases h : cosFlowBucketIndex seed item.flowKey = b
  · rw [if_pos h, decide_eq_true h]
    rfl
  · rw [if_neg h, decide_eq_false h]
    rfl

/-- A promoted queue that is not shared, with its times in order. -/
structure Fair (seed : UInt64) (s : Ledger) (ff : FlowFairState) : Prop where
  state : s.queue.flowFairState = some ff
  unshared : s.queue.sharedExact = false
  seeded : ff.flowHashSeed = seed
  laid : ff.Laid
  counted : ff.Counted
  timed : ff.Timed

/-- What one operation does: nothing out of order, and the starts follow the popped bytes. -/
structure Advanced (seed : UInt64) (s s' : Ledger) (ff ff' : FlowFairState)
    (popped : List CoSPendingTxItem) : Prop where
  fair : Fair seed s' ff'
  out : s'.out = s.out ++ popped
  start : ∀ b, ff.flowBucketItems b ≠ [] → ff'.flowBucketItems b ≠ [] →
    ff'.headStart b = ff.headStart b + bytesOf seed b popped

section

variable {seed : UInt64} {s s' : Ledger} {ff ff' : FlowFairState} {item : CoSPendingTxItem}

theorem countLocalIn_sharedExact {q : CoSQueueRuntime} :
    (countLocalIn q item).sharedExact = q.sharedExact := by
  unfold countLocalIn
  split <;> rfl

/-- A push to a promoted queue that is not shared asks no peer. -/
theorem pushBack_unshared {q : CoSQueueRuntime} (h : q.flowFairState = some ff)
    (hunshared : q.sharedExact = false) (draw : UInt64) (peerFrontier : Option ℕ)
    (hpos : 0 < item.len) :
    cosQueuePushBack q draw peerFrontier item
      = { countLocalIn q item with flowFairState := some (ff.enqueue none item) } := by
  obtain ⟨eligible, sharedExact, items, count, state⟩ := q
  cases h
  cases hunshared
  have hprobe : maybePromoteBestEffort ⟨eligible, false, items, count, some ff⟩ draw peerFrontier item
      = ⟨eligible, false, items, count, some ff⟩ := by
    unfold maybePromoteBestEffort
    rw [if_pos (by simp)]
  rw [cosQueuePushBack, hprobe]
  unfold pushBackProbed accountCosQueueFlowEnqueue
  simp only [clearSnapshots, countLocalIn_flowFairState, Option.map_some, if_neg hpos.ne']
  cases item <;> rfl

theorem Fair.pushBack (hs : Fair seed s ff) (draw : UInt64) (peerFrontier : Option ℕ)
    (hpos : 0 < item.len) (hrange : ff.InRange (.pushBack item draw peerFrontier)) :
    ∃ s' ff', s.step (.pushBack item draw peerFrontier) = some s' ∧ Advanced seed s s' ff ff' [] := by
  have hgain := ff.gained_enqueue none item
  have hperm : (ff.flowBucketItems (ff.bucketOf item) ++ [item]).Perm
      (item :: ff.flowBucketItems (ff.bucketOf item)) := List.perm_append_singleton _ _
  have hfit : total (ff.flowBucketItems (ff.bucketOf item) ++ [item]) < 2 ^ 64 := by
    rw [total_perm hperm, total_cons, ← hs.counted.bytes]
    have := hrange.2
    omega
  refine ⟨_, ff.enqueue none item, rfl, ⟨?_, ?_, ?_, ?_, ?_, ?_⟩, (List.append_nil _).symm, ?_⟩
  · rw [pushBack_unshared hs.state hs.unshared draw peerFrontier hpos]
  · rw [pushBack_unshared hs.state hs.unshared draw peerFrontier hpos]
    exact countLocalIn_sharedExact.trans hs.unshared
  · exact hgain.seed.trans hs.seeded
  · exact hgain.laid hperm hpos hs.laid
  · exact hgain.counted hperm hs.laid hs.counted hfit
  · exact hs.timed.enqueue hs.laid hs.counted hrange.1
  · intro b hb _
    rw [FlowFairState.headStart_enqueue hs.laid hs.counted item hb]
    rfl

theorem Fair.pop (hs : Fair seed s ff) (hrange : ff.InRange (.pop u64Max)) :
    ∃ s' ff' popped, s.step (.pop u64Max) = some s' ∧ Advanced seed s s' ff ff' popped := by
  have hselect : cosQueueMinFinishBucket ff u64Max = cosQueueMinFinishBucketNoCap ff := if_pos rfl
  rcases snapshotPop_promoted hs.state hs.laid.listed u64Max with
    ⟨hpop, -⟩ | ⟨b, item, ff₁, q', hmin, htake, hpop, hstate, hshared⟩
  · refine ⟨s, ff, [], ?_, hs, (List.append_nil _).symm, fun b _ _ => rfl⟩
    simp only [Ledger.step, hpop]
  · rw [hselect] at hmin
    obtain ⟨rest, rfl, hserved⟩ := FlowFairState.takeHead_served hs.laid hs.counted htake
    have hleast : ∀ c, ff.flowBucketItems c ≠ [] →
        ff.flowBucketHeadFinishBytes (ff.bucketOf item) ≤ ff.flowBucketHeadFinishBytes c :=
      fun c hc => minFinish_le hmin c ((hs.laid.listed.mem_iff c).mpr hc)
    have hadvance := hrange _ hmin
    refine ⟨{ s with queue := q', out := s.out ++ [item] },
      ff₁.accountDequeue item.flowKey item.len, [item], ?_, ⟨?_, ?_, ?_, ?_, ?_, ?_⟩, rfl, ?_⟩
    · simp only [Ledger.step, hpop]
    · exact hstate
    · exact hshared.trans hs.unshared
    · exact hserved.seed.trans hs.seeded
    · exact hserved.toLost.laid hs.laid
    · exact hserved.toLost.counted hs.laid hs.counted
    · exact hs.timed.served hserved hleast hadvance
    · intro b _ hb
      rw [FlowFairState.headStart_served hs.timed hserved hadvance hb, bytesOf_singleton, ← hs.seeded]

/-- **One operation.** -/
theorem Fair.step (hs : Fair seed s ff) (op : QueueOp) (hop : op.Uncapped) (hrange : ff.InRange op) :
    ∃ s' ff' popped, s.step op = some s' ∧ Advanced seed s s' ff ff' popped := by
  cases op with
  | pushBack item draw peerFrontier =>
    obtain ⟨s', ff', hstep, hadv⟩ := hs.pushBack draw peerFrontier hop hrange
    exact ⟨s', ff', [], hstep, hadv⟩
  | pop targetBps =>
    obtain rfl : targetBps = u64Max := hop
    exact hs.pop hrange
  | pushFront => exact absurd hop id
  | drainAll => exact absurd hop id
  | observe observedBps => exact absurd hop id

end

/-! ## Intervals -/

/-- In this state the bucket has items, none of them longer than `maxLen`. -/
def Backlogged (s : Option Ledger) (b maxLen : ℕ) : Prop :=
  ∃ l ff, s = some l ∧ l.queue.flowFairState = some ff ∧ ff.flowBucketItems b ≠ [] ∧
    ∀ item ∈ ff.flowBucketItems b, item.len ≤ maxLen

section

variable {flowFairEligible : Bool} {seed : UInt64} {vtime : ℕ} {ops : List QueueOp}

/-- The run of operations on an empty flow-fair queue that is not shared. -/
abbrev fairRuns (flowFairEligible : Bool) (seed : UInt64) (vtime : ℕ) (ops : List QueueOp) :
    Option Ledger :=
  runs flowFairEligible false (some (seed, vtime)) ops

/-- No counter saturates along the run. -/
abbrev NoSaturation (flowFairEligible : Bool) (seed : UInt64) (vtime : ℕ) (ops : List QueueOp) : Prop :=
  EachStep advance (some (Ledger.start flowFairEligible false (some (seed, vtime)))) Unsaturated ops

theorem fair_run (hops : ∀ op ∈ ops, op.Uncapped)
    (hrange : NoSaturation flowFairEligible seed vtime ops) :
    ∃ s ff, fairRuns flowFairEligible seed vtime ops = some s ∧ Fair seed s ff := by
  refine run_invariant_of (P := fun o => ∃ s ff, o = some s ∧ Fair seed s ff)
    (C := fun o (op : QueueOp) => op.Uncapped ∧ Unsaturated o op) ?_ ?_ ?_
  · refine ⟨_, _, rfl, rfl, rfl, rfl, FlowFairState.Laid.new seed vtime,
      FlowFairState.Counted.new seed vtime, FlowFairState.Timed.new seed vtime⟩
  · rintro _ op ⟨hop, hsat⟩ ⟨s, ff, rfl, hs⟩
    obtain ⟨s', ff', popped, hstep, hadv⟩ := hs.step op hop (hsat s ff rfl hs.state)
    exact ⟨s', ff', hstep, hadv.fair⟩
  · exact fun before op hpre => ⟨hops op (hpre.subset (by simp)), hrange before op hpre⟩

/-- **The starts telescope**: over an interval in which a bucket always has items its start
moves by the bytes popped from it. -/
theorem start_interval (before interval : List QueueOp)
    (hops : ∀ op ∈ before ++ interval, op.Uncapped)
    (hrange : NoSaturation flowFairEligible seed vtime (before ++ interval)) :
    ∃ s₁ ff₁ s₂ ff₂ popped, fairRuns flowFairEligible seed vtime before = some s₁ ∧
      fairRuns flowFairEligible seed vtime (before ++ interval) = some s₂ ∧
      Fair seed s₁ ff₁ ∧ Fair seed s₂ ff₂ ∧ s₂.out = s₁.out ++ popped ∧
      ∀ b, (∀ mid, mid <+: interval → ∃ maxLen,
          Backlogged (fairRuns flowFairEligible seed vtime (before ++ mid)) b maxLen) →
        ff₂.headStart b = ff₁.headStart b + bytesOf seed b popped := by
  induction interval using List.reverseRecOn with
  | nil =>
    rw [List.append_nil] at hops hrange ⊢
    obtain ⟨s, ff, hrun, hs⟩ := fair_run hops hrange
    exact ⟨s, ff, s, ff, [], hrun, hrun, hs, hs, (List.append_nil _).symm, fun b _ => rfl⟩
  | append_singleton interval op ih =>
    rw [← List.append_assoc] at hops hrange ⊢
    obtain ⟨s₁, ff₁, s, ff, popped, h₁, hrun, hs₁, hs, hout, hstart⟩ :=
      ih (fun o ho => hops o (List.mem_append_left _ ho)) (hrange.mono (List.prefix_append _ _))
    have hsat := hrange (before ++ interval) op List.prefix_rfl s ff hrun hs.state
    obtain ⟨s₂, ff₂, more, hstep, hadv⟩ := hs.step op (hops op (by simp)) hsat
    have hrun₂ : fairRuns flowFairEligible seed vtime (before ++ interval ++ [op]) = some s₂ := by
      rw [fairRuns, runs, run_snoc]
      change advance (fairRuns flowFairEligible seed vtime (before ++ interval)) op = some s₂
      rw [hrun]
      exact hstep
    refine ⟨s₁, ff₁, s₂, ff₂, popped ++ more, h₁, hrun₂, hs₁, hadv.fair, ?_, fun b hb => ?_⟩
    · rw [hadv.out, hout, List.append_assoc]
    · -- the bucket has items before and after the last operation
      have hbusy : ff.flowBucketItems b ≠ [] := by
        obtain ⟨-, l, ff', hl, hff', hne, -⟩ := hb interval (List.prefix_append _ _)
        rw [hrun] at hl
        obtain rfl := Option.some.inj hl
        rw [hs.state] at hff'
        obtain rfl := Option.some.inj hff'
        exact hne
      have hbusy₂ : ff₂.flowBucketItems b ≠ [] := by
        obtain ⟨-, l, ff', hl, hff', hne, -⟩ := hb (interval ++ [op]) List.prefix_rfl
        rw [← List.append_assoc, hrun₂] at hl
        obtain rfl := Option.some.inj hl
        rw [hadv.fair.state] at hff'
        obtain rfl := Option.some.inj hff'
        exact hne
      rw [hadv.start b hbusy hbusy₂,
        hstart b fun mid hmid => hb mid (hmid.trans (List.prefix_append _ _)), bytesOf_append,
        Nat.add_assoc]

/-- The queue's time is within one item of the start of a bucket that has items. -/
theorem Fair.start_near {s : Ledger} {ff : FlowFairState} {b maxLen : ℕ} (hs : Fair seed s ff)
    (hb : Backlogged (some s) b maxLen) :
    ff.headStart b ≤ ff.queueVtime ∧ ff.queueVtime ≤ ff.headStart b + maxLen := by
  obtain ⟨l, ff', hl, hff', hne, hmax⟩ := hb
  obtain rfl := Option.some.inj hl
  rw [hs.state] at hff'
  obtain rfl := Option.some.inj hff'
  obtain ⟨head, rest, hcons⟩ := List.exists_cons_of_ne_nil hne
  have hbegan := hs.timed.began b head rest hcons
  have hlen := hmax head (by rw [hcons]; exact List.mem_cons_self)
  rw [FlowFairState.headStart, hcons]
  change _ - head.len ≤ _ ∧ _ ≤ _ - head.len + maxLen
  omega

/-- **Flow-fair queues are byte-fair.** After every run of pushes and uncapped snapshot pops
the queue's time lies between the start and the finish of every head; and over any interval at
the end of the run in which two buckets always have items, the bytes popped from them differ
by at most the largest item of the one and of the other. -/
theorem flowFair_byteFair (flowFairEligible : Bool) (seed : UInt64) (vtime : ℕ) (ops : List QueueOp)
    (hops : ∀ op ∈ ops, op.Uncapped) (hrange : NoSaturation flowFairEligible seed vtime ops) :
    ∃ s ff, fairRuns flowFairEligible seed vtime ops = some s ∧ s.queue.flowFairState = some ff ∧
      (∀ b head rest, ff.flowBucketItems b = head :: rest →
        ff.flowBucketHeadFinishBytes b - head.len ≤ ff.queueVtime ∧
          ff.queueVtime ≤ ff.flowBucketHeadFinishBytes b) ∧
      ∀ before interval, before ++ interval = ops →
        ∃ s₁, fairRuns flowFairEligible seed vtime before = some s₁ ∧
          ∀ i j maxLenI maxLenJ,
            (∀ mid, mid <+: interval →
              Backlogged (fairRuns flowFairEligible seed vtime (before ++ mid)) i maxLenI ∧
                Backlogged (fairRuns flowFairEligible seed vtime (before ++ mid)) j maxLenJ) →
            bytesOf seed i (s.out.drop s₁.out.length)
                ≤ bytesOf seed j (s.out.drop s₁.out.length) + (maxLenI + maxLenJ) ∧
              bytesOf seed j (s.out.drop s₁.out.length)
                ≤ bytesOf seed i (s.out.drop s₁.out.length) + (maxLenI + maxLenJ) := by
  obtain ⟨s, ff, hrun, hs⟩ := fair_run hops hrange
  refine ⟨s, ff, hrun, hs.state, fun b head rest hb => ?_, ?_⟩
  · have hbegan := hs.timed.began b head rest hb
    omega
  · rintro before interval rfl
    obtain ⟨s₁, ff₁, s₂, ff₂, popped, h₁, h₂, hs₁, hs₂, hout, hstart⟩ :=
      start_interval before interval hops hrange
    obtain rfl : s₂ = s := Option.some.inj (h₂.symm.trans hrun)
    refine ⟨s₁, h₁, fun i j maxLenI maxLenJ hbusy => ?_⟩
    have hdrop : s₂.out.drop s₁.out.length = popped := by
      rw [hout, List.drop_left]
    have hfirst := hbusy [] List.nil_prefix
    have hlast := hbusy interval List.prefix_rfl
    rw [List.append_nil, h₁] at hfirst
    rw [h₂] at hlast
    have hi := hstart i fun mid hmid => ⟨maxLenI, (hbusy mid hmid).1⟩
    have hj := hstart j fun mid hmid => ⟨maxLenJ, (hbusy mid hmid).2⟩
    have hi₁ := hs₁.start_near hfirst.1
    have hj₁ := hs₁.start_near hfirst.2
    have hi₂ := hs₂.start_near hlast.1
    have hj₂ := hs₂.start_near hlast.2
    rw [hdrop]
    omega

end

/-- Two flows, one of which is served. -/
theorem flowFair_byteFair_twoFlows :
    ∃ s ff, fairRuns true 7 0 [.pushBack firstItem 0 none, .pushBack secondItem 0 none, .pop u64Max]
        = some s ∧ s.queue.flowFairState = some ff ∧
      ∀ b head rest, ff.flowBucketItems b = head :: rest →
        ff.flowBucketHeadFinishBytes b - head.len ≤ ff.queueVtime ∧
          ff.queueVtime ≤ ff.flowBucketHeadFinishBytes b := by
  have hops : ∀ op ∈ [QueueOp.pushBack firstItem 0 none, .pushBack secondItem 0 none, .pop u64Max],
      op.Uncapped := by
    intro op hop
    simp only [List.mem_cons, List.not_mem_nil, or_false] at hop
    rcases hop with rfl | rfl | rfl
    · exact Nat.zero_lt_one
    · exact show 0 < 60 by decide
    · exact rfl
  have hrange : NoSaturation true 7 0
      [.pushBack firstItem 0 none, .pushBack secondItem 0 none, .pop u64Max] := by
    refine EachStep.cons ?_ (EachStep.cons ?_ (EachStep.cons ?_ EachStep.nil)) <;>
      intro l ff hl hff <;> obtain rfl := Option.some.inj hl <;> obtain rfl := Option.some.inj hff
    · constructor <;> decide
    · constructor <;> decide
    · intro b hb
      obtain rfl : 0 = b := by
        rw [← Option.some_inj]
        refine Eq.trans ?_ hb
        decide +kernel
      decide +kernel
  obtain ⟨s, ff, hrun, hstate, htimes, -⟩ := flowFair_byteFair true 7 0 _ hops hrange
  exact ⟨s, ff, hrun, hstate, htimes⟩

end Xpf.Cos
