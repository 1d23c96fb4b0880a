/-
Active and inactive flow export: `pkg/flowexport/tracker_15655.go` and the close record of
`exporter_core.go`.

The tracker holds a live entry for an open flow, with the counters the collector has
already been told of as its baseline. An active timeout exports what has been counted
since and moves the baseline up; an inactive timeout does the same and leaves an idle
marker with the baseline behind, from which later packets make a live entry again. The
close of the session exports what its lifetime counters are ahead of the baseline.

A map is a `Table`, and the order in which a loop over a map visits its keys is an
argument. Times are nanoseconds, and the zero `time.Time` is `0`. What a record copies
from its template and the tracker does not look at is a type variable.
-/
import Xpf.GoStrings
import Xpf.Tables
import Mathlib.Tactic

set_option autoImplicit false

namespace Xpf.FlowExport

open GoStrings Tables

/-! ## Records -/

/-- `FlowKey`. -/
structure FlowKey where
  srcIP : Bytes
  dstIP : Bytes
  srcPort : UInt16
  dstPort : UInt16
  protocol : UInt8
  isIPv6 : Bool
deriving DecidableEq

/-- The four counters of a flow. -/
structure Counters where
  packets : UInt64
  bytes : UInt64
  revPackets : UInt64
  revBytes : UInt64
deriving DecidableEq

def Counters.zero : Counters := ⟨0, 0, 0, 0⟩

/-- A time, and a duration. -/
abbrev Time := ℤ

/-- `Time.Sub`: the difference, cut to what a duration can hold. -/
def Time.sub (t u : Time) : ℤ := max (-9223372036854775808) (min 9223372036854775807 (t - u))

variable {τ : Type}

/-- `FlowRecord`. -/
structure FlowRecord (τ : Type) where
  template : τ
  startTime : Time
  endTime : Time
  counters : Counters

/-- `trackedFlow`: `last` is the counters at the last export. -/
structure TrackedFlow (τ : Type) where
  key : FlowKey
  start : Time
  lastExport : Time
  lastActivity : Time
  last : Counters
  record : FlowRecord τ

/-- `idleMarker`: `base` is what the final record covered, `last` what a resuming flow is
compared with. -/
structure IdleMarker (τ : Type) where
  base : Counters
  last : Counters
  record : FlowRecord τ

/-- `FlowTracker`. -/
structure FlowTracker (τ : Type) where
  active : ℤ
  inactive : ℤ
  flows : Table FlowKey (TrackedFlow τ)
  idle : Table FlowKey (IdleMarker τ)

def idleMarkerMax : ℕ := 8192

/-- `NewFlowTracker`: nothing when neither timeout is set. -/
def newFlowTracker (active inactive : ℤ) : Option (FlowTracker τ) :=
  if active ≤ 0 ∧ inactive ≤ 0 then none else some { active, inactive, flows := ∅, idle := ∅ }

/-! ## The operations of a tracker -/

/-- `satSub`. -/
def satSub (v base : UInt64) : UInt64 := if v ≤ base then 0 else v - base

/-- `TrackFlowOpen`. -/
def trackFlowOpen (key : FlowKey) (start : Time) (template : FlowRecord τ) (t : FlowTracker τ) : FlowTracker τ :=
  { t with
    idle := t.idle.erase key
    flows := t.flows.insert key
      { key, start, lastExport := start, lastActivity := start, last := .zero
        record := { template with startTime := start } } }

/-- The counters of one snapshot: `Touch` has only the forward ones. -/
structure Snapshot where
  packets : UInt64
  bytes : UInt64
  reverse : Option (UInt64 × UInt64)

/-- Any counter is ahead of the ones stored. -/
def Snapshot.progress (s : Snapshot) (c : Counters) : Bool :=
  decide (s.packets > c.packets) || decide (s.bytes > c.bytes)
    || s.reverse.any fun rev => decide (rev.1 > c.revPackets) || decide (rev.2 > c.revBytes)

/-- A stored counter only goes up. -/
def raise (stored seen : UInt64) : UInt64 := if seen > stored then seen else stored

/-- The maximum of each counter. -/
def Snapshot.raise (s : Snapshot) (c : Counters) : Counters where
  packets := FlowExport.raise c.packets s.packets
  bytes := FlowExport.raise c.bytes s.bytes
  revPackets := (s.reverse.map fun rev => FlowExport.raise c.revPackets rev.1).getD c.revPackets
  revBytes := (s.reverse.map fun rev => FlowExport.raise c.revBytes rev.2).getD c.revBytes

/-- What `Touch` and `TouchBidirectional` share. -/
def touchWith (key : FlowKey) (now : Time) (s : Snapshot) (t : FlowTracker τ) : FlowTracker τ :=
  match t.flows.lookup key with
  | none =>
    match t.idle.lookup key with
    | none => t
    | some m =>
      if ¬ s.progress m.last then t
      else
        -- the flow resumes: its baseline is the marker's
        { t with
          idle := t.idle.erase key
          flows := t.flows.insert key
            { key, start := now, lastExport := now, lastActivity := now, last := m.base
              record := { m.record with counters := s.raise m.record.counters } } }
  | some f =>
    { t with
      flows := t.flows.insert key
        { f with
          record := { f.record with counters := s.raise f.record.counters }
          lastActivity := if s.progress f.record.counters then now else f.lastActivity } }

/-- `Touch`. -/
def touch (key : FlowKey) (now : Time) (packets bytes : UInt64) : FlowTracker τ → FlowTracker τ :=
  touchWith key now { packets, bytes, reverse := none }

/-- `TouchBidirectional`. -/
def touchBidirectional (key : FlowKey) (now : Time) (fwdPackets fwdBytes revPackets revBytes : UInt64) :
    FlowTracker τ → FlowTracker τ :=
  touchWith key now { packets := fwdPackets, bytes := fwdBytes, reverse := some (revPackets, revBytes) }

/-- `deltaRecord`. -/
def TrackedFlow.deltaRecord (f : TrackedFlow τ) (now : Time) : FlowRecord τ :=
  { f.record with
    startTime := if f.lastExport = 0 then f.start else f.lastExport
    endTime := now
    counters :=
      { packets := satSub f.record.counters.packets f.last.packets
        bytes := satSub f.record.counters.bytes f.last.bytes
        revPackets := satSub f.record.counters.revPackets f.last.revPackets
        revBytes := satSub f.record.counters.revBytes f.last.revBytes } }

/-- `storeIdleMarkerLocked`. -/
def storeIdleMarker (key : FlowKey) (m : IdleMarker τ) (t : FlowTracker τ) : FlowTracker τ :=
  let idle := if t.idle.lookup key = none ∧ t.idle.entries.length ≥ idleMarkerMax then ∅ else t.idle
  { t with idle := idle.insert key m }

/-- One round of the loop of `CollectDueExports`: the record, with the key of its flow. -/
def collectRound (now : Time) (t : FlowTracker τ) (key : FlowKey) : FlowTracker τ × List (FlowKey × FlowRecord τ) :=
  match t.flows.lookup key with
  | none => (t, [])
  | some f =>
    -- an idle flow gets one final record, not an interim and a final one
    if t.inactive > 0 ∧ Time.sub now f.lastActivity ≥ t.inactive then
      let t' := storeIdleMarker key { base := f.record.counters, last := f.record.counters, record := f.record } t
      ({ t' with flows := t'.flows.erase key }, [(key, f.deltaRecord now)])
    else if t.active > 0 ∧ Time.sub now f.lastExport ≥ t.active then
      ({ t with flows := t.flows.insert key { f with lastExport := now, last := f.record.counters, start := now } },
        [(key, f.deltaRecord now)])
    else (t, [])

/-- `CollectDueExports`, the loop visiting the keys in the order given. -/
def collectDueExports (now : Time) : List FlowKey → FlowTracker τ → FlowTracker τ × List (FlowKey × FlowRecord τ)
  | [], t => (t, [])
  | key :: order, t =>
    let (t, out) := collectRound now t key
    let (t, rest) := collectDueExports now order t
    (t, out ++ rest)

/-- `CloseWithBaseline`: the baseline, and whether the flow was tracked. -/
def closeWithBaseline (key : FlowKey) (t : FlowTracker τ) : FlowTracker τ × Counters × Bool :=
  match t.flows.lookup key with
  | some f => ({ t with flows := t.flows.erase key, idle := t.idle.erase key }, f.last, true)
  | none =>
    match t.idle.lookup key with
    | some m => ({ t with idle := t.idle.erase key }, m.base, true)
    | none => (t, .zero, false)

/-- The counters of the record `exportSessionCloseRemainder` queues for a session with
these lifetime counters. -/
def closeRemainder (lifetime : Counters) (includeReverse : Bool) (base : Counters) : Counters where
  packets := satSub lifetime.packets base.packets
  bytes := satSub lifetime.bytes base.bytes
  revPackets := satSub (if includeReverse then lifetime.revPackets else 0) base.revPackets
  revBytes := satSub (if includeReverse then lifetime.revBytes else 0) base.revBytes

/-! ## Runs -/

/-- What happens to an exporter. -/
inductive Event (τ : Type) where
  | trackFlowOpen (key : FlowKey) (start : Time) (template : FlowRecord τ)
  | touch (key : FlowKey) (now : Time) (packets bytes : UInt64)
  | touchBidirectional (key : FlowKey) (now : Time) (fwdPackets fwdBytes revPackets revBytes : UInt64)
  | collectDueExports (now : Time) (order : List FlowKey)
  | closeWithBaseline (key : FlowKey)

/-- One event: the tracker behind it, and the records it exports. Every method of a nil
tracker does nothing. -/
def step (t : Option (FlowTracker τ)) (e : Event τ) : Option (FlowTracker τ) × List (FlowKey × FlowRecord τ) :=
  match t with
  | none => (none, [])
  | some t =>
    match e with
    | .trackFlowOpen key start template => (some (trackFlowOpen key start template t), [])
    | .touch key now packets bytes => (some (touch key now packets bytes t), [])
    | .touchBidirectional key now fwdPackets fwdBytes revPackets revBytes =>
      (some (touchBidirectional key now fwdPackets fwdBytes revPackets revBytes t), [])
    | .collectDueExports now order =>
      let (t, out) := collectDueExports now order t
      (some t, out)
    | .closeWithBaseline key => (some (closeWithBaseline key t).1, [])

/-- A run of events. -/
def run (t : Option (FlowTracker τ)) : List (Event τ) → Option (FlowTracker τ) × List (FlowKey × FlowRecord τ)
  | [] => (t, [])
  | e :: events =>
    let (t, out) := step t e
    let (t, rest) := run t events
    (t, out ++ rest)

/-- `CloseWithBaseline` of an exporter, which may have no tracker. -/
def close (key : FlowKey) (t : Option (FlowTracker τ)) : Option (FlowTracker τ) × Counters × Bool :=
  match t with
  | none => (none, .zero, false)
  | some t =>
    let (t, base, tracked) := closeWithBaseline key t
    (some t, base, tracked)

/-! ## Counter by counter -/

/-- One of the four counters. -/
inductive Counter where
  | packets
  | bytes
  | revPackets
  | revBytes

def Counters.get (c : Counters) : Counter → UInt64
  | .packets => c.packets
  | .bytes => c.bytes
  | .revPackets => c.revPackets
  | .revBytes => c.revBytes

/-- Every counter is at most another's. -/
def Within (c d : Counters) : Prop := ∀ i, c.get i ≤ d.get i

theorem Within.refl (c : Counters) : Within c c := fun _ => UInt64.le_refl _

theorem Within.trans {c d e : Counters} (h : Within c d) (h' : Within d e) : Within c e :=
  fun i => UInt64.le_trans (h i) (h' i)

theorem zero_within (c : Counters) : Within .zero c := by
  intro i
  have hzero : Counters.zero.get i = 0 := by cases i <;> rfl
  rw [hzero]
  exact UInt64.le_iff_toNat_le.mpr (Nat.zero_le _)

/-- What a snapshot says of a counter. -/
def Snapshot.seen (s : Snapshot) : Counter → Option UInt64
  | .packets => some s.packets
  | .bytes => some s.bytes
  | .revPackets => s.reverse.map (·.1)
  | .revBytes => s.reverse.map (·.2)

theorem satSub_add {v base : UInt64} (h : base ≤ v) : (satSub v base).toNat + base.toNat = v.toNat := by
  rw [satSub]
  split_ifs with hle
  · rw [UInt64.le_antisymm hle h]
    exact Nat.zero_add _
  · rw [UInt64.toNat_sub_of_le _ _ h]
    have := UInt64.le_iff_toNat_le.mp h
    omega

theorem get_deltaRecord (f : TrackedFlow τ) (now : Time) (i : Counter) :
    (f.deltaRecord now).counters.get i = satSub (f.record.counters.get i) (f.last.get i) := by
  cases i <;> rfl

theorem get_closeRemainder (lifetime base : Counters) (i : Counter) :
    (closeRemainder lifetime true base).get i = satSub (lifetime.get i) (base.get i) := by
  cases i <;> rfl

theorem get_raise (s : Snapshot) (c : Counters) (i : Counter) :
    (s.raise c).get i = ((s.seen i).map (raise (c.get i))).getD (c.get i) := by
  cases i <;> cases h : s.reverse <;> simp [Snapshot.raise, Snapshot.seen, Counters.get, h]

theorem within_raise (s : Snapshot) (c : Counters) : Within c (s.raise c) := by
  intro i
  rw [get_raise]
  cases s.seen i with
  | none => exact UInt64.le_refl _
  | some v =>
    rw [Option.map_some, Option.getD_some, raise]
    split_ifs with hgt
    · exact UInt64.le_of_lt hgt
    · exact UInt64.le_refl _

theorem raise_within {s : Snapshot} {c bound : Counters} (hc : Within c bound)
    (hseen : ∀ i v, s.seen i = some v → v ≤ bound.get i) : Within (s.raise c) bound := by
  intro i
  rw [get_raise]
  cases h : s.seen i with
  | none => exact hc i
  | some v =>
    rw [Option.map_some, Option.getD_some, raise]
    split_ifs
    · exact hseen i v h
    · exact hc i

/-! ## The invariant -/

/-- What has been exported of one counter of one flow. -/
def exported (key : FlowKey) (i : Counter) (out : List (FlowKey × FlowRecord τ)) : ℕ :=
  ((out.filter fun r => r.1 = key).map fun r => (r.2.counters.get i).toNat).sum

theorem exported_append (key : FlowKey) (i : Counter) (out rest : List (FlowKey × FlowRecord τ)) :
    exported key i (out ++ rest) = exported key i out + exported key i rest := by
  rw [exported, List.filter_append, List.map_append, List.sum_append]
  rfl

theorem exported_singleton (key key' : FlowKey) (i : Counter) (r : FlowRecord τ) :
    exported key i [(key', r)] = if key' = key then (r.counters.get i).toNat else 0 := by
  rw [exported, List.filter_singleton]
  split_ifs with h₁ h₂ h₂ <;> simp_all

/-- A flow of which `sent` has been exported: what has been exported is its baseline, the
baseline is at most what has been counted, and that is at most the bound. The baseline
stands in a live entry or in an idle marker. -/
def Accounted (key : FlowKey) (bound : Counters) (t : FlowTracker τ) (sent : Counter → ℕ) : Prop :=
  (∃ f, t.flows.lookup key = some f ∧ t.idle.lookup key = none ∧ (∀ i, sent i = (f.last.get i).toNat)
      ∧ Within f.last f.record.counters ∧ Within f.record.counters bound)
    ∨ t.flows.lookup key = none ∧ ∃ m, t.idle.lookup key = some m ∧ (∀ i, sent i = (m.base.get i).toNat)
      ∧ m.base = m.record.counters ∧ Within m.record.counters bound

section

variable {key : FlowKey} {bound : Counters} {t : FlowTracker τ} {sent : Counter → ℕ}

/-- What happens to other flows does not matter. -/
theorem Accounted.congr (h : Accounted key bound t sent) {t' : FlowTracker τ}
    (hflows : t'.flows.lookup key = t.flows.lookup key) (hidle : t'.idle.lookup key = t.idle.lookup key) :
    Accounted key bound t' sent := by
  rw [Accounted, hflows, hidle]
  exact h

theorem accounted_open (bound : Counters) (t : FlowTracker τ) (key : FlowKey) (start : Time)
    {template : FlowRecord τ} (hzero : template.counters = .zero) :
    Accounted key bound (trackFlowOpen key start template t) fun _ => 0 := by
  refine .inl ⟨_, AList.lookup_insert _, AList.lookup_erase _ _, fun i => ?_, ?_, ?_⟩
  · cases i <;> rfl
  · exact zero_within _
  · show Within template.counters bound
    rw [hzero]
    exact zero_within bound

theorem trackFlowOpen_other {key' : FlowKey} (hne : key ≠ key') (start : Time) (template : FlowRecord τ)
    (h : Accounted key bound t sent) : Accounted key bound (trackFlowOpen key' start template t) sent :=
  h.congr (AList.lookup_insert_ne hne) (AList.lookup_erase_ne hne)

theorem touchWith_other {key' : FlowKey} (hne : key ≠ key') (now : Time) (s : Snapshot)
    (h : Accounted key bound t sent) : Accounted key bound (touchWith key' now s t) sent := by
  rw [touchWith]
  split
  · split
    · exact h
    · split_ifs
      · exact h.congr (AList.lookup_insert_ne hne) (AList.lookup_erase_ne hne)
      · exact h
  · exact h.congr (AList.lookup_insert_ne hne) rfl

/-- **A snapshot** exports nothing and moves no baseline, whatever its counters. -/
theorem Accounted.touchWith (h : Accounted key bound t sent) (now : Time) {s : Snapshot}
    (hseen : ∀ i v, s.seen i = some v → v ≤ bound.get i) :
    Accounted key bound (FlowExport.touchWith key now s t) sent := by
  rw [FlowExport.touchWith]
  rcases h with ⟨f, hf, hidle, hsent, hlast, hbound⟩ | ⟨hf, m, hm, hsent, hbase, hbound⟩
  · rw [hf]
    exact .inl ⟨_, AList.lookup_insert _, hidle, hsent, hlast.trans (within_raise s _), raise_within hbound hseen⟩
  · rw [hf, hm]
    dsimp only
    split_ifs
    · refine .inl ⟨_, AList.lookup_insert _, AList.lookup_erase _ _, hsent, ?_, raise_within hbound hseen⟩
      show Within m.base (s.raise m.record.counters)
      rw [hbase]
      exact within_raise s _
    · -- no progress: the marker stays
      exact .inr ⟨hf, m, hm, hsent, hbase, hbound⟩

theorem lookup_storeIdleMarker (hroom : t.idle.entries.length < idleMarkerMax) (key' : FlowKey) (m : IdleMarker τ) :
    (storeIdleMarker key' m t).idle = t.idle.insert key' m := by
  rw [storeIdleMarker, if_neg (by omega)]

/-- **One round of a collection** exports what the flow is ahead of its baseline and moves
the baseline up by it. -/
theorem Accounted.collectRound (h : Accounted key bound t sent) (hroom : t.idle.entries.length < idleMarkerMax)
    (now : Time) (key' : FlowKey) :
    Accounted key bound (FlowExport.collectRound now t key').1
      fun i => sent i + exported key i (FlowExport.collectRound now t key').2 := by
  have hnone : ∀ i, exported key i ([] : List (FlowKey × FlowRecord τ)) = 0 := fun _ => rfl
  rw [FlowExport.collectRound]
  rcases eq_or_ne key key' with rfl | hne
  · rcases h with ⟨f, hf, hidle, hsent, hlast, hbound⟩ | ⟨hf, m, hm, hsent, hbase, hbound⟩
    · -- the record closes the gap between the baseline and the counters
      have hdelta : ∀ i, sent i + exported key i [(key, f.deltaRecord now)] = (f.record.counters.get i).toNat := by
        intro i
        rw [exported_singleton, if_pos rfl, get_deltaRecord, hsent, Nat.add_comm]
        exact satSub_add (hlast i)
      rw [hf]
      dsimp only
      split_ifs
      · have hmarker := lookup_storeIdleMarker hroom key
          { base := f.record.counters, last := f.record.counters, record := f.record }
        refine .inr ⟨AList.lookup_erase _ _, ⟨f.record.counters, f.record.counters, f.record⟩, ?_, hdelta, rfl, hbound⟩
        dsimp only
        rw [hmarker]
        exact AList.lookup_insert _
      · exact .inl ⟨_, AList.lookup_insert _, hidle, hdelta, .refl _, hbound⟩
      · exact .inl ⟨f, hf, hidle, hsent, hlast, hbound⟩
    · rw [hf]
      exact .inr ⟨hf, m, hm, hsent, hbase, hbound⟩
  · have hother : ∀ (i : Counter) (r : FlowRecord τ), exported key i [(key', r)] = 0 := by
      intro i r
      rw [exported_singleton, if_neg hne.symm]
    split
    · simpa only [hnone, Nat.add_zero] using h
    · dsimp only
      split_ifs
      · simp only [hother, Nat.add_zero]
        refine h.congr (AList.lookup_erase_ne hne) ?_
        rw [lookup_storeIdleMarker hroom]
        exact AList.lookup_insert_ne hne
      · simp only [hother, Nat.add_zero]
        exact h.congr (AList.lookup_insert_ne hne) rfl
      · simpa only [hnone, Nat.add_zero] using h

/-- There is room for a marker at every round of a collection. -/
def RoomToCollect (now : Time) : List FlowKey → FlowTracker τ → Prop
  | [], _ => True
  | key :: order, t => t.idle.entries.length < idleMarkerMax ∧ RoomToCollect now order (collectRound now t key).1

theorem Accounted.collectDueExports (h : Accounted key bound t sent) (now : Time) {order : List FlowKey}
    (hroom : RoomToCollect now order t) :
    Accounted key bound (FlowExport.collectDueExports now order t).1
      fun i => sent i + exported key i (FlowExport.collectDueExports now order t).2 := by
  induction order generalizing t sent with
  | nil => exact h
  | cons key' order ih =>
    have hround := ih (h.collectRound hroom.1 now key') hroom.2
    rw [FlowExport.collectDueExports]
    simp only [exported_append, ← Nat.add_assoc]
    exact hround

theorem closeWithBaseline_other {key' : FlowKey} (hne : key ≠ key') (h : Accounted key bound t sent) :
    Accounted key bound (closeWithBaseline key' t).1 sent := by
  rw [closeWithBaseline]
  split
  · exact h.congr (AList.lookup_erase_ne hne) (AList.lookup_erase_ne hne)
  · split
    · exact h.congr rfl (AList.lookup_erase_ne hne)
    · exact h

/-- **The close** hands out the baseline, and leaves nothing behind. -/
theorem Accounted.close (h : Accounted key bound t sent) :
    (∀ i, sent i = ((closeWithBaseline key t).2.1.get i).toNat) ∧ Within (closeWithBaseline key t).2.1 bound
      ∧ (closeWithBaseline key t).2.2 = true
      ∧ closeWithBaseline key (closeWithBaseline key t).1 = ((closeWithBaseline key t).1, .zero, false) := by
  rcases h with ⟨f, hf, hidle, hsent, hlast, hbound⟩ | ⟨hf, m, hm, hsent, hbase, hbound⟩
  · have hclose : closeWithBaseline key t
        = ({ t with flows := t.flows.erase key, idle := t.idle.erase key }, f.last, true) := by
      rw [closeWithBaseline, hf]
    rw [hclose]
    refine ⟨hsent, hlast.trans hbound, rfl, ?_⟩
    rw [closeWithBaseline, AList.lookup_erase]
    dsimp only
    rw [AList.lookup_erase]
  · have hclose : closeWithBaseline key t = ({ t with idle := t.idle.erase key }, m.base, true) := by
      rw [closeWithBaseline, hf, hm]
    rw [hclose]
    refine ⟨hsent, hbase ▸ hbound, rfl, ?_⟩
    rw [closeWithBaseline]
    dsimp only
    rw [hf, AList.lookup_erase]

end

/-! ## Whole runs -/

/-- The event opens or closes the flow. -/
def Event.delimits (key : FlowKey) : Event τ → Prop
  | .trackFlowOpen key' _ _ => key' = key
  | .closeWithBaseline key' => key' = key
  | _ => False

/-- The counters an event reports of a flow are at most these. -/
def Event.ObservedWithin (key : FlowKey) (bound : Counters) : Event τ → Prop
  | .touch key' _ packets bytes => key' = key → packets ≤ bound.packets ∧ bytes ≤ bound.bytes
  | .touchBidirectional key' _ fwdPackets fwdBytes revPackets revBytes => key' = key →
    (fwdPackets ≤ bound.packets ∧ fwdBytes ≤ bound.bytes) ∧ revPackets ≤ bound.revPackets ∧ revBytes ≤ bound.revBytes
  | _ => True

/-- No collection of a run finds `idleMarkerMax` markers when it stores one. -/
def RoomForMarkers : Option (FlowTracker τ) → List (Event τ) → Prop
  | _, [] => True
  | t, e :: events =>
    (match t, e with
      | some t, .collectDueExports now order => RoomToCollect now order t
      | _, _ => True)
    ∧ RoomForMarkers (step t e).1 events

/-- **One event** that neither opens nor closes the flow keeps what has been exported equal
to the baseline. -/
theorem Accounted.step {key : FlowKey} {bound : Counters} {t : FlowTracker τ} {sent : Counter → ℕ}
    (h : Accounted key bound t sent) {e : Event τ} (hdelimits : ¬ e.delimits key)
    (hobserved : e.ObservedWithin key bound) (hroom : RoomForMarkers (some t) [e]) :
    ∃ t', (FlowExport.step (some t) e).1 = some t'
      ∧ Accounted key bound t' fun i => sent i + exported key i (FlowExport.step (some t) e).2 := by
  cases e with
  | trackFlowOpen key' start template => exact ⟨_, rfl, trackFlowOpen_other (Ne.symm hdelimits) start template h⟩
  | touch key' now packets bytes =>
    refine ⟨_, rfl, ?_⟩
    rcases eq_or_ne key' key with rfl | hne
    · obtain ⟨hpackets, hbytes⟩ := hobserved rfl
      refine h.touchWith now fun i v hv => ?_
      cases i <;> cases hv
      · exact hpackets
      · exact hbytes
    · exact touchWith_other hne.symm now _ h
  | touchBidirectional key' now fwdPackets fwdBytes revPackets revBytes =>
    refine ⟨_, rfl, ?_⟩
    rcases eq_or_ne key' key with rfl | hne
    · obtain ⟨⟨hpackets, hbytes⟩, hrevPackets, hrevBytes⟩ := hobserved rfl
      refine h.touchWith now fun i v hv => ?_
      cases i <;> cases hv
      · exact hpackets
      · exact hbytes
      · exact hrevPackets
      · exact hrevBytes
    · exact touchWith_other hne.symm now _ h
  | collectDueExports now order => exact ⟨_, rfl, h.collectDueExports now hroom.1⟩
  | closeWithBaseline key' => exact ⟨_, rfl, closeWithBaseline_other (Ne.symm hdelimits) h⟩

theorem run_cons (t : Option (FlowTracker τ)) (e : Event τ) (events : List (Event τ)) :
    run t (e :: events) = ((run (step t e).1 events).1, (step t e).2 ++ (run (step t e).1 events).2) := rfl

theorem Accounted.run {key : FlowKey} {bound : Counters} {events : List (Event τ)}
    (hdelimits : ∀ e ∈ events, ¬ e.delimits key) (hobserved : ∀ e ∈ events, e.ObservedWithin key bound) :
    ∀ {t : FlowTracker τ} {sent : Counter → ℕ}, Accounted key bound t sent → RoomForMarkers (some t) events →
      ∃ t', (FlowExport.run (some t) events).1 = some t'
        ∧ Accounted key bound t' fun i => sent i + exported key i (FlowExport.run (some t) events).2 := by
  induction events with
  | nil => exact fun h _ => ⟨_, rfl, h⟩
  | cons e events ih =>
    intro t sent h hroom
    obtain ⟨t', ht', hstep⟩ := h.step (hdelimits e List.mem_cons_self) (hobserved e List.mem_cons_self)
      ⟨hroom.1, trivial⟩
    obtain ⟨t'', ht'', hrun⟩ := ih (fun e he => hdelimits e (List.mem_cons_of_mem _ he))
      (fun e he => hobserved e (List.mem_cons_of_mem _ he)) hstep (ht' ▸ hroom.2)
    refine ⟨t'', ?_, ?_⟩
    · rw [run_cons, ht']
      exact ht''
    · rw [run_cons, ht']
      simp only [exported_append, ← Nat.add_assoc]
      exact hrun

theorem run_none (events : List (Event τ)) : run none events = (none, []) := by
  induction events with
  | nil => rfl
  | cons e events ih =>
    rw [run_cons]
    show ((run none events).1, [] ++ (run none events).2) = _
    rw [ih]
    rfl

/-- **Every packet is exported once.** A flow is opened with counters of zero, at any
tracker, and neither opened again nor closed; no store of a marker finds the markers at
their maximum. Then a close with lifetime counters no smaller than any counter observed
exports, with everything before it, exactly the lifetime counters, and a second close
finds nothing. -/
theorem exported_once (t : Option (FlowTracker τ)) (key : FlowKey) (start : Time) (template : FlowRecord τ)
    (hzero : template.counters = .zero) (events : List (Event τ)) (hdelimits : ∀ e ∈ events, ¬ e.delimits key)
    (hroom : RoomForMarkers (step t (.trackFlowOpen key start template)).1 events) (lifetime : Counters)
    (hlifetime : ∀ e ∈ events, e.ObservedWithin key lifetime) :
    let after := run (step t (.trackFlowOpen key start template)).1 events
    let closed := close key after.1
    (∀ i, exported key i after.2 + ((closeRemainder lifetime true closed.2.1).get i).toNat = (lifetime.get i).toNat)
      ∧ closed.2.2 = t.isSome ∧ close key closed.1 = (closed.1, .zero, false) := by
  intro after closed
  cases t with
  | none =>
    have hafter : after = (none, []) := run_none events
    have hclosed : closed = (none, .zero, false) := by
      show close key after.1 = _
      rw [hafter]
      rfl
    rw [hafter, hclosed]
    refine ⟨fun i => ?_, rfl, rfl⟩
    have hbase : (Counters.zero.get i).toNat = 0 := by cases i <;> rfl
    have hadd := satSub_add (zero_within lifetime i)
    rw [get_closeRemainder]
    show 0 + (satSub (lifetime.get i) (Counters.zero.get i)).toNat = _
    omega
  | some t =>
    obtain ⟨t', ht', hrun⟩ := (accounted_open lifetime t key start hzero).run hdelimits hlifetime hroom
    obtain ⟨hsent, hwithin, htracked, hagain⟩ := hrun.close
    have hclosed : closed = (some (closeWithBaseline key t').1, (closeWithBaseline key t').2) := by
      show close key (run _ events).1 = _
      rw [show (run (step (some t) (.trackFlowOpen key start template)).1 events).1 = some t' from ht']
      rfl
    rw [hclosed]
    refine ⟨fun i => ?_, htracked, ?_⟩
    · have hadd := satSub_add (hwithin i)
      have hi := hsent i
      rw [get_closeRemainder]
      show exported key i (run (some (trackFlowOpen key start template t)) events).2
        + (satSub (lifetime.get i) ((closeWithBaseline key t').2.1.get i)).toNat = _
      omega
    · show close key (some (closeWithBaseline key t').1) = _
      rw [close, hagain]


/-- A flow of a client. -/
def sampleKey : FlowKey := ⟨bytes "10.0.0.1", bytes "192.0.2.1", 40000, 443, 6, false⟩

/-- The flow is counted, exported while active, seen with counters that have gone back,
expires, resumes and is exported again. -/
def sampleEvents : List (Event Unit) :=
  [.touch sampleKey 5 10 1000, .collectDueExports 20 [sampleKey], .touch sampleKey 21 4 400,
    .collectDueExports 40 [sampleKey], .touchBidirectional sampleKey 100 12 900 3 300,
    .collectDueExports 120 [sampleKey]]

theorem exported_once_resumed :
    let after := run (step (newFlowTracker 20 30) (.trackFlowOpen sampleKey 0 ⟨(), 0, 0, .zero⟩)).1 sampleEvents
    let closed := close sampleKey after.1
    (∀ i, exported sampleKey i after.2 + ((closeRemainder ⟨20, 1500, 3, 300⟩ true closed.2.1).get i).toNat
        = (Counters.get ⟨20, 1500, 3, 300⟩ i).toNat)
      ∧ closed.2.2 = true ∧ close sampleKey closed.1 = (closed.1, .zero, false) :=
  exported_once (newFlowTracker 20 30) sampleKey 0 ⟨(), 0, 0, .zero⟩ rfl sampleEvents
    (by simp [sampleEvents, Event.delimits])
    ⟨trivial, ⟨by decide, trivial⟩, trivial, ⟨by decide, trivial⟩, trivial, ⟨by decide, trivial⟩, trivial⟩
    ⟨20, 1500, 3, 300⟩ (by simp [sampleEvents, Event.ObservedWithin])

end Xpf.FlowExport
