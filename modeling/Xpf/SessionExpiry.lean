/-
The expiry pass of the session table, `userspace-dp/src/session/expire.rs`, and the histories
the table goes through.

A pass moves the wheel's cursor to the present tick. At every tick it takes the hints of that
tick out of their bucket; a hint that is not stale either finds its session alive, and the
session is scheduled again, or finds it lapsed. A lapsed session is removed unless the standby
gate or one of the checks on its companion keeps it. Which check keeps it, and the stamp the
session gets from it, depends on traffic this table does not see: the pass is given the
answer for every key.
-/
import Xpf.Runs
import Xpf.SessionOps

set_option autoImplicit false

namespace Xpf.Sessions

open Xpf.Handles

/-! ## The standby gate -/

/-- What a node of the cluster knows when it expires sessions. -/
structure ExpireHaContext where
  forwardsRg : Int32 → Bool
  epochOf : Int32 → UInt32
  nodeActive : Bool
  ceilingMult : ℕ
  ceilingAbsNs : ℕ

namespace ExpireHaContext

/-- `u64::saturating_mul` under the absolute cap; a zero product is no relative ceiling. -/
def staleCeilingNs (ha : ExpireHaContext) (expiresAfterNs : ℕ) : ℕ :=
  let relative := min (expiresAfterNs * ha.ceilingMult) u64Max
  if relative = 0 then ha.ceilingAbsNs else min relative ha.ceilingAbsNs

end ExpireHaContext

inductive StandbyGateDecision
  | selfHeal (newEpoch : UInt32)
  | hold
  | reapStaleSynced
  | agedOwnerRgZeroActiveNode
  | age

def standbyGateDecision (ha : ExpireHaContext) (nowNs : ℕ) (e : SessionEntry) : StandbyGateDecision :=
  let owner := e.metadata.ownerRgId
  if e.metadata.fabricIngress then .age
  else if e.origin.isPeerSynced && ha.forwardsRg owner && ha.epochOf owner != e.seenRgEpoch then
    .selfHeal (ha.epochOf owner)
  else if !ha.forwardsRg owner && (e.origin.isPeerSynced || ha.nodeActive) then
    let heldSince := if e.firstHeldNs ≠ 0 then e.firstHeldNs else nowNs
    if nowNs - heldSince > ha.staleCeilingNs e.expiresAfterNs then .reapStaleSynced else .hold
  else if e.origin.isPeerSynced && decide (owner ≤ 0) && ha.nodeActive then .agedOwnerRgZeroActiveNode
  else .age

def heldRecheckHorizonNs : ℕ := farFutureOffset * wheelTickNs

/-- The next horizon after the hold began, but not before the next tick. -/
def heldRecheckTick (nowNs firstHeldNs staleCeilingNs : ℕ) : ℕ :=
  let deadlineNs := saturatingAdd firstHeldNs staleCeilingNs
  let horizonIndex := (nowNs - firstHeldNs) / heldRecheckHorizonNs + 1
  let nextHorizonNs := saturatingAdd firstHeldNs (min (horizonIndex * heldRecheckHorizonNs) u64Max)
  max (targetTickFor nowNs (min nextHorizonNs deadlineNs)) (nowNs / wheelTickNs + 1)

/-! ## The pass -/

/-- What the checks on its companion answer for a lapsed session: let it expire, keep it with
a new idle stamp (and perhaps stamp the companion too), or look again at a later time. -/
inductive Retention
  | expire
  | keep (lastSeenNs : ℕ) (alignCompanion : Bool)
  | deferUntil (deadlineNs : ℕ)
  deriving DecidableEq

structure GcPass where
  ha : Option ExpireHaContext
  retention : SessionKey → Retention

/-- A pass outside a cluster in which no companion keeps a session. -/
def GcPass.plain : GcPass := ⟨none, fun _ => .expire⟩

def sessionGcIntervalNs : ℕ := secondNs

namespace Table

/-- `align_node_kept_companion`. -/
def alignNodeKeptCompanion (t : Table) (key : SessionKey) (nat : NatDecision) (nowNs : ℕ) : Table :=
  let companionKey := reverseSessionKey key nat
  if companionKey = key then t
  else
    match t.entryByKey companionKey with
    | none => t
    | some companion =>
      if companion.closing || decide (nowNs ≤ companion.lastSeenNs) then t
      else (t.updateByKey companionKey (.stampSeen nowNs)).rebucketAliveEntry companionKey nowNs

/-- The recheck of a hold that began at `firstHeldNs`, with the inputs it was computed from. -/
def heldEntry (tick firstHeldNs : ℕ) (e : SessionEntry) : SessionEntry :=
  { e with
    wheelTick := tick
    heldWheelTick := tick
    heldWheelLastSeenNs := e.lastSeenNs
    heldWheelExpiresAfterNs := e.expiresAfterNs
    heldWheelFirstHeldNs := firstHeldNs }

def heldSince (firstHeldNs : ℕ) (e : SessionEntry) : SessionEntry := { e with firstHeldNs := firstHeldNs }

/-- `schedule_held_recheck`. -/
def scheduleHeldRecheck (t : Table) (key : SessionKey) (nowNs firstHeldNs staleCeilingNs : ℕ) : Table :=
  let tick := heldRecheckTick nowNs firstHeldNs staleCeilingNs
  let updated := t.updateByKey key (heldEntry tick firstHeldNs)
  { updated with wheel := updated.wheel.push ⟨key, tick⟩ }

/-- A lapsed session that is held: the hold begins now if it has not begun. -/
def holdEntry (t : Table) (key : SessionKey) (nowNs : ℕ) (ha : ExpireHaContext) (e : SessionEntry) : Table :=
  let firstHeldNs := if e.firstHeldNs = 0 then nowNs else e.firstHeldNs
  (t.updateByKey key (heldSince firstHeldNs)).scheduleHeldRecheck key nowNs firstHeldNs
    (ha.staleCeilingNs e.expiresAfterNs)

/-- A lapsed session that the gate lets age: the companion checks decide. -/
def ageEntry (t : Table) (key : SessionKey) (nowNs : ℕ) (e : SessionEntry) : Retention → Table
  | .expire => t.removeEntry key
  | .keep lastSeenNs alignCompanion =>
    let kept := (t.updateByKey key (.stampSeen lastSeenNs)).rebucketAliveEntry key nowNs
    if alignCompanion then kept.alignNodeKeptCompanion key e.decision.nat nowNs else kept
  | .deferUntil deadlineNs => t.rescheduleAt key (targetTickFor nowNs deadlineNs)

/-- A lapsed session whose hint came due. -/
def expireLapsed (t : Table) (key : SessionKey) (nowNs : ℕ) (pass : GcPass) (e : SessionEntry) : Table :=
  match pass.ha with
  | none => t.ageEntry key nowNs e (pass.retention key)
  | some ha =>
    match standbyGateDecision ha nowNs e with
    | .selfHeal newEpoch =>
      (t.updateByKey key (.stampHealed nowNs newEpoch)).rebucketAliveEntry key nowNs
    | .hold => t.holdEntry key nowNs ha e
    | .reapStaleSynced => t.removeEntry key
    | .agedOwnerRgZeroActiveNode => t.removeEntry key
    | .age => t.ageEntry key nowNs e (pass.retention key)

/-- Whether a hint is a leftover: its session has moved to another tick. -/
def StaleHint (e : SessionEntry) (scheduledTick : ℕ) : Prop :=
  e.wheelTick ≠ scheduledTick ∨ (e.heldWheelTick ≠ 0 ∧ e.heldWheelTick ≠ scheduledTick)

instance (e : SessionEntry) (tick : ℕ) : Decidable (StaleHint e tick) := inferInstanceAs (Decidable (_ ∨ _))

/-- What a pass does with a hint it has taken out of its bucket. -/
def processHint (t : Table) (hint : WheelEntry) (nowNs : ℕ) (pass : GcPass) : Table :=
  match t.entryByKey hint.key with
  | none => t
  | some e =>
    if StaleHint e hint.scheduledTick then t
    else if e.Lapsed nowNs then t.expireLapsed hint.key nowNs pass e
    else t.rescheduleAt hint.key (targetTickFor nowNs e.expirationNs)

/-- One hint from the front of a bucket; a hint of a later round goes to the back. -/
def popFront (t : Table) (b nowNs : ℕ) (pass : GcPass) : Table :=
  match t.wheel.buckets b with
  | [] => t
  | hint :: rest =>
    if hint.scheduledTick > t.wheel.cursorTick then
      { t with wheel := { t.wheel with buckets := Function.update t.wheel.buckets b (rest ++ [hint]) } }
    else
      processHint { t with wheel := { t.wheel with buckets := Function.update t.wheel.buckets b rest } } hint nowNs pass

/-- As many hints as the bucket held when the tick began. -/
def drainBucket (b nowNs : ℕ) (pass : GcPass) : ℕ → Table → Table
  | 0, t => t
  | n + 1, t => drainBucket b nowNs pass n (t.popFront b nowNs pass)

def advanceTick (t : Table) (nowNs : ℕ) (pass : GcPass) : Table :=
  let b := bucketForTick t.wheel.cursorTick
  let drained := drainBucket b nowNs pass (t.wheel.buckets b).length t
  { drained with wheel := { drained.wheel with cursorTick := drained.wheel.cursorTick + 1 } }

/-- Advance the cursor tick by tick. -/
def advance (nowNs : ℕ) (pass : GcPass) : ℕ → Table → Table
  | 0, t => t
  | n + 1, t => advance nowNs pass n (t.advanceTick nowNs pass)

/-- A call that comes too soon after the last pass is not a pass. -/
def GcDue (t : Table) (nowNs : ℕ) : Prop := t.lastGcNs = 0 ∨ sessionGcIntervalNs ≤ nowNs - t.lastGcNs

instance (t : Table) (nowNs : ℕ) : Decidable (t.GcDue nowNs) := inferInstanceAs (Decidable (_ ∨ _))

/-- `expire_stale_entries_ha`. The source loops while the cursor is behind; no step of a pass
moves it but the end of a tick. -/
def expireStaleEntries (t : Table) (nowNs : ℕ) (pass : GcPass) : Table :=
  if t.GcDue nowNs then
    let t := { t with lastGcNs := nowNs, wheel := t.wheel.observe nowNs }
    advance nowNs pass (nowNs / wheelTickNs - t.wheel.cursorTick) t
  else t

end Table

/-! ## Histories -/

inductive Op
  | install (req : Table.InstallRequest)
  | importSynced (req : Table.ImportRequest)
  | refresh (req : Table.RefreshRequest)
  | promote (key : SessionKey) (decision : SessionDecision) (metadata : SessionMetadata) (origin : SessionOrigin)
      (packet : Table.UpdatePacket)
  | revalidate (key : SessionKey) (disposition : ForwardingDisposition) (ownerRgId : Option Int32)
      (newEgressZone : Option UInt32)
  | rebindEgress (key : SessionKey) (newEgressZone : UInt32)
  | rebindPolicy (key : SessionKey) (policyId policyCounterIdx : UInt32) (zones : Table.ZonePair)
  | rebindZones (key : SessionKey) (zones : Table.ZonePair)
  | demote (ownerRgId : Int32)
  | delete (key : SessionKey)
  | touch (key : SessionKey)
  | hit (packet : Table.PacketHit)
  | complete (matchedKey : SessionKey) (nat : NatDecision) (tcpFlags : UInt8)
  | restamp (key : SessionKey) (epoch : Option UInt32)
  | expire (pass : GcPass)

/-- An operation at a time. -/
structure Event where
  nowNs : ℕ
  op : Op

namespace Table

def step (t : Table) (ev : Event) : Table :=
  match ev.op with
  | .install req => t.installWithOrigin req ev.nowNs
  | .importSynced req => t.upsertSyncedWithOrigin req ev.nowNs
  | .refresh req => t.refreshInPlace req ev.nowNs
  | .promote key decision metadata origin packet =>
    t.promoteSyncedWithOrigin key decision metadata origin packet ev.nowNs
  | .revalidate key disposition ownerRgId newEgressZone =>
    t.revalidateForwardingResolution key disposition ownerRgId newEgressZone
  | .rebindEgress key newEgressZone => t.rebindForwardEgressZone key newEgressZone
  | .rebindPolicy key policyId policyCounterIdx zones => t.rebindPolicyPair key policyId policyCounterIdx zones
  | .rebindZones key zones => t.rebindZonesPair key zones
  | .demote ownerRgId => t.demoteOwnerRg ownerRgId
  | .delete key => t.delete key
  | .touch key => t.touch key ev.nowNs
  | .hit packet => t.lookup packet ev.nowNs
  | .complete matchedKey nat tcpFlags => t.completeHandshake matchedKey nat ev.nowNs tcpFlags
  | .restamp key epoch => t.restampLapsedPeerSynced key ev.nowNs epoch
  | .expire pass => t.expireStaleEntries ev.nowNs pass

/-- The table after a history. -/
def run (config : Config) (history : List Event) : Table := Runs.run step (new config) history

end Table

end Xpf.Sessions
