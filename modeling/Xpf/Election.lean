/-
The election of one redundancy group: `electRG` of `pkg/cluster/election.go`, with the
helpers of `failover.go`, `transfer_retry_18715.go` and `planned_shutdown_resign.go` it
calls.

`electRG` is one cascade of arms, each of which may answer and leave. It is cut here into
stages in the order of the source; a stage either answers or hands on what it has changed.
The manager's maps are read at the group in question only, so they appear as the values
they have there, and `time.Now()` is an argument, one reading for the whole call.
-/
import Xpf.MonitorDebt

set_option autoImplicit false

namespace Xpf.Election

open GoStrings

/-! ## State -/

/-- `NodeState`. -/
inductive NodeState where
  | secondary
  | primary
  | secondaryHold
  | lost
  | disabled
deriving DecidableEq

/-- A `time.Time` in nanoseconds; the zero time is `none`. -/
abbrev Time := Option ℤ

/-- `now.Before(t)`. -/
def before (now : ℤ) : Time → Bool
  | none => false
  | some t => now < t

/-- `RedundancyGroupState`, as far as the election uses it. -/
structure RedundancyGroupState where
  groupID : ℤ
  localPriority : ℤ
  state : NodeState
  preempt : Bool
  manualFailover : Bool
  manualFailoverAt : Time
  forcedSecondary : Bool
  forcedPrimary : Bool
  weight : ℤ
  monitorFails : List Bytes
  transferCommitRolePinned : Bool
  transferCommitRole : NodeState
  armDebtYielded : Bool
  armDebtYieldPeerSession : UInt64
  armDebtYieldPeerPrimarySequence : UInt64

/-- `PeerGroupState`. -/
structure PeerGroupState where
  priority : ℤ
  weight : ℤ
  state : NodeState
  heartbeatSession : UInt64
  heartbeatSequence : UInt64
  heartbeatEchoSession : UInt64
  heartbeatEchoSequence : UInt64
  heartbeatEchoLeaseUntil : Time
  peerWasPrimaryThisSession : Bool
  takeoverReady : Bool

/-- `operatorHoldSnapshot`; `live` says that the group it was taken of is still the one in
the manager's map. -/
structure OperatorHoldSnapshot where
  live : Bool
  armed : Bool
  manualFailoverAt : Time
  state : NodeState
  weight : ℤ
  restoreWeight : Bool
  forcedSecondary : Bool
  transferOverride : Option UInt64
  abortedReqID : Option UInt64
  generation : UInt64

/-- `transferChannelBinding`. -/
structure TransferChannelBinding where
  src : Option UInt64
  gen : UInt64
  dropped : Bool

/-- The session-sync source that is published: its identity, whether it is connected, and
its connection-slot removal generation. -/
structure PeerSync where
  src : UInt64
  connected : Bool
  transferChannelGen : UInt64

/-- The transfer maps of the manager, at the group. -/
structure TransferState where
  abortedPeerTransferReqID : Option UInt64
  failoverInProgress : UInt64
  transferOverride : Option UInt64
  remoteTransferOutLeaseUntil : Option Time
  remoteTransferOutLeaseReqID : UInt64
  remoteTransferOutLeaseChannel : Option TransferChannelBinding
  ownerlessPriorHold : Option (UInt64 × OperatorHoldSnapshot)
  failoverGen : UInt64
  localTransferOutHoldUntil : Time

/-- `InterfaceMonitorInfo`, as the peer advertised it. -/
structure PeerMonitor where
  iface : Bytes
  up : Bool
  redundancyGroup : ℤ

/-- What the election reads of the `Manager`. -/
structure Manager where
  nodeID : ℤ
  peerNodeID : ℤ
  kernelUpgradeHold : Bool
  peerAlive : Bool
  peerEverSeen : Bool
  peerConfirmedAbsent : Bool
  hasControlInterface : Bool
  localProcessToken : UInt64
  peerSync : Option PeerSync
  peerMonitors : List PeerMonitor
  debts : MonitorDebt.Manager

/-! ## Priorities -/

/-- `EffectivePriority`. -/
def effectivePriority (basePriority weight : ℤ) : ℤ :=
  if weight ≤ 0 then 0 else (basePriority * weight).tdiv 255

/-- `preemptEffectivePriority`. -/
def preemptEffectivePriority (basePriority weight : ℤ) : ℤ :=
  if weight ≤ 0 then 0 else basePriority

/-! ## Outcomes -/

/-- `electionResult`. -/
inductive ElectionResult where
  | localPrimary
  | localSecondary
  | noChange
deriving DecidableEq

/-- The answer of `electRG`, and the group and transfer maps it leaves. -/
structure Outcome where
  result : ElectionResult
  reason : String
  rg : RedundancyGroupState
  transfer : TransferState

/-- What the stages pass on. -/
structure Ballot where
  rg : RedundancyGroupState
  transfer : TransferState
  clearedManualFailover : Bool

def Ballot.answer (b : Ballot) (result : ElectionResult) (reason : String) : Outcome :=
  ⟨result, reason, b.rg, b.transfer⟩

/-- Claim primary, unless the group is primary. -/
def Ballot.claim (b : Ballot) (reason : String) : Outcome :=
  if b.rg.state ≠ .primary then b.answer .localPrimary reason else b.answer .noChange ""

/-- Stand down, unless the group is secondary. -/
def Ballot.standDown (b : Ballot) (reason : String) : Outcome :=
  if b.rg.state ≠ .secondary then b.answer .localSecondary reason else b.answer .noChange ""

/-- `armDebtYieldReason`. -/
def armDebtYieldReason : String := "Local dataplane not ready; verified peer takes over"

section

variable (m : Manager) (now : ℤ)

/-- `dataplaneArmDebtLocked`. -/
def dataplaneArmDebt (rgID : ℤ) : ℤ := MonitorDebt.debt m.debts rgID MonitorDebt.dataplaneArmMonitorIface

/-- `manualFailoverRestoreWeightLocked`. -/
def manualFailoverRestoreWeight (rg : RedundancyGroupState) : RedundancyGroupState :=
  { rg with weight :=
      if rg.forcedSecondary then 0
      else MonitorDebt.rgWeightFromDebt (MonitorDebt.monitorDebtTotal m.debts rg.groupID rg.monitorFails) }

/-- `localWeightIsMonitorDebtLocked`. -/
def localWeightIsMonitorDebt (rg : RedundancyGroupState) : Bool :=
  let totalLost := MonitorDebt.monitorDebtTotal m.debts rg.groupID rg.monitorFails
  0 < totalLost && rg.weight = MonitorDebt.rgWeightFromDebt totalLost

/-- `peerLeavingForPlannedShutdownLocked`. -/
def peerLeavingForPlannedShutdown (rgID : ℤ) (peerGroup : Option PeerGroupState) : Bool :=
  match peerGroup with
  | none => false
  | some p =>
    if 0 < p.weight then false
    else m.peerMonitors.any fun mon =>
      mon.iface = MonitorDebt.plannedShutdownMonitorIface && !mon.up && mon.redundancyGroup = rgID

/-! ## The manual hold -/

/-- `clearRemoteTransferOutLeaseLocked`. -/
def clearRemoteTransferOutLease (t : TransferState) : TransferState :=
  { t with
    remoteTransferOutLeaseUntil := none
    remoteTransferOutLeaseReqID := 0
    remoteTransferOutLeaseChannel := none }

/-- `takeOwnerlessPriorHoldLocked`. -/
def takeOwnerlessPriorHold (t : TransferState) (reqID : UInt64) : TransferState × Option OperatorHoldSnapshot :=
  match t.ownerlessPriorHold with
  | none => (t, none)
  | some (holdReqID, snapshot) =>
    ({ t with ownerlessPriorHold := none }, if holdReqID = reqID then some snapshot else none)

/-- `restoreOperatorHoldLocked`. -/
def restoreOperatorHold (rg : RedundancyGroupState) (t : TransferState) (snapshot : OperatorHoldSnapshot) :
    RedundancyGroupState × TransferState :=
  if t.failoverGen ≠ snapshot.generation || !snapshot.live then (rg, t)
  else
    let t := { t with
      transferOverride := snapshot.transferOverride.or t.transferOverride
      abortedPeerTransferReqID := snapshot.abortedReqID.or t.abortedPeerTransferReqID }
    if !snapshot.armed || rg.manualFailover then (rg, t)
    else
      ({ rg with
        manualFailover := true
        forcedSecondary := snapshot.forcedSecondary
        weight := if snapshot.restoreWeight || snapshot.forcedSecondary then snapshot.weight else rg.weight
        manualFailoverAt := snapshot.manualFailoverAt
        state := snapshot.state }, t)

/-- `transferChannelIntactLocked`: the answer, and the binding marked when it is broken. -/
def transferChannelIntact (t : TransferState) : Bool × TransferState :=
  match t.remoteTransferOutLeaseChannel with
  | none => (false, t)
  | some b =>
    if b.dropped || b.src.isNone then (false, t)
    else
      match m.peerSync with
      | some sync =>
        if b.src = some sync.src && sync.connected && sync.transferChannelGen = b.gen then (true, t)
        else (false, { t with remoteTransferOutLeaseChannel := some { b with dropped := true } })
      | none => (false, { t with remoteTransferOutLeaseChannel := some { b with dropped := true } })

/-- The flags of a manual hold taken off, and the derived weight put back. -/
def endManualFailover (rg : RedundancyGroupState) : RedundancyGroupState :=
  manualFailoverRestoreWeight m { rg with manualFailover := false, forcedSecondary := false, manualFailoverAt := none }

/-- `time.Since(t) < 2s`. -/
def withinGuard : Time → Bool
  | none => false
  | some t => now - t < 2000000000

/-- The rescue of a node whose peer has yielded as well, is committed, or is leaving. -/
def dualResign (b : Ballot) (peerGroup : Option PeerGroupState) : Outcome ⊕ Ballot :=
  match peerGroup with
  | none => .inl (b.answer .noChange "")
  | some p =>
    let peerResigned := p.weight ≤ 0
    let peerTransferOut := p.state = .secondaryHold
    let peerCommittedPrimary := p.state = .primary ∧ b.rg.transferCommitRolePinned ∧ b.rg.transferCommitRole = .secondary
    if ¬ peerResigned ∧ ¬ peerTransferOut ∧ ¬ peerCommittedPrimary then .inl (b.answer .noChange "")
    else
      let peerLeaving := peerLeavingForPlannedShutdown m b.rg.groupID peerGroup
      if withinGuard now b.rg.manualFailoverAt && !peerLeaving then .inl (b.answer .noChange "")
      else
        let t := if peerLeaving then clearRemoteTransferOutLease b.transfer else b.transfer
        .inr ⟨endManualFailover m b.rg, { t with ownerlessPriorHold := none }, true⟩

/-- The `ManualFailover` arm: hold, or end the hold and go on. -/
def manualHold (b : Ballot) (peerGroup : Option PeerGroupState) : Outcome ⊕ Ballot :=
  if !b.rg.manualFailover then .inr b
  else
    match b.transfer.remoteTransferOutLeaseUntil with
    | some leaseUntil =>
      if !before now leaseUntil then
        -- the lease has run out without a commit
        let (t, prior) := takeOwnerlessPriorHold b.transfer b.transfer.remoteTransferOutLeaseReqID
        let t := clearRemoteTransferOutLease t
        let rg := endManualFailover m b.rg
        match prior with
        | none => .inr ⟨rg, t, true⟩
        | some snapshot =>
          let (rg, t) := restoreOperatorHold rg t snapshot
          if rg.manualFailover then .inl ⟨.noChange, "", rg, t⟩ else .inr ⟨rg, t, true⟩
      else
        let (intact, t) := transferChannelIntact m b.transfer
        if intact && !peerLeavingForPlannedShutdown m b.rg.groupID peerGroup then .inl ⟨.noChange, "", b.rg, t⟩
        else dualResign m now { b with transfer := t } peerGroup
    | none => dualResign m now b peerGroup

/-! ## Against the peer -/

/-- No peer information for the group. -/
def electAlone (b : Ballot) : Outcome :=
  if !m.peerAlive then
    if !b.rg.preempt && !m.peerEverSeen && !m.peerConfirmedAbsent && b.rg.state = .secondary
        && m.hasControlInterface then b.answer .noChange ""
    else if 0 < b.rg.weight ∧ b.rg.state ≠ .primary then b.answer .localPrimary "Peer lost"
    else if b.rg.weight ≤ 0 ∧ b.rg.state ≠ .secondary then b.answer .localSecondary "Local weight 0"
    else b.answer .noChange ""
  else if 0 < b.rg.weight ∧ b.rg.state ≠ .primary then b.answer .localPrimary "Peer has no RG info"
  else b.answer .noChange ""

/-- The peer has heard this incarnation, and its lease runs. -/
def echoLive (p : PeerGroupState) : Bool :=
  p.heartbeatEchoSession = m.localProcessToken && 0 < p.heartbeatEchoSequence
    && before now p.heartbeatEchoLeaseUntil

/-- The peer wins by scaled priority, then by the lower node id. -/
def peerWinsScaled (rg : RedundancyGroupState) (p : PeerGroupState) : Bool :=
  let localEff := effectivePriority rg.localPriority rg.weight
  let peerEff := effectivePriority p.priority p.weight
  localEff < peerEff || (peerEff = localEff && m.peerNodeID < m.nodeID)

/-- Arm debt, and a peer that is healthier and proven to be there. -/
def healthierPeer (rg : RedundancyGroupState) (p : PeerGroupState) : Bool :=
  rg.groupID ≠ 0 && 0 < dataplaneArmDebt m rg.groupID && rg.weight < p.weight && peerWinsScaled m rg p
    && echoLive m now p

/-- Weights at zero, an expired echo, and a peer that has transferred out. -/
def electByWeight (b : Ballot) (p : PeerGroupState) : Outcome ⊕ Unit :=
  if b.rg.weight ≤ 0 ∧ p.weight ≤ 0 ∧ p.state ≠ .secondaryHold ∧ p.state ≠ .primary
      ∧ b.rg.manualFailover = false ∧ localWeightIsMonitorDebt m b.rg = true then
    if m.nodeID = m.peerNodeID then
      .inl (b.standDown "Both weights 0: duplicate node-id yields (invalid config)")
    else if m.nodeID < m.peerNodeID then .inl (b.claim "Both weights 0: lower node ID wins tie")
    else .inl (b.standDown "Both weights 0: higher node ID loses tie")
  else if b.rg.weight ≤ 0 then .inl (b.standDown "Local weight 0")
  else if p.weight ≤ 0 then .inl (b.claim "Peer weight 0")
  else if p.state = .primary ∧ p.heartbeatEchoLeaseUntil ≠ none ∧ before now p.heartbeatEchoLeaseUntil = false then
    .inl (b.standDown "Dual-active: peer heartbeat echo expired")
  else if p.state = .secondaryHold ∧ b.clearedManualFailover = false then .inl (b.claim "Peer transfer out")
  else .inr ()

/-- The role a completed transfer has pinned: keep it, or drop the pin. -/
def electPinned (b : Ballot) (p : PeerGroupState) : Outcome ⊕ Ballot :=
  let unpinned := { b with rg := { b.rg with transferCommitRolePinned := false } }
  if !b.rg.transferCommitRolePinned then .inr b
  else
    match b.rg.transferCommitRole with
    | .primary =>
      if p.state = .secondary && healthierPeer m now b.rg p then .inr unpinned
      else if p.state = .primary then .inr unpinned
      else .inl (b.claim "Committed transfer keeps primary")
    | .secondary =>
      if p.state = .secondary && p.weight = 1 && p.peerWasPrimaryThisSession
          && p.heartbeatEchoSession = m.localProcessToken && before now p.heartbeatEchoLeaseUntil then .inr unpinned
      else if p.state = .primary || before now b.transfer.localTransferOutHoldUntil then
        .inl (b.standDown "Committed transfer keeps secondary")
      else .inr unpinned
    | _ => .inr b

/-- The arm-debt arms under preempt. -/
def electArmDebt (b : Ballot) (p : PeerGroupState) : Outcome ⊕ Unit :=
  let verifiedArmDebtPeer := (p.state = .primary || p.state = .secondary) && healthierPeer m now b.rg p
  let armDebtPeerLive := p.heartbeatSession = b.rg.armDebtYieldPeerSession && echoLive m now p
  if !b.rg.preempt then .inr ()
  else if b.rg.state = .primary then
    if verifiedArmDebtPeer then .inl (b.answer .localSecondary armDebtYieldReason) else .inr ()
  else if b.rg.groupID ≠ 0 && p.state = .secondary && p.weight = 1 && p.peerWasPrimaryThisSession
      && echoLive m now p then .inl (b.answer .localPrimary "Peer yielded at arm-debt floor; taking over")
  else if b.rg.armDebtYielded && armDebtPeerLive && p.state = .primary
      && (dataplaneArmDebt m b.rg.groupID = 0 || b.rg.weight < p.weight) then
    .inl (b.answer .noChange "Arm-debt yield holds while peer remains primary")
  else if b.rg.armDebtYielded && armDebtPeerLive && p.state = .secondary && p.takeoverReady
      && (b.rg.armDebtYieldPeerPrimarySequence = 0
        || p.heartbeatSequence ≤ b.rg.armDebtYieldPeerPrimarySequence)
      && b.rg.weight < p.weight then
    .inl (b.answer .noChange "Arm-debt yield awaits peer ownership heartbeat")
  else if verifiedArmDebtPeer && p.state = .primary then
    .inl (b.answer .noChange "Verified peer owns while local dataplane is not ready")
  else .inr ()

/-- Preempt: raw priority, then node id. -/
def electPreempt (b : Ballot) (p : PeerGroupState) : Outcome :=
  let peerCannotTakeOver := p.state ≠ .primary && !p.takeoverReady
  let localPreemptEff := preemptEffectivePriority b.rg.localPriority b.rg.weight
  let peerPreemptEff := preemptEffectivePriority p.priority p.weight
  if peerPreemptEff < localPreemptEff then
    if b.rg.state ≠ .primary then b.answer .localPrimary "Preempt: higher priority"
    else if p.state = .primary then b.answer .noChange "Dual-active: winner stays"
    else b.answer .noChange ""
  else if localPreemptEff < peerPreemptEff then
    if b.rg.state = .primary && peerCannotTakeOver then b.answer .noChange ""
    else b.standDown "Preempt: lower priority"
  else if m.nodeID < m.peerNodeID then
    if b.rg.state ≠ .primary then b.answer .localPrimary "Lower node ID wins tie"
    else if p.state = .primary then b.answer .noChange "Dual-active: winner stays"
    else b.answer .noChange ""
  else if m.peerNodeID < m.nodeID then
    if b.rg.state = .primary && peerCannotTakeOver then b.answer .noChange ""
    else b.standDown "Higher node ID loses tie"
  else b.standDown "Preempt: duplicate node-id yields (invalid config)"

/-- Non-preempt: the incumbent stays; two incumbents, or none, are decided by scaled
priority, then node id. -/
def electIncumbent (b : Ballot) (p : PeerGroupState) : Outcome :=
  let localEff := effectivePriority b.rg.localPriority b.rg.weight
  let peerEff := effectivePriority p.priority p.weight
  if b.rg.state = .primary then
    if (p.state = .primary || p.state = .secondary) && healthierPeer m now b.rg p then
      b.answer .localSecondary armDebtYieldReason
    else if p.state = .primary then
      if localEff < peerEff then b.answer .localSecondary "Dual-active: lower priority yields"
      else if localEff = peerEff ∧ m.peerNodeID < m.nodeID then
        b.answer .localSecondary "Dual-active: higher node ID yields"
      else if localEff = peerEff ∧ m.nodeID = m.peerNodeID then
        b.answer .localSecondary "Dual-active: duplicate node-id yields (invalid config)"
      else b.answer .noChange "Dual-active: winner stays"
    else b.answer .noChange ""
  else if p.state = .primary then b.standDown "Peer is primary"
  else if peerEff < localEff then b.answer .localPrimary "Higher priority"
  else if localEff < peerEff then b.standDown "Lower priority"
  else if m.nodeID < m.peerNodeID then b.answer .localPrimary "Lower node ID wins tie"
  else b.standDown "Higher node ID loses tie"

/-- The arms against a peer that reports the group. -/
def electAgainst (b : Ballot) (p : PeerGroupState) : Outcome :=
  match electByWeight m now b p with
  | .inl o => o
  | .inr () =>
    match electPinned m now b p with
    | .inl o => o
    | .inr b =>
      match electArmDebt m now b p with
      | .inl o => o
      | .inr () => if b.rg.preempt then electPreempt m b p else electIncumbent m now b p

/-- `electRG`. -/
def electRG (rg : RedundancyGroupState) (transfer : TransferState) (peerGroup : Option PeerGroupState) : Outcome :=
  let b : Ballot := ⟨rg, transfer, false⟩
  if rg.state = .disabled then b.answer .noChange ""
  else if m.kernelUpgradeHold then b.answer .noChange ""
  else if rg.forcedPrimary then b.answer .localPrimary "Force-primary recovery (#16016)"
  else if transfer.abortedPeerTransferReqID.isSome then
    if rg.state = .primary then b.answer .localSecondary "Peer transfer aborted" else b.answer .noChange ""
  else if peerGroup.any (·.state = .secondaryHold) && transfer.failoverInProgress ≠ 0
      && transfer.transferOverride.isNone then b.answer .noChange ""
  else
    match manualHold m now b peerGroup with
    | .inl o => o
    | .inr b =>
      match peerGroup with
      | none => electAlone m b
      | some p => electAgainst m now b p

end

/-! ## Two nodes that see each other -/

/-- One node at one evaluation of the group: what it holds, its clock, and its view of the
peer. -/
structure Node where
  manager : Manager
  now : ℤ
  rg : RedundancyGroupState
  transfer : TransferState
  view : PeerGroupState

namespace Node

def result (n : Node) : ElectionResult := (electRG n.manager n.now n.rg n.transfer (some n.view)).result

/-- No manual, forced or hold flag is up. -/
structure Unflagged (n : Node) : Prop where
  kernelUpgradeHold : n.manager.kernelUpgradeHold = false
  forcedPrimary : n.rg.forcedPrimary = false
  manualFailover : n.rg.manualFailover = false
  aborted : n.transfer.abortedPeerTransferReqID = none
  pinned : n.rg.transferCommitRolePinned = false
  armDebtYielded : n.rg.armDebtYielded = false

/-- The view of the peer is exact. A heartbeat carries no `takeoverReady`: it is read off
the weight, above the floor the arm debt leaves. -/
structure Sees (n peer : Node) : Prop where
  peerNodeID : n.manager.peerNodeID = peer.manager.nodeID
  priority : n.view.priority = peer.rg.localPriority
  weight : n.view.weight = peer.rg.weight
  state : n.view.state = peer.rg.state
  takeoverReady : n.view.takeoverReady = decide (MonitorDebt.maxRedundancyGroupWeight - MonitorDebt.dataplaneArmMonitorCost < peer.rg.weight)
  echo : echoLive n.manager n.now n.view = true

/-- Two nodes of one cluster at one group. -/
structure Facing (a b : Node) : Prop where
  distinct : a.manager.nodeID ≠ b.manager.nodeID
  groupID : a.rg.groupID = b.rg.groupID
  preempt : a.rg.preempt = b.rg.preempt
  unflaggedLeft : a.Unflagged
  unflaggedRight : b.Unflagged
  seesLeft : a.Sees b
  seesRight : b.Sees a
  weightLeft : 0 < a.rg.weight
  weightRight : 0 < b.rg.weight

theorem Facing.symm {a b : Node} (h : Facing a b) : Facing b a where
  distinct := h.distinct.symm
  groupID := h.groupID.symm
  preempt := h.preempt.symm
  unflaggedLeft := h.unflaggedRight
  unflaggedRight := h.unflaggedLeft
  seesLeft := h.seesRight
  seesRight := h.seesLeft
  weightLeft := h.weightRight
  weightRight := h.weightLeft

/-- The dataplane-arm debt of the group. -/
def armDebt (n : Node) : ℤ := dataplaneArmDebt n.manager n.rg.groupID

def raw (n : Node) : ℤ := n.rg.localPriority

def scaled (n : Node) : ℤ := effectivePriority n.rg.localPriority n.rg.weight

/-- The higher key is ahead; of two equal ones, the lower node id. -/
def Outranks (key : Node → ℤ) (n peer : Node) : Prop :=
  key peer < key n ∨ (key n = key peer ∧ n.manager.nodeID < peer.manager.nodeID)

theorem outranks_swap {key : Node → ℤ} {a b : Node} (h : a.manager.nodeID ≠ b.manager.nodeID) :
    Outranks key b a ↔ ¬ Outranks key a b := by
  unfold Outranks
  omega

/-- The node owes arm debt on a data group, and the peer is heavier and ahead by scaled
priority. -/
def ArmDebtLoses (n peer : Node) : Prop :=
  n.rg.groupID ≠ 0 ∧ 0 < n.armDebt ∧ n.rg.weight < peer.rg.weight ∧ Outranks scaled peer n

/-! ### The cascade at such a node -/

section Cascade

variable {n peer : Node}

/-- No flag, no weight at zero, a live echo and no transfer-out leave the arm-debt and the
priority arms. -/
theorem electRG_facing (h : Facing n peer) (hdisabled : n.rg.state ≠ .disabled)
    (hpeer : peer.rg.state ≠ .secondaryHold) :
    electRG n.manager n.now n.rg n.transfer (some n.view) =
      match electArmDebt n.manager n.now ⟨n.rg, n.transfer, false⟩ n.view with
      | .inl o => o
      | .inr () =>
        if n.rg.preempt then electPreempt n.manager ⟨n.rg, n.transfer, false⟩ n.view
        else electIncumbent n.manager n.now ⟨n.rg, n.transfer, false⟩ n.view := by
  have hflags := h.unflaggedLeft
  have hview : n.view.state ≠ .secondaryHold := by rw [h.seesLeft.state]; exact hpeer
  have hlocal : ¬ n.rg.weight ≤ 0 := by have := h.weightLeft; omega
  have hremote : ¬ n.view.weight ≤ 0 := by rw [h.seesLeft.weight]; have := h.weightRight; omega
  have hlease : before n.now n.view.heartbeatEchoLeaseUntil = true := by
    have := h.seesLeft.echo
    simp only [echoLive, Bool.and_eq_true] at this
    exact this.2
  have hweight : electByWeight n.manager n.now ⟨n.rg, n.transfer, false⟩ n.view = .inr () := by
    simp [electByWeight, hlocal, hremote, hlease, hview]
  have hpinned : electPinned n.manager n.now ⟨n.rg, n.transfer, false⟩ n.view
      = .inr ⟨n.rg, n.transfer, false⟩ := by
    simp [electPinned, hflags.pinned]
  have hmanual : manualHold n.manager n.now ⟨n.rg, n.transfer, false⟩ (some n.view)
      = .inr ⟨n.rg, n.transfer, false⟩ := by
    simp [manualHold, hflags.manualFailover]
  unfold electRG
  simp only [hdisabled, hflags.kernelUpgradeHold, hflags.forcedPrimary, hflags.aborted, hmanual, if_false,
    Option.isSome_none, Bool.false_eq_true, Option.any_some, hview, decide_false, Bool.false_and]
  unfold electAgainst
  rw [hweight]
  simp only [hpinned]

theorem healthierPeer_iff (h : Facing n peer) :
    healthierPeer n.manager n.now n.rg n.view = true ↔ ArmDebtLoses n peer := by
  have hsees := h.seesLeft
  simp only [healthierPeer, peerWinsScaled, hsees.priority, hsees.weight, hsees.peerNodeID, hsees.echo,
    Bool.and_true, Bool.and_eq_true, Bool.or_eq_true, decide_eq_true_eq, ArmDebtLoses, armDebt, Outranks, scaled,
    and_assoc, ne_eq, decide_not, Bool.not_eq_true', decide_eq_false_iff_not]

/-- Two primaries without preempt: the one behind by scaled priority yields. The arm debt
asks for that order as well, so it adds nothing. -/
theorem yields_incumbent_iff (h : Facing n peer) (hn : n.rg.state = .primary) (hpeer : peer.rg.state = .primary)
    (hpreempt : n.rg.preempt = false) : n.result = .localSecondary ↔ Outranks scaled peer n := by
  have hsees := h.seesLeft
  have harm : electArmDebt n.manager n.now ⟨n.rg, n.transfer, false⟩ n.view = .inr () := by
    simp [electArmDebt, hpreempt]
  have hdistinct := h.distinct
  unfold result
  rw [electRG_facing h (by simp [hn]) (by simp [hpeer]), harm]
  by_cases hdebt : ArmDebtLoses n peer
  · have hhealthier := (healthierPeer_iff h).2 hdebt
    simp [electIncumbent, hpreempt, hn, hsees.state, hpeer, hhealthier, Ballot.answer, hdebt.2.2.2]
  · have hhealthier : healthierPeer n.manager n.now n.rg n.view = false := by
      simpa [← healthierPeer_iff h] using hdebt
    simp only [electIncumbent, hpreempt, hn, hsees.state, hpeer, hhealthier, hsees.priority, hsees.weight,
      hsees.peerNodeID, Ballot.answer, Bool.and_false, Bool.false_eq_true, if_false, if_true, Outranks, scaled]
    split_ifs <;> simp <;> omega

/-- Two primaries with preempt: one yields when it is behind by raw priority, or when its
arm debt loses. -/
theorem yields_preempt_iff (h : Facing n peer) (hn : n.rg.state = .primary) (hpeer : peer.rg.state = .primary)
    (hpreempt : n.rg.preempt = true) :
    n.result = .localSecondary ↔ ArmDebtLoses n peer ∨ Outranks raw peer n := by
  have hsees := h.seesLeft
  have hdistinct := h.distinct
  have hlocal : ¬ n.rg.weight ≤ 0 := by have := h.weightLeft; omega
  have hremote : ¬ peer.rg.weight ≤ 0 := by have := h.weightRight; omega
  unfold result
  rw [electRG_facing h (by simp [hn]) (by simp [hpeer])]
  by_cases hdebt : ArmDebtLoses n peer
  · have hhealthier := (healthierPeer_iff h).2 hdebt
    simp [electArmDebt, hpreempt, hn, hsees.state, hpeer, hhealthier, Ballot.answer, hdebt]
  · have hhealthier : healthierPeer n.manager n.now n.rg n.view = false := by
      simpa [← healthierPeer_iff h] using hdebt
    have harm : electArmDebt n.manager n.now ⟨n.rg, n.transfer, false⟩ n.view = .inr () := by
      simp [electArmDebt, hpreempt, hn, hhealthier]
    rw [harm]
    simp only [hpreempt, if_true, electPreempt, preemptEffectivePriority, hn, hsees.state, hpeer, hsees.priority,
      hsees.weight, hsees.peerNodeID, hlocal, hremote, Ballot.answer, Ballot.standDown, if_false, Outranks, raw,
      ne_eq, not_true_eq_false, decide_false, Bool.false_and, Bool.and_false, Bool.false_eq_true, hdebt, false_or]
    split_ifs <;> simp_all <;> omega

/-- Two ready secondaries without preempt: the one ahead by scaled priority promotes. -/
theorem promotes_incumbent_iff (h : Facing n peer) (hn : n.rg.state = .secondary)
    (hpeer : peer.rg.state = .secondary) (hpreempt : n.rg.preempt = false) :
    n.result = .localPrimary ↔ Outranks scaled n peer := by
  have hsees := h.seesLeft
  have hdistinct := h.distinct
  have harm : electArmDebt n.manager n.now ⟨n.rg, n.transfer, false⟩ n.view = .inr () := by
    simp [electArmDebt, hpreempt]
  unfold result
  rw [electRG_facing h (by simp [hn]) (by simp [hpeer]), harm]
  simp only [electIncumbent, hpreempt, hn, hsees.state, hpeer, hsees.priority, hsees.weight, hsees.peerNodeID,
    Ballot.answer, Ballot.standDown, Bool.false_eq_true, if_false, Outranks, scaled, reduceCtorEq, ne_eq,
    not_true_eq_false]
  split_ifs <;> simp <;> omega

/-- Two ready secondaries with preempt: the one ahead by raw priority promotes. A ready
peer is above the floor, so it has not yielded at it. -/
theorem promotes_preempt_iff (h : Facing n peer) (hn : n.rg.state = .secondary)
    (hpeer : peer.rg.state = .secondary) (hready : n.view.takeoverReady = true) (hpreempt : n.rg.preempt = true) :
    n.result = .localPrimary ↔ Outranks raw n peer := by
  have hsees := h.seesLeft
  have hdistinct := h.distinct
  have hlocal : ¬ n.rg.weight ≤ 0 := by have := h.weightLeft; omega
  have hremote : ¬ peer.rg.weight ≤ 0 := by have := h.weightRight; omega
  have hfloor : n.view.weight ≠ 1 := by
    have hweight := hsees.takeoverReady
    rw [hready, ← hsees.weight] at hweight
    have : MonitorDebt.maxRedundancyGroupWeight - MonitorDebt.dataplaneArmMonitorCost < n.view.weight :=
      of_decide_eq_true hweight.symm
    simp only [MonitorDebt.dataplaneArmMonitorCost] at this
    omega
  have harm : electArmDebt n.manager n.now ⟨n.rg, n.transfer, false⟩ n.view = .inr () := by
    simp [electArmDebt, hpreempt, hn, hsees.state, hpeer, hfloor, h.unflaggedLeft.armDebtYielded]
  unfold result
  rw [electRG_facing h (by simp [hn]) (by simp [hpeer]), harm]
  simp only [hpreempt, if_true, electPreempt, preemptEffectivePriority, hn, hsees.priority, hsees.weight,
    hsees.peerNodeID, hlocal, hremote, Ballot.answer, Ballot.standDown, if_false, Outranks, raw, ne_eq,
    reduceCtorEq, not_false_eq_true, not_true_eq_false, decide_false, Bool.false_and, Bool.false_eq_true]
  split_ifs <;> simp <;> omega

end Cascade

/-! ### One owner -/

/-- Both hold the group as primary. -/
def BothPrimary (a b : Node) : Prop := a.rg.state = .primary ∧ b.rg.state = .primary

/-- Both are secondaries that the other side takes for ready, and neither owes arm debt. -/
def BothReady (a b : Node) : Prop :=
  (a.rg.state = .secondary ∧ b.rg.state = .secondary) ∧ (a.view.takeoverReady = true ∧ b.view.takeoverReady = true)
    ∧ a.armDebt = 0 ∧ b.armDebt = 0

/-- Of two primaries exactly one yields, and of two ready secondaries exactly one
promotes. -/
def ExactlyOneOwner (a b : Node) : Prop :=
  (BothPrimary a b → Xor (a.result = .localSecondary) (b.result = .localSecondary))
    ∧ (BothReady a b → Xor (a.result = .localPrimary) (b.result = .localPrimary))

/-- The node is told to stay by its raw priority and to leave by its arm debt. -/
def Contested (n peer : Node) : Prop := ArmDebtLoses n peer ∧ Outranks raw n peer

theorem bothReady_promotes {a b : Node} (h : Facing a b) (hready : BothReady a b) :
    Xor (a.result = .localPrimary) (b.result = .localPrimary) := by
  obtain ⟨⟨ha, hb⟩, ⟨hra, hrb⟩, -⟩ := hready
  cases hpreempt : a.rg.preempt with
  | true =>
    rw [promotes_preempt_iff h ha hb hra hpreempt,
      promotes_preempt_iff h.symm hb ha hrb (h.preempt.symm.trans hpreempt), outranks_swap h.distinct]
    exact xor_not_right.2 Iff.rfl
  | false =>
    rw [promotes_incumbent_iff h ha hb hpreempt,
      promotes_incumbent_iff h.symm hb ha (h.preempt.symm.trans hpreempt), outranks_swap h.distinct]
    exact xor_not_right.2 Iff.rfl

theorem bothPrimary_yields_iff {a b : Node} (h : Facing a b) (hprimary : BothPrimary a b) :
    Xor (a.result = .localSecondary) (b.result = .localSecondary)
      ↔ ¬ (a.rg.preempt = true ∧ (Contested a b ∨ Contested b a)) := by
  obtain ⟨ha, hb⟩ := hprimary
  cases hpreempt : a.rg.preempt with
  | true =>
    rw [yields_preempt_iff h ha hb hpreempt, yields_preempt_iff h.symm hb ha (h.preempt.symm.trans hpreempt)]
    unfold Contested
    rw [outranks_swap h.distinct]
    by_cases hraw : Outranks raw a b <;> by_cases hdebt : ArmDebtLoses a b <;> simp [hraw, hdebt, Xor]
  | false =>
    rw [yields_incumbent_iff h ha hb hpreempt, yields_incumbent_iff h.symm hb ha (h.preempt.symm.trans hpreempt),
      outranks_swap h.distinct]
    simp only [Bool.false_eq_true, false_and, not_false_eq_true, iff_true]
    exact xor_not_left.2 Iff.rfl

/-- The cascade leaves exactly one owner unless two primaries under preempt disagree on
what decides: the one that wins by raw priority yields on its arm debt, and the other
yields to its raw priority. -/
theorem exactlyOneOwner_iff (a b : Node) (h : Facing a b) :
    ExactlyOneOwner a b ↔ ¬ (BothPrimary a b ∧ a.rg.preempt = true ∧ (Contested a b ∨ Contested b a)) := by
  constructor
  · rintro ⟨hyields, -⟩ ⟨hprimary, hcontested⟩
    exact (bothPrimary_yields_iff h hprimary).1 (hyields hprimary) hcontested
  · intro hfree
    refine ⟨fun hprimary => ?_, bothReady_promotes h⟩
    exact (bothPrimary_yields_iff h hprimary).2 fun hcontested => hfree ⟨hprimary, hcontested⟩

/-- A primary of group 1 under preempt, whose weight is what its arm debt leaves, and that
sees the other node as a primary of the same kind. -/
def dualActive (nodeID priority armDebt peerPriority peerArmDebt : ℤ) : Node where
  manager :=
    { nodeID := nodeID, peerNodeID := 1 - nodeID, kernelUpgradeHold := false, peerAlive := true,
      peerEverSeen := true, peerConfirmedAbsent := false, hasControlInterface := true,
      localProcessToken := 7, peerSync := none, peerMonitors := [],
      debts := ⟨fun _ => none, if armDebt = 0 then ∅
        else (∅ : AList _).insert (1, MonitorDebt.dataplaneArmMonitorIface) armDebt⟩ }
  now := 0
  rg :=
    { groupID := 1, localPriority := priority, state := .primary, preempt := true, manualFailover := false,
      manualFailoverAt := none, forcedSecondary := false, forcedPrimary := false,
      weight := MonitorDebt.rgWeightFromDebt armDebt,
      monitorFails := if armDebt = 0 then [] else [MonitorDebt.dataplaneArmMonitorIface],
      transferCommitRolePinned := false, transferCommitRole := .secondary, armDebtYielded := false,
      armDebtYieldPeerSession := 0, armDebtYieldPeerPrimarySequence := 0 }
  transfer := ⟨none, 0, none, none, 0, none, none, 0, none⟩
  view :=
    { priority := peerPriority, weight := MonitorDebt.rgWeightFromDebt peerArmDebt, state := .primary,
      heartbeatSession := 1, heartbeatSequence := 1, heartbeatEchoSession := 7, heartbeatEchoSequence := 1,
      heartbeatEchoLeaseUntil := some 1, peerWasPrimaryThisSession := true,
      takeoverReady := decide (MonitorDebt.maxRedundancyGroupWeight - MonitorDebt.dataplaneArmMonitorCost
        < MonitorDebt.rgWeightFromDebt peerArmDebt) }

theorem dualActive_facing (priority armDebt peerPriority peerArmDebt : ℤ)
    (h : armDebt < MonitorDebt.maxRedundancyGroupWeight) (hpeer : peerArmDebt < MonitorDebt.maxRedundancyGroupWeight) :
    Facing (dualActive 0 priority armDebt peerPriority peerArmDebt)
      (dualActive 1 peerPriority peerArmDebt priority armDebt) := by
  have hweight : ∀ d, d < MonitorDebt.maxRedundancyGroupWeight → 0 < MonitorDebt.rgWeightFromDebt d := by
    intro d hd
    unfold MonitorDebt.rgWeightFromDebt
    unfold MonitorDebt.maxRedundancyGroupWeight at *
    dsimp only
    split_ifs <;> omega
  have hunflagged : ∀ nodeID p d p' d', Unflagged (dualActive nodeID p d p' d') :=
    fun _ _ _ _ _ => ⟨rfl, rfl, rfl, rfl, rfl, rfl⟩
  exact ⟨(zero_ne_one : (0 : ℤ) ≠ 1), rfl, rfl, hunflagged .., hunflagged .., ⟨rfl, rfl, rfl, rfl, rfl, rfl⟩,
    ⟨rfl, rfl, rfl, rfl, rfl, rfl⟩, hweight _ h, hweight _ hpeer⟩

/-- Two armed primaries: the one of lower priority yields, and it alone. -/
theorem exactlyOneOwner_armed : ExactlyOneOwner (dualActive 0 200 0 100 0) (dualActive 1 100 0 200 0) := by
  refine (exactlyOneOwner_iff _ _ (dualActive_facing 200 0 100 0 (by decide) (by decide))).2 ?_
  rintro ⟨-, -, ⟨⟨-, hdebt, -⟩, -⟩ | ⟨⟨-, hdebt, -⟩, -⟩⟩
  · exact absurd hdebt (by decide +kernel)
  · exact absurd hdebt (by decide +kernel)

/-- Priority 200 at the arm floor against priority 100 at full weight: the first yields on
its debt, the second to the higher raw priority, and neither keeps the group. -/
theorem dualActive_both_yield :
    Facing (dualActive 0 200 254 100 0) (dualActive 1 100 0 200 254)
      ∧ BothPrimary (dualActive 0 200 254 100 0) (dualActive 1 100 0 200 254)
      ∧ (dualActive 0 200 254 100 0).result = .localSecondary
      ∧ (dualActive 1 100 0 200 254).result = .localSecondary
      ∧ ¬ ExactlyOneOwner (dualActive 0 200 254 100 0) (dualActive 1 100 0 200 254) := by
  have hprimary : BothPrimary (dualActive 0 200 254 100 0) (dualActive 1 100 0 200 254) := ⟨rfl, rfl⟩
  have hleft : (dualActive 0 200 254 100 0).result = .localSecondary := by decide +kernel
  have hright : (dualActive 1 100 0 200 254).result = .localSecondary := by decide +kernel
  refine ⟨dualActive_facing 200 254 100 0 (by decide) (by decide), hprimary, hleft, hright, ?_⟩
  rintro ⟨hyields, -⟩
  have hxor := hyields hprimary
  rw [hleft, hright] at hxor
  simp [Xor] at hxor

end Node

end Xpf.Election
