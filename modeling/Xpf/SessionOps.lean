/-
What is done to a session: installing it, importing it from the peer, a packet that hits it,
the state a packet carries over to the session of the other direction, rewriting it in place,
revalidating where it goes, rebinding it to other zones, handing its owner group over.
-/
import Xpf.SessionTable

set_option autoImplicit false

namespace Xpf.Sessions

open Xpf.Handles

namespace Table

/-! ## State for the companion -/

/-- What a packet tells the session of the other direction. -/
structure TcpStatePropagation where
  nat : NatDecision
  close : Bool
  reset : Bool
  fin : Bool
  established : Bool
  handshakeCompleted : Bool

def completedTimeout (config : Config) (protocol tcpFlags : UInt8) (e : SessionEntry) : ℕ :=
  sessionTimeoutNs protocol tcpFlags true config.timeouts e.metadata.inactivityTimeoutNs none

def propagateEntry (config : Config) (protocol : UInt8) (nowNs : ℕ) (p : TcpStatePropagation)
    (e : SessionEntry) : SessionEntry :=
  let e :=
    if p.established && !e.closing then
      if protocol = protoTcp then { e with established := true, handshakePending := true }
      else
        { e with
          established := true
          lastSeenNs := nowNs
          expiresAfterNs := completedTimeout config protocol 0 e }
    else e
  let e :=
    if p.handshakeCompleted && !e.closing then
      { e with
        established := true
        handshakePending := false
        synAckFirst := false
        lastSeenNs := nowNs
        expiresAfterNs := completedTimeout config protocol 0 e }
    else e
  if p.close then
    let e := { e with closing := true, reset := e.reset || p.reset, finPeer := e.finPeer || p.fin, lastSeenNs := nowNs }
    { e with expiresAfterNs := e.tcpCloseWindow config.timeouts }
  else e

/-- Whether the propagation restarts the companion's idle time. -/
def propagateRebuckets (protocol : UInt8) (p : TcpStatePropagation) (e : SessionEntry) : Bool :=
  (p.established && !e.closing && decide (protocol ≠ protoTcp)) || (p.handshakeCompleted && !e.closing) || p.close

/-- `propagate_tcp_state_to_companion`. The companion is looked up as a packet would be, alias
and all, and the hint is queued under the companion's key. -/
def propagateTcpStateToCompanion (t : Table) (matchedKey : SessionKey) (nowNs : ℕ) (p : TcpStatePropagation) : Table :=
  let companionKey := reverseSessionKey matchedKey p.nat
  match t.entryByKey companionKey with
  | none => t
  | some e =>
    let updated := t.updateByKey companionKey (propagateEntry t.config companionKey.protocol nowNs p)
    if propagateRebuckets companionKey.protocol p e then updated.pushToWheel companionKey nowNs else updated

/-- The handshake is complete. The opening override of the source has no say, the session being
established. -/
def completeEntry (config : Config) (protocol tcpFlags : UInt8) (nowNs : ℕ) (e : SessionEntry) : SessionEntry :=
  { e with
    established := true
    handshakePending := false
    synAckFirst := false
    lastSeenNs := nowNs
    expiresAfterNs := completedTimeout config protocol tcpFlags e }

/-- The handshake of a session is called complete: the session, its companion, and a hint. -/
def completeHandshake (t : Table) (matchedKey : SessionKey) (nat : NatDecision) (nowNs : ℕ) (tcpFlags : UInt8) : Table :=
  let completed := t.updateByKey matchedKey (completeEntry t.config matchedKey.protocol tcpFlags nowNs)
  (completed.propagateTcpStateToCompanion matchedKey nowNs ⟨nat, false, false, false, false, true⟩).pushToWheel
    matchedKey nowNs

/-! ## A packet hit -/

/-- A packet that found a session: the key it carries, its flags and payload, whether its
acknowledgement fits the handshake, and the session whose handshake the shared evidence calls
complete, if it does. -/
structure PacketHit where
  key : SessionKey
  tcpFlags : UInt8
  payloadLen : ℕ
  ackValid : Bool
  progress : Option (SessionKey × NatDecision)

/-- `stamp_tcp_close`: the sticky close bits. -/
def stampTcpClose (e : SessionEntry) (tcpFlags : UInt8) : SessionEntry :=
  { e with closing := true, reset := e.reset || hasRst tcpFlags, finOwn := e.finOwn || hasFin tcpFlags }

/-- An acknowledgement that neither opens nor closes. -/
def bareAck (tcpFlags : UInt8) : Bool := hasAck tcpFlags && !hasSyn tcpFlags && !isClosing tcpFlags

namespace PacketHit

def isTcp (hit : PacketHit) : Bool := decide (hit.key.protocol = protoTcp)

def closes (hit : PacketHit) : Bool := hit.isTcp && isClosing hit.tcpFlags

/-- The first reset, or the first FIN of this direction; a repeated one is no progress. -/
def closeProgresses (hit : PacketHit) (e : SessionEntry) : Bool :=
  hit.closes && !e.reset && (hasRst hit.tcpFlags || (hasFin hit.tcpFlags && !e.finOwn))

def closed (hit : PacketHit) (e : SessionEntry) : SessionEntry :=
  if hit.closes then stampTcpClose e hit.tcpFlags else e

/-- The first packet of the other direction. -/
def promotes (hit : PacketHit) (e : SessionEntry) : Bool :=
  !e.closing && hit.ackValid &&
    if hit.isTcp then isSynAck hit.tcpFlags && e.metadata.isReverse && (!e.established || e.handshakePending)
    else !e.established && e.metadata.isReverse && e.metadata.inactivityTimeoutNs.isSome

def promoted (hit : PacketHit) (e : SessionEntry) : SessionEntry :=
  if hit.promotes e then { e with established := true, handshakePending := hit.isTcp || e.handshakePending } else e

/-- The acknowledgement of a session whose first packet was the answer. -/
def asymmetricAck (hit : PacketHit) (e : SessionEntry) : Bool :=
  !e.closing && hit.ackValid && hit.isTcp && e.synAckFirst && e.handshakePending && e.metadata.isReverse
    && bareAck hit.tcpFlags

def completes (hit : PacketHit) (e : SessionEntry) : Bool :=
  !e.closing && hit.ackValid &&
    if e.synAckFirst then hit.asymmetricAck e
    else hit.isTcp && e.handshakePending && !e.metadata.isReverse && bareAck hit.tcpFlags

def completed (hit : PacketHit) (e : SessionEntry) : SessionEntry :=
  if hit.completes e then { e with established := true, handshakePending := false, synAckFirst := false } else e

/-- Whether the hit restarts the idle time of a session that stood as `old` before it. -/
def refreshes (hit : PacketHit) (old e : SessionEntry) : Bool :=
  let payloadProgress :=
    hit.isTcp && decide (hit.payloadLen > 0) && e.closing && !e.reset && !(e.finOwn && e.finPeer)
  !old.closing || hit.closeProgresses old || payloadProgress || (!hit.closes && !e.reset && !e.finOwn)

def refreshed (hit : PacketHit) (config : Config) (nowNs : ℕ) (old e : SessionEntry) : SessionEntry :=
  if hit.refreshes old e then
    { e with
      lastSeenNs := nowNs
      expiresAfterNs :=
        if hit.isTcp && e.closing then e.tcpCloseWindow config.timeouts
        else
          sessionTimeoutNs hit.key.protocol hit.tcpFlags (e.established && !e.handshakePending) config.timeouts
            e.metadata.inactivityTimeoutNs (config.openingOverrides e.metadata.ingressZone) }
  else e

/-- What the hit makes of the entry. -/
def entry (hit : PacketHit) (config : Config) (nowNs : ℕ) (e : SessionEntry) : SessionEntry :=
  hit.refreshed config nowNs e (hit.completed (hit.promoted (hit.closed e)))

/-- What the hit tells the companion. -/
def propagation (hit : PacketHit) (e : SessionEntry) : TcpStatePropagation :=
  let closed := hit.closed e
  let promoted := hit.promoted closed
  { nat := e.decision.nat
    close := hit.closeProgresses e
    reset := hit.isTcp && hasRst hit.tcpFlags
    fin := hit.isTcp && hasFin hit.tcpFlags
    established := hit.promotes closed || hit.asymmetricAck promoted
    handshakeCompleted := hit.completes promoted }

/-- Whether the hit moves data on a handshake that is not complete. -/
def progressEvidence (hit : PacketHit) (e : SessionEntry) : Bool :=
  let e := hit.completed (hit.promoted (hit.closed e))
  !e.closing && hit.isTcp && !isClosing hit.tcpFlags && (!e.established || e.handshakePending)
    && decide (hit.payloadLen > 0)

end PacketHit

/-- `lookup_with_origin_inner` for a packet whose hit is not deferred. A lapsed session is no
hit. The hint of the session itself is queued under the key it is stored under. -/
def lookup (t : Table) (hit : PacketHit) (nowNs : ℕ) : Table :=
  match t.recordByKey hit.key with
  | none => t
  | some (handle, record) =>
    if record.entry.Lapsed nowNs then t
    else
      let propagate := hit.propagation record.entry
      let t := t.updateEntry handle (hit.entry t.config nowNs)
      let t :=
        if propagate.close || propagate.established || propagate.handshakeCompleted then
          t.propagateTcpStateToCompanion record.key nowNs propagate
        else
          match hit.progressEvidence record.entry, hit.progress with
          | true, some (matchedKey, nat) => t.completeHandshake matchedKey nat nowNs hit.tcpFlags
          | _, _ => t
      t.pushToWheel record.key nowNs

/-! ## Installing -/

/-- A new flow. The last two fields answer for the tunnel reservations: the slots they hold
and whether one of them is in the way. -/
structure InstallRequest where
  key : SessionKey
  decision : SessionDecision
  metadata : SessionMetadata
  origin : SessionOrigin
  protocol : UInt8
  tcpFlags : UInt8
  sessionId : Option UInt64
  reservedSessionSlots : ℕ
  pmechConflict : Bool

def installTimeout (config : Config) (req : InstallRequest) : ℕ :=
  let tcp := decide (req.protocol = protoTcp)
  let synAckFirst := tcp && isSynAck req.tcpFlags && !isClosing req.tcpFlags
  let tcpOpening := tcp && (isInitialSyn req.tcpFlags || synAckFirst)
  let established := if tcp then !tcpOpening else req.metadata.inactivityTimeoutNs.isNone
  sessionTimeoutNs req.protocol req.tcpFlags established config.timeouts req.metadata.inactivityTimeoutNs
    (config.openingOverrides req.metadata.ingressZone)

def installEntry (config : Config) (req : InstallRequest) (nowNs epoch : ℕ) (sessionId : UInt64) : SessionEntry :=
  let tcp := decide (req.protocol = protoTcp)
  let synAckFirst := tcp && isSynAck req.tcpFlags && !isClosing req.tcpFlags
  let tcpOpening := tcp && (isInitialSyn req.tcpFlags || synAckFirst)
  { decision := req.decision
    metadata := req.metadata
    origin := req.origin
    installEpoch := epoch
    lastSeenNs := nowNs
    createdNs := nowNs
    established := if tcp then !tcpOpening else req.metadata.inactivityTimeoutNs.isNone
    handshakePending := synAckFirst
    synAckFirst := synAckFirst
    expiresAfterNs := installTimeout config req
    closing := tcp && isClosing req.tcpFlags
    reset := tcp && hasRst req.tcpFlags
    finOwn := tcp && hasFin req.tcpFlags && !req.metadata.isReverse
    finPeer := tcp && hasFin req.tcpFlags && req.metadata.isReverse
    wheelTick := 0
    heldWheelTick := 0
    heldWheelLastSeenNs := 0
    heldWheelExpiresAfterNs := 0
    heldWheelFirstHeldNs := 0
    seenRgEpoch := 0
    firstHeldNs := 0
    sessionId := sessionId }

/-- Count a session just stored. -/
def countStored (t : Table) (key : SessionKey) (origin : SessionOrigin) (metadata : SessionMetadata) : Table :=
  if t.sessionLimitCounted key origin metadata.isReverse then t.sessionLimitInc metadata.ingressZone key.srcIp else t

/-- What installs and imports have in common: the key's own session makes room for one with an
install epoch and an id of its own, and the new session is stored, hinted and counted. -/
def replaceSession (t : Table) (key : SessionKey) (givenId : UInt64) (nowNs : ℕ) (entry : ℕ → UInt64 → SessionEntry) :
    Table :=
  let removed := (t.removeEntry key).nextEpoch
  let taken := removed.takeSessionId givenId
  let e := entry taken.2.epochCounter taken.1
  ((taken.2.storeRecord ⟨key, e⟩).pushToWheel key nowNs).countStored key e.origin e.metadata

def installAdmitted (t : Table) (req : InstallRequest) : Bool :=
  decide (t.len + req.reservedSessionSlots < t.config.maxSessions) && !req.pmechConflict
    && t.canIndexReplyAlias req.key req.decision.nat req.metadata.isReverse (t.keyToHandle.lookup req.key)

/-- `install_with_protocol_with_origin_and_source_nat_inner`. -/
def installWithOrigin (t : Table) (req : InstallRequest) (nowNs : ℕ) : Table :=
  if !t.installAdmitted req then t
  else t.replaceSession req.key (req.sessionId.getD 0) nowNs (installEntry t.config req nowNs)

/-! ## Importing from the peer -/

structure ImportRequest where
  key : SessionKey
  decision : SessionDecision
  metadata : SessionMetadata
  origin : SessionOrigin
  protocol : UInt8
  tcpFlags : UInt8
  sessionId : UInt64
  tcpCloseClass : UInt8
  tcpHandshakeState : UInt8
  allowReplaceLocal : Bool
  pmechConflict : Bool

namespace ImportRequest

/-- A liveness report is an import that also vouches for the session now. -/
def storedOrigin (req : ImportRequest) : SessionOrigin :=
  if req.origin = .syncLiveness then .syncImport else req.origin

def wireClose (req : ImportRequest) : Option TcpCloseClass :=
  if req.protocol = protoTcp then TcpCloseClass.fromWire req.tcpCloseClass else none

/-- The handshake state of the import: an import of the session's own id never takes the
handshake a stage back. -/
def wireHandshake (req : ImportRequest) (existing : Option SessionEntry) : Option TcpHandshakeState :=
  match if req.protocol = protoTcp then TcpHandshakeState.fromWire req.tcpHandshakeState else none with
  | none => none
  | some incoming =>
    match existing with
    | none => some incoming
    | some e =>
      if req.sessionId ≠ 0 ∧ e.sessionId = req.sessionId
          ∧ TcpHandshakeState.stageRank incoming.toWire
            < TcpHandshakeState.stageRank (e.tcpHandshakeStateWire req.protocol) then
        TcpHandshakeState.fromWire (e.tcpHandshakeStateWire req.protocol)
      else some incoming

def sameTcpState (req : ImportRequest) (e : SessionEntry) : Bool :=
  decide (req.protocol ≠ protoTcp) ||
    (decide (e.tcpHandshakeStateWire req.protocol
        = ((req.wireHandshake (some e)).getD .established).toWire)
      && decide (e.tcpCloseClassWire = (req.wireClose.map (·.toWire)).getD 0))

/-- The import carries the id of the session it finds and leaves its TCP state as it is. -/
def Resends (req : ImportRequest) (e : SessionEntry) : Prop :=
  req.sessionId ≠ 0 ∧ e.sessionId = req.sessionId ∧ req.sameTcpState e = true

instance (req : ImportRequest) (e : SessionEntry) : Decidable (req.Resends e) :=
  inferInstanceAs (Decidable (_ ∧ _ ∧ _))

/-- Established, handshake pending, answered first. -/
def tcpBits (req : ImportRequest) (existing : Option SessionEntry) : Bool × Bool × Bool :=
  if req.protocol = protoTcp then
    match req.wireHandshake existing with
    | some .opening => (false, false, false)
    | some .handshakePending => (true, true, false)
    | some .synAckFirstPending => (false, true, true)
    | some .established => (true, false, false)
    | none => (true, false, false)
  else (req.metadata.inactivityTimeoutNs.isNone, false, false)

def timeout (req : ImportRequest) (config : Config) (existing : Option SessionEntry) : ℕ :=
  match req.wireClose with
  | some cls => tcpCloseWindowNsWithApp cls config.timeouts req.metadata.inactivityTimeoutNs
  | none =>
    let (established, handshakePending, _) := req.tcpBits existing
    sessionTimeoutNs req.protocol req.tcpFlags (established && !handshakePending) config.timeouts
      req.metadata.inactivityTimeoutNs (config.openingOverrides req.metadata.ingressZone)

/-- `preserved_install_table_for`: an import that names no install table keeps the one the
session has. -/
def storedDecision (req : ImportRequest) (existing : Option SessionEntry) : SessionDecision :=
  match existing with
  | none => req.decision
  | some prev =>
    if req.decision.installTableDomain ≠ 0 ∨ req.decision.installTableCheck ≠ 0 then req.decision
    else if prev.decision.installTableDomain = 0 ∧ prev.decision.installTableCheck = 0 then req.decision
    else if req.sessionId = 0 ∨ prev.sessionId = 0 ∨ req.sessionId = prev.sessionId then
      { req.decision with
        installTableDomain := prev.decision.installTableDomain
        installTableCheck := prev.decision.installTableCheck }
    else req.decision

end ImportRequest

/-- The entry an import stores. `existing` is what its key led to before; of a session it
resends, the idle stamp and the place on the wheel are kept. -/
def importEntry (config : Config) (req : ImportRequest) (existing : Option SessionEntry) (nowNs epoch : ℕ)
    (sessionId : UInt64) : SessionEntry :=
  let kept := existing.filter fun e => decide (req.Resends e)
  let isTcp := decide (req.protocol = protoTcp)
  let bits := req.tcpBits existing
  { decision := req.storedDecision existing
    metadata := req.metadata
    origin := req.storedOrigin
    installEpoch := epoch
    lastSeenNs := (kept.map (·.lastSeenNs)).getD nowNs
    createdNs := nowNs
    established := bits.1
    handshakePending := bits.2.1
    synAckFirst := bits.2.2
    expiresAfterNs := req.timeout config existing
    closing := req.wireClose.isSome || (isTcp && isClosing req.tcpFlags)
    reset := decide (req.wireClose = some .reset) || (isTcp && hasRst req.tcpFlags)
    finOwn := decide (req.wireClose = some .timeWait) || (isTcp && hasFin req.tcpFlags)
    finPeer := decide (req.wireClose = some .timeWait)
    wheelTick := (kept.map (·.wheelTick)).getD 0
    heldWheelTick := (kept.map (·.heldWheelTick)).getD 0
    heldWheelLastSeenNs := (kept.map (·.heldWheelLastSeenNs)).getD 0
    heldWheelExpiresAfterNs := (kept.map (·.heldWheelExpiresAfterNs)).getD 0
    heldWheelFirstHeldNs := (kept.map (·.heldWheelFirstHeldNs)).getD 0
    seenRgEpoch := 0
    firstHeldNs := if req.origin = .syncLiveness then nowNs else (kept.map (·.firstHeldNs)).getD 0
    sessionId := sessionId }

def importAdmitted (t : Table) (req : ImportRequest) : Bool :=
  ((t.entryByKey req.key).all (fun e => e.origin.yieldsToPeer) || req.allowReplaceLocal) && !req.pmechConflict
    && t.canIndexReplyAlias req.key (req.storedDecision (t.entryByKey req.key)).nat req.metadata.isReverse
      (t.keyToHandle.lookup req.key)

/-- `upsert_synced_with_origin`. What the key leads to is read through an alias too; what is
removed is the key's own session. -/
def upsertSyncedWithOrigin (t : Table) (req : ImportRequest) (nowNs : ℕ) : Table :=
  if !t.importAdmitted req then t
  else t.replaceSession req.key req.sessionId nowNs (importEntry t.config req (t.entryByKey req.key) nowNs)

/-! ## Rewriting in place -/

/-- The packet an update carries. -/
structure UpdatePacket where
  protocol : UInt8
  tcpFlags : UInt8
  ackValid : Bool

inductive RefreshPolicy
  | update (collisionRules : Bool) (origin : SessionOrigin) (packet : UpdatePacket)
  | haTransition

structure RefreshRequest where
  key : SessionKey
  decision : SessionDecision
  metadata : SessionMetadata
  policy : RefreshPolicy

/-- The part of the rewriting both policies share. -/
def rewriteEntry (req : RefreshRequest) (nowNs : ℕ) (e : SessionEntry) : SessionEntry :=
  { e with
    decision := req.decision
    metadata := req.metadata
    lastSeenNs := nowNs
    firstHeldNs := 0
    seenRgEpoch := 0 }

namespace UpdatePacket

def isTcp (p : UpdatePacket) : Bool := decide (p.protocol = protoTcp)

/-- The origin and the sticky close bits. -/
def stamped (p : UpdatePacket) (origin : SessionOrigin) (e : SessionEntry) : SessionEntry :=
  { e with
    origin := origin
    reset := e.reset || (p.isTcp && hasRst p.tcpFlags)
    closing := e.closing || (p.isTcp && isClosing p.tcpFlags)
    finOwn := e.finOwn || (p.isTcp && hasFin p.tcpFlags) }

/-- The answer to the handshake. -/
def reverseSynAck (p : UpdatePacket) (e : SessionEntry) : Bool :=
  !e.closing && p.ackValid && p.isTcp && isSynAck p.tcpFlags && e.metadata.isReverse
    && (!e.established || e.handshakePending)

def completes (p : UpdatePacket) (e : SessionEntry) : Bool :=
  !e.closing && p.ackValid &&
    if e.synAckFirst then p.isTcp && e.handshakePending && e.metadata.isReverse && bareAck p.tcpFlags
    else p.isTcp && e.handshakePending && !e.metadata.isReverse && bareAck p.tcpFlags

def handshaken (p : UpdatePacket) (e : SessionEntry) : SessionEntry :=
  if p.completes e then { e with established := true, handshakePending := false, synAckFirst := false }
  else
    { e with
      established :=
        e.established || p.reverseSynAck e
          || (!p.isTcp && e.metadata.isReverse && e.metadata.inactivityTimeoutNs.isSome)
      handshakePending := e.handshakePending || (p.reverseSynAck e && !e.synAckFirst) }

def retimed (p : UpdatePacket) (config : Config) (e : SessionEntry) : SessionEntry :=
  { e with
    expiresAfterNs :=
      if e.closing then e.tcpCloseWindow config.timeouts
      else
        sessionTimeoutNs p.protocol p.tcpFlags (e.established && !e.handshakePending) config.timeouts
          e.metadata.inactivityTimeoutNs (config.openingOverrides e.metadata.ingressZone) }

/-- What an update makes of a rewritten entry. -/
def entry (p : UpdatePacket) (config : Config) (origin : SessionOrigin) (e : SessionEntry) : SessionEntry :=
  p.retimed config (p.handshaken (p.stamped origin e))

end UpdatePacket

/-- The whole rewriting of the entry. -/
def refreshedEntry (config : Config) (req : RefreshRequest) (nowNs : ℕ) (e : SessionEntry) : SessionEntry :=
  match req.policy with
  | .update _ origin packet => packet.entry config origin (rewriteEntry req nowNs e)
  | .haTransition => rewriteEntry req nowNs e

/-- What an update tells the companion, if it tells it anything. -/
def refreshPropagation (req : RefreshRequest) (nowNs : ℕ) (old : SessionEntry) : Option TcpStatePropagation :=
  match req.policy with
  | .update _ origin packet =>
    let stamped := packet.stamped origin (rewriteEntry req nowNs old)
    if packet.reverseSynAck stamped || packet.completes stamped then
      some ⟨req.decision.nat, false, false, false, packet.reverseSynAck stamped, packet.completes stamped⟩
    else none
  | .haTransition => none

def refreshedOrigin (req : RefreshRequest) (old : SessionEntry) : SessionOrigin :=
  match req.policy with
  | .update _ origin _ => origin
  | .haTransition => old.origin

/-- Move a count from one zone to another, where either side may not be counted. -/
def recharge (counts : Tally (UInt32 × IpAddr)) (srcIp : IpAddr) (oldCounted newCounted : Bool)
    (oldZone newZone : UInt32) : Tally (UInt32 × IpAddr) :=
  let counts := if oldCounted && (!newCounted || oldZone != newZone) then counts.dec (oldZone, srcIp) else counts
  if newCounted && (!oldCounted || oldZone != newZone) then counts.inc (newZone, srcIp) else counts

/-- `finish_refresh_in_place`: move the count, add the index keys again, reschedule. -/
def finishRefreshInPlace (t : Table) (req : RefreshRequest) (handle nowNs : ℕ) (oldCounted newCounted : Bool)
    (oldZone : UInt32) : Table :=
  let indexed :=
    { t with
      srcCounts := recharge t.srcCounts req.key.srcIp oldCounted newCounted oldZone req.metadata.ingressZone
      index := indexForwardNatKeyParts t.index req.key handle req.decision.nat req.metadata.isReverse
        req.metadata.ownerRgId }
  indexed.pushToWheel req.key nowNs

/-- Whether the new session's replies still fit, asked only when the rewriting changes where
they arrive. -/
def refreshAdmitted (t : Table) (req : RefreshRequest) (handle : ℕ) (old : SessionEntry) : Bool :=
  let replyAliasReindex :=
    decide (old.decision.nat ≠ req.decision.nat) || old.metadata.isReverse != req.metadata.isReverse
  !(replyAliasReindex || decide (req.key.discriminator = .ipsec 0))
    || t.canIndexReplyAlias req.key req.decision.nat req.metadata.isReverse (some handle)

/-- Whether the rewriting moves the session in the secondary maps. -/
def reindexes (req : RefreshRequest) (old : SessionEntry) : Bool :=
  decide (old.decision.nat ≠ req.decision.nat) || old.metadata.isReverse != req.metadata.isReverse
    || decide (old.metadata.ownerRgId ≠ req.metadata.ownerRgId)

/-- The rewriting proper, on a session found under its own key. While the companion is told,
a session that moves stands in no map but that of its bare tuple. -/
def refreshRecord (t : Table) (req : RefreshRequest) (handle nowNs : ℕ) (old : SessionEntry) : Table :=
  let oldCounted := t.sessionLimitCounted req.key old.origin old.metadata.isReverse
  let newCounted := t.sessionLimitCounted req.key (refreshedOrigin req old) req.metadata.isReverse
  let index :=
    if reindexes req old then
      removeOwnerRgIndexEntry
        (removeForwardNatIndexParts t.index req.key handle old.decision.nat old.metadata.isReverse)
        old.metadata.ownerRgId handle
    else t.index
  let rewritten := { t with index := index }.updateEntry handle (refreshedEntry t.config req nowNs)
  let told := match refreshPropagation req nowNs old with
    | some propagate => rewritten.propagateTcpStateToCompanion req.key nowNs propagate
    | none => rewritten
  told.finishRefreshInPlace req handle nowNs oldCounted newCounted old.metadata.ingressZone

/-- `refresh_in_place`. An update under the collision rules that comes from the peer is
refused, and the refusal adds the session's index keys again. -/
def refreshInPlace (t : Table) (req : RefreshRequest) (nowNs : ℕ) : Table :=
  match t.keyToHandle.lookup req.key with
  | none => t
  | some handle =>
    match t.entries.get handle with
    | none => t
    | some record =>
      if record.key ≠ req.key then t
      else
        let old := record.entry
        let refused := match req.policy with
          | .update collisionRules origin _ => collisionRules && origin.isPeerSynced
          | .haTransition => false
        if refused then
          { t with
            index := indexForwardNatKeyParts t.index req.key handle old.decision.nat old.metadata.isReverse
              old.metadata.ownerRgId }
        else if !t.refreshAdmitted req handle old then t
        else t.refreshRecord req handle nowNs old

/-- `promote_synced_with_origin`: a closing segment promotes without its flags. -/
def promoteSyncedWithOrigin (t : Table) (key : SessionKey) (decision : SessionDecision) (metadata : SessionMetadata)
    (origin : SessionOrigin) (packet : UpdatePacket) (nowNs : ℕ) : Table :=
  let packet := { packet with tcpFlags := if isClosing packet.tcpFlags then 0 else packet.tcpFlags }
  t.refreshInPlace ⟨key, decision, metadata, .update true origin packet⟩ nowNs

/-! ## Zones -/

/-- The zones of the forward direction with their vintage checks. -/
structure ZonePair where
  ingressZone : UInt32
  ingressZoneCheck : UInt32
  egressZone : UInt32
  egressZoneCheck : UInt32

/-- The same zones as the reverse direction has them. -/
def ZonePair.swap (z : ZonePair) : ZonePair := ⟨z.egressZone, z.egressZoneCheck, z.ingressZone, z.ingressZoneCheck⟩

def bindZones (z : ZonePair) (e : SessionEntry) : SessionEntry :=
  { e with
    metadata := { e.metadata with
      ingressZone := z.ingressZone, ingressZoneCheck := z.ingressZoneCheck
      egressZone := z.egressZone, egressZoneCheck := z.egressZoneCheck } }

def bindPolicy (policyId policyCounterIdx : UInt32) (e : SessionEntry) : SessionEntry :=
  { e with metadata := { e.metadata with policyId := policyId, policyCounterIdx := policyCounterIdx } }

/-- The companion a pair can be rebound with: a reverse session, or none for a session that is
delivered here. -/
def pairRebindable (t : Table) (key companionKey : SessionKey) (forward : SessionEntry) : Bool :=
  if companionKey = key then true
  else
    match t.entryByKey companionKey with
    | some companion => companion.metadata.isReverse
    | none => decide (forward.decision.disposition = .localDelivery)

/-- Rebind a forward session and its companion: the zones, and whatever `bind` sets. -/
def rebindPair (t : Table) (key : SessionKey) (zones : ZonePair) (bind : SessionEntry → SessionEntry) : Table :=
  match t.entryByKey key with
  | none => t
  | some forward =>
    if forward.metadata.isReverse then t
    else
      let companionKey := reverseSessionKey key forward.decision.nat
      if !t.pairRebindable key companionKey forward then t
      else
        let counted := t.sessionLimitCounted key forward.origin false
        let oldZone := forward.metadata.ingressZone
        let t := t.updateByKey key fun e => bindZones zones (bind e)
        let t :=
          if companionKey ≠ key then t.updateByKey companionKey fun e => bindZones zones.swap (bind e) else t
        { t with srcCounts := recharge t.srcCounts key.srcIp counted counted oldZone zones.ingressZone }

def rebindPolicyPair (t : Table) (key : SessionKey) (policyId policyCounterIdx : UInt32) (zones : ZonePair) : Table :=
  t.rebindPair key zones (bindPolicy policyId policyCounterIdx)

def rebindZonesPair (t : Table) (key : SessionKey) (zones : ZonePair) : Table := t.rebindPair key zones id

/-- A new egress zone of a forward session. -/
def moveEgress (zone : UInt32) (e : SessionEntry) : SessionEntry :=
  if !e.metadata.isReverse && e.metadata.egressZone != zone then
    { e with metadata := { e.metadata with egressZone := zone, egressZoneCheck := 0 } }
  else e

/-- The egress zone of the forward direction is the ingress zone of the reverse one. -/
def moveIngress (zone : UInt32) (e : SessionEntry) : SessionEntry :=
  if e.metadata.isReverse && e.metadata.ingressZone != zone then
    { e with metadata := { e.metadata with ingressZone := zone, ingressZoneCheck := 0 } }
  else e

/-- The keys of the two directions of a session stored under `canonical`. -/
def directionKeys (canonical : SessionKey) (e : SessionEntry) : SessionKey × SessionKey :=
  let other := reverseSessionKey canonical e.decision.nat
  if e.metadata.isReverse then (other, canonical) else (canonical, other)

def revalidateEntry (disposition : ForwardingDisposition) (ownerRgId : Option Int32) (e : SessionEntry) : SessionEntry :=
  { e with
    decision := { e.decision with disposition := disposition }
    metadata := { e.metadata with ownerRgId := ownerRgId.getD e.metadata.ownerRgId } }

/-- `revalidate_forwarding_resolution_with_egress_zone`. -/
def revalidateForwardingResolution (t : Table) (key : SessionKey) (disposition : ForwardingDisposition)
    (ownerRgId : Option Int32) (newEgressZone : Option UInt32) : Table :=
  match t.revalidationHandle key with
  | none => t
  | some handle =>
    match t.entries.get handle with
    | none => t
    | some record =>
      let oldOwner := record.entry.metadata.ownerRgId
      let t := match ownerRgId with
        | some newOwner =>
          if newOwner ≠ oldOwner then
            let index := removeOwnerRgIndexEntry t.index oldOwner handle
            { t with index := if newOwner > 0 then index.push (.ownerRg newOwner) handle else index }
          else t
        | none => t
      let t := t.updateEntry handle (revalidateEntry disposition ownerRgId)
      match newEgressZone with
      | none => t
      | some zone =>
        let (forwardKey, reverseKey) := directionKeys record.key record.entry
        if forwardKey ≠ reverseKey then
          (t.updateByKey forwardKey (moveEgress zone)).updateByKey reverseKey (moveIngress zone)
        else if record.entry.metadata.isReverse then t.updateByKey record.key (moveIngress zone)
        else t.updateByKey record.key (moveEgress zone)

def rebindForwardEgressZone (t : Table) (key : SessionKey) (newEgressZone : UInt32) : Table :=
  match (t.revalidationHandle key).bind t.entries.get with
  | none => t
  | some record =>
    let (forwardKey, reverseKey) := directionKeys record.key record.entry
    match t.entryByKey forwardKey with
    | none => t
    | some forward =>
      if forward.metadata.isReverse then t
      else if forwardKey ≠ reverseKey then
        (t.updateByKey forwardKey (moveEgress newEgressZone)).updateByKey reverseKey (moveIngress newEgressZone)
      else t.updateByKey forwardKey (moveEgress newEgressZone)

/-! ## Owner groups -/

def ownerRgSessionKeys (t : Table) (ownerRgId : Int32) : List SessionKey :=
  (t.index.members (.ownerRg ownerRgId)).filterMap fun h => (t.entries.get h).map (·.key)

def withOrigin (origin : SessionOrigin) (e : SessionEntry) : SessionEntry := { e with origin := origin }

/-- One session of a demoted group becomes a copy of the peer's, unless it never leaves this
node. -/
def demoteSession (t : Table) (key : SessionKey) : Table :=
  match t.entryByKey key with
  | none => t
  | some e =>
    let newOrigin := if e.origin.isLocalTunOrigin || e.origin.isTransientLocalSeed then e.origin else .syncImport
    let oldCounted := t.sessionLimitCounted key e.origin e.metadata.isReverse
    let newCounted := t.sessionLimitCounted key newOrigin e.metadata.isReverse
    let zone := e.metadata.ingressZone
    let t := t.updateByKey key (withOrigin newOrigin)
    { t with srcCounts := recharge t.srcCounts key.srcIp oldCounted newCounted zone zone }

def demoteOwnerRg (t : Table) (ownerRgId : Int32) : Table :=
  if ownerRgId ≤ 0 then t else (t.ownerRgSessionKeys ownerRgId).foldl demoteSession t

end Table

end Xpf.Sessions
