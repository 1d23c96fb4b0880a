/-
The session table of the userspace dataplane: `userspace-dp/src/session/mod.rs`, `install.rs`,
`lookup.rs` and the scheduling half of `expire.rs`.

A record stands in a slab and is found through the map of its keys; seven further maps lead
from the tuples a packet can carry to the handles of the records they belong to. They are one
index here, whose keys name the map they belong to. A lookup that misses the map of keys
falls back on the translated keys of the reverse sessions.

Beside its idle timeout a session carries the tick of the timer wheel at which it is looked at
again. The wheel holds hints, a key and a tick each; a hint whose tick is no longer the
session's is stale and skipped.

Counters, logs and what is only handed on to the peer or to the packet path are left out. The
answers of code outside the table (whether a tunnel reservation is in the way, whether a
segment acknowledges what was sent, whether the handshake can be called complete) are
arguments of the operations.
-/
import Mathlib
import Xpf.HandleIndex
import Xpf.SessionKeys

set_option autoImplicit false

namespace Xpf.Sessions

open Xpf.Handles

/-! ## Sessions -/

structure SessionDecision where
  disposition : ForwardingDisposition
  nat : NatDecision
  installTableDomain : UInt32
  installTableCheck : UInt32
  deriving DecidableEq

structure SessionMetadata where
  ingressZone : UInt32
  egressZone : UInt32
  ingressZoneCheck : UInt32
  egressZoneCheck : UInt32
  ownerRgId : Int32
  fabricIngress : Bool
  isReverse : Bool
  inactivityTimeoutNs : Option ℕ
  policyId : UInt32
  policyCounterIdx : UInt32
  deriving DecidableEq

structure SessionEntry where
  decision : SessionDecision
  metadata : SessionMetadata
  origin : SessionOrigin
  installEpoch : ℕ
  lastSeenNs : ℕ
  createdNs : ℕ
  established : Bool
  handshakePending : Bool
  synAckFirst : Bool
  expiresAfterNs : ℕ
  closing : Bool
  reset : Bool
  finOwn : Bool
  finPeer : Bool
  wheelTick : ℕ
  heldWheelTick : ℕ
  heldWheelLastSeenNs : ℕ
  heldWheelExpiresAfterNs : ℕ
  heldWheelFirstHeldNs : ℕ
  seenRgEpoch : UInt32
  firstHeldNs : ℕ
  sessionId : UInt64
  deriving DecidableEq

structure SessionRecord where
  key : SessionKey
  entry : SessionEntry
  deriving DecidableEq

namespace SessionEntry

def tcpHandshakeStateWire (e : SessionEntry) (protocol : UInt8) : UInt8 :=
  if protocol ≠ protoTcp then 0
  else if e.synAckFirst && e.handshakePending then TcpHandshakeState.synAckFirstPending.toWire
  else if e.handshakePending then TcpHandshakeState.handshakePending.toWire
  else if e.established then TcpHandshakeState.established.toWire
  else TcpHandshakeState.opening.toWire

def tcpCloseClass (e : SessionEntry) : TcpCloseClass :=
  if e.reset then .reset else if e.finOwn && e.finPeer then .timeWait else .closing

def tcpCloseClassWire (e : SessionEntry) : UInt8 := if e.closing then e.tcpCloseClass.toWire else 0

def tcpCloseWindow (e : SessionEntry) (timeouts : SessionTimeouts) : ℕ :=
  tcpCloseWindowNsWithApp e.tcpCloseClass timeouts e.metadata.inactivityTimeoutNs

/-- The source compares the idle time, not the deadline: an idle time of exactly the timeout
is not over it. -/
def Lapsed (e : SessionEntry) (nowNs : ℕ) : Prop := nowNs - e.lastSeenNs > e.expiresAfterNs

instance (e : SessionEntry) (nowNs : ℕ) : Decidable (e.Lapsed nowNs) :=
  inferInstanceAs (Decidable (_ > _))

def expirationNs (e : SessionEntry) : ℕ := saturatingAdd e.lastSeenNs e.expiresAfterNs

/-- The session was seen just now. -/
def stampSeen (nowNs : ℕ) (e : SessionEntry) : SessionEntry := { e with lastSeenNs := nowNs }

/-- The session was seen just now, under an epoch of its owner group. -/
def stampHealed (nowNs : ℕ) (epoch : UInt32) (e : SessionEntry) : SessionEntry :=
  { e with lastSeenNs := nowNs, seenRgEpoch := epoch }

def clearHeld (e : SessionEntry) : SessionEntry :=
  { e with heldWheelTick := 0, heldWheelLastSeenNs := 0, heldWheelExpiresAfterNs := 0, heldWheelFirstHeldNs := 0 }

end SessionEntry

/-! ## The wheel -/

def wheelBuckets : ℕ := 256
def wheelTickNs : ℕ := secondNs
def farFutureOffset : ℕ := wheelBuckets - 1

structure WheelEntry where
  key : SessionKey
  scheduledTick : ℕ
  deriving DecidableEq

structure SessionWheel where
  buckets : ℕ → List WheelEntry
  cursorTick : ℕ
  initialized : Bool

def SessionWheel.new : SessionWheel := ⟨fun _ => [], 0, false⟩

def bucketForTick (tick : ℕ) : ℕ := tick % wheelBuckets

/-- A deadline further away than the wheel reaches is looked at once before it is due. -/
def targetTickFor (nowNs expirationNs : ℕ) : ℕ :=
  let nowTick := nowNs / wheelTickNs
  let delta := expirationNs / wheelTickNs - nowTick
  nowTick + min delta farFutureOffset

def SessionWheel.push (w : SessionWheel) (hint : WheelEntry) : SessionWheel :=
  let b := bucketForTick hint.scheduledTick
  { w with buckets := Function.update w.buckets b (w.buckets b ++ [hint]) }

def SessionWheel.observe (w : SessionWheel) (nowNs : ℕ) : SessionWheel :=
  if w.initialized then w else { w with cursorTick := nowNs / wheelTickNs, initialized := true }

/-! ## The table -/

/-- The keys of the secondary maps. -/
inductive IndexKey
  | natReverse (key : SessionKey)
  | forwardWire (key : SessionKey)
  | reverseTranslated (key : SessionKey)
  | replyAlias (key : SessionKey)
  | l3Reverse (key : L3ReverseKey)
  | ownerRg (id : Int32)
  | bareTuple (tuple : BareSessionTuple)
  deriving DecidableEq

/-- What the table is configured with. `chargesFanoutCopy` tells on which worker's share of
the key space a copy of a synced session is counted. -/
structure Config where
  timeouts : SessionTimeouts
  openingOverrides : UInt32 → Option ℕ
  maxSessions : ℕ
  chargesFanoutCopy : SessionKey → Bool
  sessionIdWorkerHi : UInt64

/-- Whether a session counts against its source's limit. -/
def Config.sessionLimitCounted (config : Config) (key : SessionKey) (origin : SessionOrigin) (isReverse : Bool) : Bool :=
  if isReverse || !sessionLimitOriginCounted origin then false
  else if origin = .syncImport ∨ origin = .syncLiveness then config.chargesFanoutCopy key
  else true

structure Table where
  config : Config
  entries : Slab SessionRecord
  keyToHandle : AList fun _ : SessionKey => ℕ
  index : HandleIndex IndexKey
  srcCounts : Tally (UInt32 × IpAddr)
  wheel : SessionWheel
  lastGcNs : ℕ
  nextSessionId : UInt64
  epochCounter : ℕ

namespace Table

def new (config : Config) : Table where
  config := config
  entries := Slab.empty
  keyToHandle := ∅
  index := HandleIndex.empty
  srcCounts := Tally.empty
  wheel := SessionWheel.new
  lastGcNs := 0
  nextSessionId := 1
  epochCounter := 0

def len (t : Table) : ℕ := t.keyToHandle.entries.length

/-- The session stored under a key itself. -/
def sessionAt (t : Table) (key : SessionKey) : Option SessionEntry :=
  (t.keyToHandle.lookup key).bind fun h => (t.entries.get h).map (·.entry)

/-! ## Lookups -/

def resolveReverseTranslatedHandle (t : Table) (key : SessionKey) : Option ℕ :=
  (t.index.members (.reverseTranslated key)).find? fun h =>
    (t.entries.get h).any fun r =>
      r.entry.metadata.isReverse && decide (translatedSessionKey r.key r.entry.decision.nat = key)

/-- The handle a key leads to, and whether it took the fallback. -/
def resolveLookupHandle (t : Table) (key : SessionKey) : Option (ℕ × Bool) :=
  match t.keyToHandle.lookup key with
  | some h => some (h, false)
  | none => (t.resolveReverseTranslatedHandle key).map fun h => (h, true)

def lookupRecordMatchesKey (record : SessionRecord) (key : SessionKey) (viaAlias : Bool) : Bool :=
  if !viaAlias then decide (record.key = key)
  else record.entry.metadata.isReverse
    && decide (translatedSessionKey record.key record.entry.decision.nat = key)

def recordByKey (t : Table) (key : SessionKey) : Option (ℕ × SessionRecord) :=
  (t.resolveLookupHandle key).bind fun (h, viaAlias) =>
    (t.entries.get h).bind fun record =>
      if lookupRecordMatchesKey record key viaAlias then some (h, record) else none

def entryByKey (t : Table) (key : SessionKey) : Option SessionEntry :=
  (t.recordByKey key).map fun p => p.2.entry

/-- Rewrite the entry behind a handle. -/
def updateEntry (t : Table) (h : ℕ) (f : SessionEntry → SessionEntry) : Table :=
  { t with entries := t.entries.update h fun r => { r with entry := f r.entry } }

/-- Rewrite the entry a key leads to, as through `entry_by_key_mut`. -/
def updateByKey (t : Table) (key : SessionKey) (f : SessionEntry → SessionEntry) : Table :=
  match t.recordByKey key with
  | none => t
  | some (h, _) => t.updateEntry h f

/-- The handle for a rewrite of a session's forwarding. -/
def revalidationHandle (t : Table) (key : SessionKey) : Option ℕ :=
  match t.keyToHandle.lookup key with
  | some h => (t.entries.get h).bind fun r => if r.key ≠ key then none else some h
  | none => t.resolveReverseTranslatedHandle key

/-! ## Session limits -/

def sessionLimitCounted (t : Table) (key : SessionKey) (origin : SessionOrigin) (isReverse : Bool) : Bool :=
  t.config.sessionLimitCounted key origin isReverse

def sessionLimitInc (t : Table) (zone : UInt32) (srcIp : IpAddr) : Table :=
  { t with srcCounts := t.srcCounts.inc (zone, srcIp) }

def sessionLimitDec (t : Table) (zone : UInt32) (srcIp : IpAddr) : Table :=
  { t with srcCounts := t.srcCounts.dec (zone, srcIp) }

/-! ## The secondary maps -/

/-- Where a session is found by a translated tuple. -/
def natIndexKeys (key : SessionKey) (nat : NatDecision) (isReverse : Bool) : List IndexKey :=
  if isReverse then
    if translatedSessionKey key nat ≠ key then [.reverseTranslated (translatedSessionKey key nat)] else []
  else
    [.natReverse (reverseWireKey key nat)]
      ++ (if reverseCanonicalKey key ≠ key then [.natReverse (reverseCanonicalKey key)] else [])
      ++ (if forwardWireKey key nat ≠ key then [.forwardWire (forwardWireKey key nat)] else [])

/-- Where a forward session of a tunnel is found by the plain tuple of a reply. -/
def replyAliasIndexKeys (key : SessionKey) (nat : NatDecision) (isReverse : Bool) : List IndexKey :=
  match isReverse, key.discriminator with
  | false, .ipsec ifId => if ifId ≠ 0 then (ipsecReplyAliasKeys key nat).map .replyAlias else []
  | _, _ => []

/-- Where a translated forward session is found by the fragments of a reply. -/
def l3ReverseIndexKeys (key : SessionKey) (nat : NatDecision) (isReverse : Bool) : List IndexKey :=
  match isReverse, l3ReverseKeyForForward key nat with
  | false, some l3Key => [.l3Reverse (l3ReverseFragmentIndexKey l3Key)]
  | _, _ => []

def ownerRgIndexKeys (ownerRgId : Int32) : List IndexKey := if ownerRgId > 0 then [.ownerRg ownerRgId] else []

/-- `index_forward_nat_key_parts`: add a handle under every key its session answers to. -/
def indexForwardNatKeyParts (index : HandleIndex IndexKey) (key : SessionKey) (handle : ℕ) (nat : NatDecision)
    (isReverse : Bool) (ownerRgId : Int32) : HandleIndex IndexKey :=
  (natIndexKeys key nat isReverse ++ replyAliasIndexKeys key nat isReverse ++ l3ReverseIndexKeys key nat isReverse
      ++ ownerRgIndexKeys ownerRgId).foldl (fun index k => index.push k handle) index

/-- The keys a handle is taken from. Where adding asks whether a key is the session's own,
removing does not. -/
def removedNatIndexKeys (key : SessionKey) (nat : NatDecision) (isReverse : Bool) : List IndexKey :=
  if isReverse then [.reverseTranslated (translatedSessionKey key nat)]
  else
    [.natReverse (reverseWireKey key nat), .natReverse (reverseCanonicalKey key)]
      ++ replyAliasIndexKeys key nat isReverse
      ++ [.forwardWire (forwardWireKey key nat)]
      ++ l3ReverseIndexKeys key nat isReverse

/-- `remove_forward_nat_index_parts`: from every map but the owner's. -/
def removeForwardNatIndexParts (index : HandleIndex IndexKey) (key : SessionKey) (handle : ℕ) (nat : NatDecision)
    (isReverse : Bool) : HandleIndex IndexKey :=
  (removedNatIndexKeys key nat isReverse).foldl (fun index k => index.remove k handle) index

/-- `remove_owner_rg_index_entry`. -/
def removeOwnerRgIndexEntry (index : HandleIndex IndexKey) (ownerRgId : Int32) (handle : ℕ) : HandleIndex IndexKey :=
  (ownerRgIndexKeys ownerRgId).foldl (fun index k => index.remove k handle) index

def ipsecInnerAliasBucketBound : ℕ := 8

/-- Whether the replies of one more session still fit under its plain tuples. The source
answers at once when no tunnel session has an alias; every alias is then passed over here. -/
def canIndexReplyAlias (t : Table) (key : SessionKey) (nat : NatDecision) (isReverse : Bool)
    (replacing : Option ℕ) : Bool :=
  match key.discriminator with
  | .ipsec ifId => ifId ≠ 0 && (isReverse || bounded (fun _ => false))
  | .none => isReverse || bounded fun reply => (t.index.buckets (.replyAlias reply)).isNone
  | _ => true
where
  /-- Every alias that is not passed over has room. -/
  bounded (passedOver : SessionKey → Bool) : Bool :=
    (ipsecReplyAliasKeys key nat).all fun reply =>
      let native := t.index.members (.natReverse reply)
      let ipsec := t.index.members (.replyAlias reply)
      let population := native.length + ipsec.length
      let population :=
        if replacing.any fun h => decide (h ∈ native) || decide (h ∈ ipsec) then population - 1 else population
      passedOver reply || decide (population < ipsecInnerAliasBucketBound)

/-! ## Storing and removing -/

/-- `insert_record`, the map of keys and `index_forward_nat_key`, in the order every caller
has them. -/
def storeRecord (t : Table) (record : SessionRecord) : Table :=
  let handle := t.entries.vacantKey
  let index := t.index.push (.bareTuple record.key.bareTuple) handle
  { t with
    entries := t.entries.insert record
    keyToHandle := t.keyToHandle.insert record.key handle
    index := indexForwardNatKeyParts index record.key handle record.entry.decision.nat
      record.entry.metadata.isReverse record.entry.metadata.ownerRgId }

/-- `remove_entry`: by the key itself, never through an alias. -/
def removeEntry (t : Table) (key : SessionKey) : Table :=
  match t.keyToHandle.lookup key with
  | none => t
  | some handle =>
    match t.entries.get handle with
    | none => t
    | some record =>
      if record.key ≠ key then t
      else
        let e := record.entry
        let index := t.index.remove (.bareTuple key.bareTuple) handle
        let index := removeForwardNatIndexParts index key handle e.decision.nat e.metadata.isReverse
        let index := removeOwnerRgIndexEntry index e.metadata.ownerRgId handle
        let removed :=
          { t with
            keyToHandle := t.keyToHandle.erase key
            index := index
            entries := t.entries.remove handle }
        if t.sessionLimitCounted key e.origin e.metadata.isReverse then
          removed.sessionLimitDec e.metadata.ingressZone key.srcIp
        else removed

def delete (t : Table) (key : SessionKey) : Table := t.removeEntry key

def nextEpoch (t : Table) : Table := { t with epochCounter := t.epochCounter + 1 }

/-- `alloc_session_id`: never zero in its low part. -/
def allocSessionId (t : Table) : UInt64 × Table :=
  let low := t.nextSessionId &&& 0x0000FFFFFFFFFFFF
  let low := if low = 0 then 1 else low
  (t.config.sessionIdWorkerHi ||| low, { t with nextSessionId := t.nextSessionId + 1 })

/-- The id of a new session: the given one, or a fresh one where none (zero) is given. -/
def takeSessionId (t : Table) (given : UInt64) : UInt64 × Table := if given ≠ 0 then (given, t) else t.allocSessionId

/-! ## Scheduling -/

/-- Set a session's tick and leave the held recheck behind. -/
def scheduleAt (tick : ℕ) (e : SessionEntry) : SessionEntry := { e.clearHeld with wheelTick := tick }

/-- The tick `push_to_wheel` moves an entry to, if it moves it. -/
def pushTick (e : SessionEntry) (cursorTick nowNs : ℕ) : Option ℕ :=
  let tick := targetTickFor nowNs e.expirationNs
  if e.firstHeldNs ≠ 0 ∧ e.heldWheelTick ≠ 0 then
    let scheduleInputsUnchanged :=
      e.heldWheelLastSeenNs = e.lastSeenNs ∧ e.heldWheelExpiresAfterNs = e.expiresAfterNs
        ∧ e.heldWheelFirstHeldNs = e.firstHeldNs
    if scheduleInputsUnchanged ∧ e.wheelTick ≥ cursorTick then none else some tick
  else if tick ≠ e.wheelTick then some tick else none

/-- What `push_to_wheel` does to the entry: a held recheck whose inputs are unchanged stays. -/
def pushEntry (cursorTick nowNs : ℕ) (e : SessionEntry) : SessionEntry :=
  match pushTick e cursorTick nowNs with
  | some tick => scheduleAt tick e
  | none => if e.firstHeldNs ≠ 0 ∧ e.heldWheelTick ≠ 0 then e else e.clearHeld

/-- `push_to_wheel`. The hint carries the key the caller passed. -/
def pushToWheel (t : Table) (key : SessionKey) (nowNs : ℕ) : Table :=
  let t := { t with wheel := t.wheel.observe nowNs }
  match t.entryByKey key with
  | none => t
  | some e =>
    let updated := t.updateByKey key (pushEntry t.wheel.cursorTick nowNs)
    match pushTick e t.wheel.cursorTick nowNs with
    | some tick => { updated with wheel := updated.wheel.push ⟨key, tick⟩ }
    | none => updated

def touch (t : Table) (key : SessionKey) (nowNs : ℕ) : Table :=
  match t.entryByKey key with
  | none => t
  | some _ => (t.updateByKey key (.stampSeen nowNs)).pushToWheel key nowNs

/-- `rebucket_alive_entry`, `defer_expiry_until` and the alive branch of the expiry pass: set
the tick and queue a hint, whatever the tick was. -/
def rescheduleAt (t : Table) (key : SessionKey) (tick : ℕ) : Table :=
  match t.entryByKey key with
  | none => t
  | some _ =>
    let updated := t.updateByKey key (scheduleAt tick)
    { updated with wheel := updated.wheel.push ⟨key, tick⟩ }

def rebucketAliveEntry (t : Table) (key : SessionKey) (nowNs : ℕ) : Table :=
  match t.entryByKey key with
  | none => t
  | some e => t.rescheduleAt key (targetTickFor nowNs (max e.expirationNs nowNs))

def restampLapsedPeerSynced (t : Table) (key : SessionKey) (nowNs : ℕ) (epoch : Option UInt32) : Table :=
  match t.entryByKey key with
  | none => t
  | some e =>
    if !e.origin.isPeerSynced ∨ ¬e.Lapsed nowNs then t
    else (t.updateByKey key (.stampHealed nowNs (epoch.getD e.seenRgEpoch))).rebucketAliveEntry key nowNs

end Table

end Xpf.Sessions
