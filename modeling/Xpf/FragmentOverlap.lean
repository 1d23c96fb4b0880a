/-
The fragment-overlap tracker: `userspace-dp/src/fragment_overlap/mod.rs`.

An entry of the tracker holds the byte ranges of one datagram that have been recorded,
merged where they touch, and the end of the datagram once its last fragment has been seen.
A recorded fragment is a reservation, which its holder settles later: it commits or fails.
Entries live in 16 shards that are chosen by a keyed hash, each a list in which the entry
that was recorded last stands last; entries leave when they expire, and a new datagram may
reclaim the oldest entry of a class when a quota is reached.

The shard's mutex makes each function one step. Ranges are lists in place of an array of
16 with a length, and the counters for alerts are left out.
-/
import Mathlib
import Xpf.Ranges

set_option autoImplicit false

namespace Xpf.FragmentOverlap

open Ranges

/-! ## Keys -/

/-- `IpAddr`. -/
inductive IpAddr where
  | v4 (octets : Vector UInt8 4)
  | v6 (octets : Vector UInt8 16)
deriving DecidableEq

/-- `ip_octets`. -/
def ipOctets : IpAddr → List UInt8
  | .v4 octets => octets.toList
  | .v6 octets => octets.toList

/-- The sender an entry is charged to. -/
abbrev Sender := UInt32 × UInt8 × IpAddr

/-- `OverlapKey`. -/
structure OverlapKey where
  addrFamily : UInt8
  src : IpAddr
  dst : IpAddr
  ident : UInt32
  protocol : UInt8
  routingDomain : UInt32
  ingressZone : UInt32
  fairnessOrigin : Option Sender
deriving DecidableEq

/-- `overlap_same_datagram`: everything but the fairness origin. -/
def overlapSameDatagram (a b : OverlapKey) : Bool :=
  a.addrFamily = b.addrFamily && a.src = b.src && a.dst = b.dst && a.ident = b.ident && a.protocol = b.protocol
    && a.routingDomain = b.routingDomain && a.ingressZone = b.ingressZone

/-- `overlap_sender`. -/
def overlapSender (key : OverlapKey) : Sender :=
  key.fairnessOrigin.getD (key.routingDomain, key.addrFamily, key.src)

/-- `keyed_shard_index` for 16 shards. -/
def keyedShardIndex (hash seed domain : UInt64) : ℕ :=
  let h := hash ^^^ seed ^^^ domain
  let h := (h ^^^ (h >>> 30)) * 0xbf58476d1ce4e5b9
  let h := (h ^^^ (h >>> 27)) * 0x94d049bb133111eb
  let h := h ^^^ (h >>> 31)
  (h >>> 60).toNat

/-- The bytes of `u32::to_be_bytes`. -/
def toBeBytes (x : UInt32) : List UInt8 :=
  [(x >>> 24).toUInt8, (x >>> 16).toUInt8, (x >>> 8).toUInt8, x.toUInt8]

/-- `overlap_shard_index_seeded`. -/
def overlapShardIndexSeeded (key : OverlapKey) (seed : UInt64) : ℕ :=
  let bytes := key.addrFamily :: (ipOctets key.src ++ (ipOctets key.dst ++ toBeBytes key.ident))
  let h := bytes.foldl (fun (h : UInt64) b => (h ^^^ b.toUInt64) * 0x00000100000001b3) 0xcbf29ce484222325
  keyedShardIndex h seed 0x6f7665726c617001

/-! ## Entries -/

def overlapCapPerShard : ℕ := 64
def overlapCapPerSenderPerShard : ℕ := 8
def overlapCapPerZonePerShard : ℕ := overlapCapPerShard / 2
def overlapTtlNs : ℕ := 30000000000
def overlapMaxLifetimeNs : ℕ := 60000000000
def overlapMaxRanges : ℕ := 16

/-- `u64::saturating_add`. -/
def saturatingAdd64 (a b : ℕ) : ℕ := min (a + b) (2 ^ 64 - 1)

/-- `u32::saturating_add`. -/
def saturatingAdd32 (a b : ℕ) : ℕ := min (a + b) (2 ^ 32 - 1)

/-- `OverlapEntry`. -/
structure OverlapEntry where
  key : OverlapKey
  ranges : List Range
  terminalEnd : Option ℕ
  revision : ℕ
  incarnation : ℕ
  pending : ℕ
  failed : Bool
  deadlineNs : ℕ
  createdNs : ℕ

/-- `OverlapAdmissionToken`. -/
structure OverlapAdmissionToken where
  key : OverlapKey
  incarnation : ℕ
deriving DecidableEq

/-- `OverlapCompletionToken`. -/
structure OverlapCompletionToken where
  key : OverlapKey
  terminalEnd : ℕ
  revision : ℕ

/-- The first half of `overlap_entry_live`. -/
def idleLive (e : OverlapEntry) (nowNs : ℕ) : Bool := nowNs < e.deadlineNs

/-- The second half of `overlap_entry_live`. -/
def absolutelyLive (e : OverlapEntry) (nowNs : ℕ) : Bool := nowNs - e.createdNs < overlapMaxLifetimeNs

/-- `overlap_entry_live`. -/
def overlapEntryLive (e : OverlapEntry) (nowNs : ℕ) : Bool := idleLive e nowNs && absolutelyLive e nowNs

/-- The loop of `ranges_cover_terminal`: how far the ranges reach without a gap. -/
def coveredEnd : ℕ → List Range → Option ℕ
  | covered, [] => some covered
  | covered, (start, stop) :: rest => if covered < start then none else coveredEnd (max covered stop) rest

/-- `ranges_cover_terminal`. -/
def rangesCoverTerminal (e : OverlapEntry) (terminalEnd : ℕ) : Bool :=
  match e.ranges with
  | [] => false
  | first :: _ => if first.1 ≠ 0 then false else coveredEnd 0 e.ranges = some terminalEnd

/-- `overlap_entry_complete`. -/
def overlapEntryComplete (e : OverlapEntry) : Bool :=
  e.pending = 0 && !e.failed && e.terminalEnd.any (rangesCoverTerminal e ·)

/-- `overlap_entry_incomplete`. -/
def overlapEntryIncomplete (e : OverlapEntry) : Bool := e.pending = 0 && !e.failed && !overlapEntryComplete e

/-- `overlap_entry_counts_for_sender_quota`. -/
def overlapEntryCountsForSenderQuota (e : OverlapEntry) (candidate : OverlapKey) (sender : Sender)
    (poisoned : Bool) : Bool :=
  if overlapEntryComplete e then false
  else
    match candidate.fairnessOrigin with
    | none => overlapSender e.key = sender
    | some _ =>
      e.key.fairnessOrigin = candidate.fairnessOrigin
        || (poisoned && !e.failed && e.key.routingDomain = candidate.routingDomain)

/-- `terminal_conflict`. -/
def terminalConflict (e : OverlapEntry) (stop : ℕ) (isLast : Bool) : Bool :=
  match e.terminalEnd with
  | some terminalEnd =>
    terminalEnd < stop || (isLast && stop ≠ terminalEnd) || (!isLast && stop = terminalEnd)
  | none => isLast && e.ranges.any fun r => stop < r.2

/-- `completion_token`. -/
def completionToken (e : OverlapEntry) : Option OverlapCompletionToken :=
  match e.terminalEnd with
  | none => none
  | some terminalEnd => if rangesCoverTerminal e terminalEnd then some ⟨e.key, terminalEnd, e.revision⟩ else none

/-- The merging loop of `merge_ranges`. -/
def mergeLoop (out : List Range) (cur : Range) : List Range → Option (List Range)
  | [] => if overlapMaxRanges ≤ out.length then none else some (out ++ [cur])
  | nxt :: rest =>
    if nxt.1 ≤ cur.2 then mergeLoop out (if cur.2 < nxt.2 then (cur.1, nxt.2) else cur) rest
    else if overlapMaxRanges ≤ out.length then none
    else mergeLoop (out ++ [cur]) nxt rest

/-- `merge_ranges`: the ranges and the new one sorted by start, merged where they touch. -/
def mergeRanges (ranges : List Range) (new : Range) : Option (List Range) :=
  match (ranges ++ [new]).insertionSort (fun a b => a.1 ≤ b.1) with
  | [] => none
  | cur :: rest => mergeLoop [] cur rest

/-- The new range overlaps one of the entry. -/
def overlaps (e : OverlapEntry) (start stop : ℕ) : Bool := e.ranges.any fun r => max start r.1 < min stop r.2

/-! ## The tracker -/

/-- `OverlapTracker`. -/
structure OverlapTracker where
  shards : ℕ → List OverlapEntry
  nextRevision : ℕ
  seed : UInt64

/-- `OverlapTracker::with_seed`. -/
def withSeed (seed : UInt64) : OverlapTracker := ⟨fun _ => [], 1, seed⟩

/-- `OverlapDropReason`. -/
inductive OverlapDropReason where
  | overlap
  | overflow
  | shardFull
deriving DecidableEq

/-- `OverlapCheckResult`; a result that is dropped without its admission being taken fails
it, which here is a step of its own. -/
structure OverlapCheckResult where
  dropped : Bool
  reason : Option OverlapDropReason
  lifetimeEvictions : ℕ
  completion : Option OverlapCompletionToken
  admission : Option OverlapAdmissionToken

def OverlapCheckResult.drop (reason : OverlapDropReason) (lifetimeEvictions : ℕ) : OverlapCheckResult :=
  ⟨true, some reason, lifetimeEvictions, none, none⟩

namespace OverlapTracker

variable (t : OverlapTracker)

/-- `shard_index`. -/
def shardIndex (key : OverlapKey) : ℕ := overlapShardIndexSeeded key t.seed

/-- The shard of a key. -/
def shardOf (key : OverlapKey) : List OverlapEntry := t.shards (t.shardIndex key)

/-- The shard of a key replaced. -/
def putShard (key : OverlapKey) (shard : List OverlapEntry) : OverlapTracker :=
  { t with shards := fun i => if i = t.shardIndex key then shard else t.shards i }

/-- The entries of a shard that live on. -/
def sweep (shard : List OverlapEntry) (nowNs : ℕ) : List OverlapEntry := shard.filter (overlapEntryLive · nowNs)

/-- The entries a sweep takes for their absolute age alone. -/
def lifetimeEvictions (shard : List OverlapEntry) (nowNs : ℕ) : ℕ :=
  shard.countP fun e => idleLive e nowNs && !absolutelyLive e nowNs

/-- The entry of a datagram in a shard. -/
def find (shard : List OverlapEntry) (key : OverlapKey) : Option OverlapEntry :=
  shard.find? fun e => overlapSameDatagram e.key key

/-! ### Checking -/

/-- `check_overlap_fragment_detailed`. -/
def checkOverlapFragmentDetailed (key : OverlapKey) (start stop : ℕ) (isLast : Bool) (nowNs : ℕ) :
    OverlapCheckResult × OverlapTracker :=
  if stop ≤ start then (.drop .overlap 0, t)
  else
    let evictions := lifetimeEvictions (t.shardOf key) nowNs
    let shard := sweep (t.shardOf key) nowNs
    let t := t.putShard key shard
    match find shard key with
    | none => (⟨false, none, evictions, none, none⟩, t)
    | some e =>
      if terminalConflict e stop isLast then (.drop .overlap evictions, t)
      else if overlaps e start stop then (.drop .overlap evictions, t)
      else
        match mergeRanges e.ranges (start, stop) with
        | none => (.drop .overflow evictions, t)
        | some _ => (⟨false, none, evictions, none, none⟩, t)

/-! ### Making room -/

/-- The position of the oldest entry of a class, the first of several. -/
def oldest (eligible : OverlapEntry → Bool) (shard : List OverlapEntry) : Option ℕ :=
  (shard.zipIdx.foldl (fun (best : Option ℕ × ℕ) (entry : OverlapEntry × ℕ) =>
    if eligible entry.1 && entry.1.createdNs < best.2 then (some entry.2, entry.1.createdNs) else best)
    (none, 2 ^ 64 - 1)).1

def sameZone (a b : OverlapKey) : Bool := a.routingDomain = b.routingDomain && a.ingressZone = b.ingressZone

/-- An earlier datagram of the candidate's origin has failed. -/
def poisoned (shard : List OverlapEntry) (key : OverlapKey) : Bool :=
  key.fairnessOrigin.isSome && shard.any fun e =>
    overlapSender e.key = overlapSender key && e.key.fairnessOrigin = key.fairnessOrigin && e.failed

def senderEntries (shard : List OverlapEntry) (key : OverlapKey) : ℕ :=
  shard.countP fun e => overlapEntryCountsForSenderQuota e key (overlapSender key) (poisoned shard key)

def zoneEntries (shard : List OverlapEntry) (key : OverlapKey) : ℕ := shard.countP fun e => sameZone e.key key

/-- The sender's quota: the shard and the count of the zone, or the shard of a refusal. -/
def senderRoom (shard : List OverlapEntry) (key : OverlapKey) : Except (List OverlapEntry) (List OverlapEntry × ℕ) :=
  if senderEntries shard key < overlapCapPerSenderPerShard then .ok (shard, zoneEntries shard key)
  else
    let own := fun e : OverlapEntry =>
      match key.fairnessOrigin with
      | none => decide (overlapSender e.key = overlapSender key)
      | some _ => decide (e.key.fairnessOrigin = key.fairnessOrigin)
    match oldest (fun e => own e
        && overlapEntryCountsForSenderQuota e key (overlapSender key) (poisoned shard key)
        && overlapEntryIncomplete e) shard with
    | none => .error shard
    | some pos =>
      .ok (shard.eraseIdx pos,
        if (shard[pos]?).any (sameZone ·.key key) then zoneEntries shard key - 1 else zoneEntries shard key)

/-- The zone's reserve. -/
def zoneRoom (shard : List OverlapEntry) (count : ℕ) (key : OverlapKey) :
    Except (List OverlapEntry) (List OverlapEntry) :=
  if count < overlapCapPerZonePerShard then .ok shard
  else
    match oldest (fun e => sameZone e.key key && overlapEntryComplete e) shard with
    | none => .error shard
    | some pos => .ok (shard.eraseIdx pos)

/-- The shard's capacity. -/
def shardRoom (shard : List OverlapEntry) (key : OverlapKey) : Except (List OverlapEntry) (List OverlapEntry) :=
  if shard.length < overlapCapPerShard then .ok shard
  else
    let completed := oldest (fun e => e.key.routingDomain = key.routingDomain && overlapEntryComplete e) shard
    let fallback := oldest (fun e => e.key.routingDomain = key.routingDomain
      && e.key.ingressZone ≠ key.ingressZone && overlapEntryIncomplete e) shard
    match completed.or fallback with
    | none => .error shard
    | some pos => .ok (shard.eraseIdx pos)

/-- Room for a new datagram: the shard to add it to, or the shard of a refusal. -/
def makeRoom (shard : List OverlapEntry) (key : OverlapKey) : Except (List OverlapEntry) (List OverlapEntry) :=
  match senderRoom shard key with
  | .error shard => .error shard
  | .ok (shard, count) =>
    match zoneRoom shard count key with
    | .error shard => .error shard
    | .ok shard => shardRoom shard key

/-! ### Recording -/

/-- The entry of a datagram with one more fragment. -/
def extend (e : OverlapEntry) (ranges : List Range) (stop : ℕ) (isLast : Bool) (revision nowNs : ℕ) : OverlapEntry :=
  { e with
    ranges := ranges
    terminalEnd := if isLast && e.terminalEnd.isNone then some stop else e.terminalEnd
    revision := revision
    pending := saturatingAdd32 e.pending 1
    deadlineNs := saturatingAdd64 nowNs overlapTtlNs }

/-- The entry of a new datagram. -/
def create (key : OverlapKey) (start stop : ℕ) (isLast : Bool) (incarnation nowNs : ℕ) : OverlapEntry where
  key := key
  ranges := [(start, stop)]
  terminalEnd := if isLast then some stop else none
  revision := incarnation
  incarnation := incarnation
  pending := 1
  failed := false
  deadlineNs := saturatingAdd64 nowNs overlapTtlNs
  createdNs := nowNs

/-- The entry with its shard taken as the rest, put last. -/
def admitEntry (key : OverlapKey) (rest : List OverlapEntry) (e : OverlapEntry) (evictions : ℕ) :
    OverlapCheckResult × OverlapTracker :=
  (⟨false, none, evictions, completionToken e, some ⟨e.key, e.incarnation⟩⟩,
    { t.putShard key (rest ++ [e]) with nextRevision := t.nextRevision + 1 })

/-- `check_and_record_fragment_detailed`. -/
def checkAndRecordFragmentDetailed (key : OverlapKey) (start stop : ℕ) (isLast : Bool) (nowNs : ℕ) :
    OverlapCheckResult × OverlapTracker :=
  if stop ≤ start then (.drop .overlap 0, t)
  else
    let evictions := lifetimeEvictions (t.shardOf key) nowNs
    let shard := sweep (t.shardOf key) nowNs
    match find shard key with
    | some e =>
      if terminalConflict e stop isLast then (.drop .overlap evictions, t.putShard key shard)
      else if overlaps e start stop then (.drop .overlap evictions, t.putShard key shard)
      else
        match mergeRanges e.ranges (start, stop) with
        | none => (.drop .overflow evictions, t.putShard key shard)
        | some ranges =>
          t.admitEntry key (shard.eraseP fun e => overlapSameDatagram e.key key)
            (extend e ranges stop isLast t.nextRevision nowNs) evictions
    | none =>
      match makeRoom shard key with
      | .error shard => (.drop .shardFull evictions, t.putShard key shard)
      | .ok shard => t.admitEntry key shard (create key start stop isLast t.nextRevision nowNs) evictions

/-! ### Settling -/

/-- The first entry of a datagram changed in place. -/
def updateFirst (key : OverlapKey) (f : OverlapEntry → OverlapEntry) : List OverlapEntry → List OverlapEntry
  | [] => []
  | e :: rest => if overlapSameDatagram e.key key then f e :: rest else e :: updateFirst key f rest

/-- The entry a token settles, if it is there and has a reservation left. -/
def settled (token : OverlapAdmissionToken) : Option OverlapEntry :=
  (find (t.shardOf token.key) token.key).filter fun e => e.incarnation = token.incarnation && e.pending ≠ 0

/-- `commit_admission`. -/
def commitAdmission (token : OverlapAdmissionToken) : Bool × OverlapTracker :=
  match t.settled token with
  | none => (false, t)
  | some e =>
    let e := { e with pending := e.pending - 1 }
    (e.pending = 0 && !e.failed && e.terminalEnd.any (rangesCoverTerminal e ·),
      t.putShard token.key (updateFirst token.key (fun _ => e) (t.shardOf token.key)))

/-- `fail_admission`. -/
def failAdmission (token : OverlapAdmissionToken) : Bool × OverlapTracker :=
  match t.settled token with
  | none => (false, t)
  | some e =>
    (true, t.putShard token.key
      (updateFirst token.key (fun _ => { e with pending := e.pending - 1, failed := true }) (t.shardOf token.key)))

end OverlapTracker

end Xpf.FragmentOverlap
