/-
The port-scan and IP-sweep trackers: `ScanCore` of `userspace-dp/src/screen/scan.rs`.

For each zone and source the tracker keeps the first ten distinct destinations of a window, and
reports the source once it has ten. A zone tracks a bounded number of sources: a new one makes
room by an eviction, whose victim is looked for in a sample of the zone that a cursor moves
over. A periodic cleanup visits a bounded number of sources and drops those whose window is
over under the longest window of all zones.

The source table, the index by zone and the ring of keys are changed together. The order in
which the index of a zone is visited is an argument, since a hash set has its own.
-/
import Mathlib
import Xpf.GenGuard
import Xpf.SessionKeys
import Xpf.SlotRing

set_option autoImplicit false

namespace Xpf.ScanTracker

open Xpf.Tables (Table upsert)
open Xpf.SlotRing
open Xpf.Sessions (IpAddr)
open Xpf.GenGuard (Iteration)

/-! ## Constants -/

/-- `MAX_SOURCES_PER_ZONE`. -/
def maxSourcesPerZone : ℕ := 4096

/-- `SCAN_DETECT_COUNT`, which is also `MAX_UNIQUE_PER_SOURCE`. -/
def scanDetectCount : ℕ := 10

/-- `CLEANUP_BUDGET`. -/
def cleanupBudget : ℕ := 256

/-- `EVICT_SCAN_LIMIT`. -/
def evictScanLimit : ℕ := 64

/-- `WALK_CAP`: the sample and eight times as many slots of other zones. -/
def walkCap : ℕ := evictScanLimit + evictScanLimit * 8

/-- `MAX_CLEANUP_WINDOW_MICROS`. -/
def maxCleanupWindowMicros : ℕ := 2 ^ 32 - 1

/-- `usize::MAX` and `u64::MAX`. -/
def wordMax : ℕ := 2 ^ 64 - 1

/-! ## Sources -/

structure ScanKey where
  zone : UInt32
  src : IpAddr
  deriving DecidableEq

variable {T : Type} [DecidableEq T]

/-- `SrcEntry`: the destinations recorded in the window, which are distinct and at most ten. -/
structure SrcEntry (T : Type) where
  windowStart : ℕ
  entries : List T
  slot : ℕ
  distinct : entries.Nodup
  bounded : entries.length ≤ scanDetectCount

namespace SrcEntry

def new (now : ℕ) : SrcEntry T := ⟨now, [], 0, List.nodup_nil, Nat.zero_le _⟩

variable (e : SrcEntry T)

def distinctCount : ℕ := e.entries.length

def isEmpty : Bool := e.distinctCount = 0

def resetEntries : SrcEntry T := { e with entries := [], distinct := List.nodup_nil, bounded := Nat.zero_le _ }

/-- Record a destination; whether it was new and there was room. -/
def insertUnique (val : T) : SrcEntry T × Bool :=
  if hnew : val ∈ e.entries then (e, false)
  else if hroom : scanDetectCount ≤ e.distinctCount then (e, false)
  else
    ({ e with
        entries := e.entries ++ [val]
        distinct := by
          refine List.nodup_append.mpr ⟨e.distinct, List.nodup_singleton val, fun a ha b hb heq => hnew ?_⟩
          rw [← List.mem_singleton.mp hb, ← heq]
          exact ha
        bounded := by
          rw [List.length_append, List.length_singleton]
          exact Nat.lt_of_not_le hroom },
      true)

def containsRecorded (val : T) : Bool := val ∈ e.entries

/-- The window is over, or nothing is recorded. -/
def expired (now window : ℕ) : Bool := window ≤ now - e.windowStart || e.isEmpty

end SrcEntry

/-- A row of the table has its position in the ring. -/
def slotOf : Slot (SrcEntry T) := ⟨SrcEntry.slot, fun e i => { e with slot := i }, fun _ _ => rfl⟩

/-! ## The tracker -/

structure ScanCore (T : Type) where
  perSrc : Table ScanKey (SrcEntry T)
  perZoneSrcs : Table UInt32 (Table IpAddr Unit)
  keyRing : List ScanKey
  cleanupCursor : ℕ
  evictCursor : ℕ
  seed : UInt64
  skippedPressure : ℕ
  evictedPressure : ℕ

namespace ScanCore

def withSeed (seed : UInt64) : ScanCore T := ⟨∅, ∅, [], 0, 0, seed, 0, 0⟩

variable (core : ScanCore T)

/-- The sources of a zone, as the index has them. -/
def zoneSrcs (zone : UInt32) : Table IpAddr Unit := (core.perZoneSrcs.lookup zone).getD ∅

def zoneCount (zone : UInt32) : ℕ := (core.zoneSrcs zone).keys.length

def insertSrc (key : ScanKey) (now : ℕ) : ScanCore T :=
  let (perSrc, keyRing) := insertRow slotOf core.perSrc core.keyRing key (SrcEntry.new now)
  { core with perSrc, keyRing, perZoneSrcs := upsert core.perZoneSrcs key.zone ∅ (·.insert key.src ()) }

/-- Drop a source from the table, the ring and the index. -/
def removeSrc (key : ScanKey) : ScanCore T × Bool :=
  match removeRow slotOf core.perSrc core.keyRing key with
  | none => (core, false)
  | some (perSrc, keyRing) =>
    let perZoneSrcs :=
      match core.perZoneSrcs.lookup key.zone with
      | some srcs => core.perZoneSrcs.insert key.zone (srcs.erase key.src)
      | none => core.perZoneSrcs
    ({ core with perSrc, keyRing, perZoneSrcs }, true)

/-! ## Eviction -/

/-- The candidates seen so far: the first expired one, or the live one with the fewest
destinations, the older of two with as many. -/
structure Sample where
  victimSrc : Option IpAddr
  victimCount : ℕ
  victimStart : ℕ
  expiredVictim : Option IpAddr

def Sample.empty : Sample := ⟨none, wordMax, wordMax, none⟩

/-- One candidate more; an expired one ends the search. -/
def Sample.examine (sample : Sample) (e : SrcEntry T) (src : IpAddr) (now window : ℕ) : Sample :=
  if e.expired now window then { sample with expiredVictim := some src }
  else if e.distinctCount < sample.victimCount
      || (e.distinctCount = sample.victimCount && e.windowStart < sample.victimStart) then
    { sample with victimSrc := some src, victimCount := e.distinctCount, victimStart := e.windowStart }
  else sample

def Sample.victim (sample : Sample) : Option IpAddr := sample.expiredVictim.or sample.victimSrc

/-- The walk over the ring: the candidates, how many there were and where the last one was. -/
structure Walk where
  sample : Sample
  examinedSameZone : ℕ
  lastExaminedIdx : Option ℕ

/-- The slots of the ring from a start on, as many as are given. -/
def walkRing (zone : UInt32) (now window start : ℕ) : ℕ → ℕ → Walk → Walk
  | 0, _, walk => walk
  | n + 1, step, walk =>
    let idx := (start + step) % core.keyRing.length
    match core.keyRing[idx]? with
    | none => walk
    | some key =>
      if key.zone ≠ zone then walkRing zone now window start n (step + 1) walk
      else
        let walk := { walk with examinedSameZone := walk.examinedSameZone + 1, lastExaminedIdx := some idx }
        match core.perSrc.lookup key with
        | none =>
          if evictScanLimit ≤ walk.examinedSameZone then walk
          else walkRing zone now window start n (step + 1) walk
        | some e =>
          let walk := { walk with sample := walk.sample.examine e key.src now window }
          if e.expired now window || evictScanLimit ≤ walk.examinedSameZone then walk
          else walkRing zone now window start n (step + 1) walk

/-- The sample of the zone's own index, where the ring showed no candidate. -/
def sampleZone (zone : UInt32) (now window : ℕ) : List IpAddr → Sample → Sample
  | [], sample => sample
  | src :: srcs, sample =>
    match core.perSrc.lookup ⟨zone, src⟩ with
    | none => sampleZone zone now window srcs sample
    | some e =>
      let sample := sample.examine e src now window
      if e.expired now window then sample else sampleZone zone now window srcs sample

/-- The secret, diffused, as an offset into the ring. -/
def seedMix : ℕ :=
  let x := core.seed * 0x9E3779B97F4A7C15
  (x <<< 32 ||| x >>> 32).toNat

/-- Remove the victim, if there is one. -/
def removeVictim (zone : UInt32) : Option IpAddr → ScanCore T × Bool
  | none => (core, false)
  | some src =>
    match core.removeSrc ⟨zone, src⟩ with
    | (core, true) => ({ core with evictedPressure := core.evictedPressure + 1 }, true)
    | (core, false) => (core, false)

def evictStalestInZone (it : Iteration IpAddr) (zone : UInt32) (now window : ℕ) : ScanCore T × Bool :=
  let ringLen := core.keyRing.length
  if ringLen = 0 then (core, false)
  else
    let evictCursor := if ringLen ≤ core.evictCursor then 0 else core.evictCursor
    let seedOffset := core.seedMix % ringLen
    let start := (evictCursor + seedOffset) % ringLen
    let cap := min walkCap ringLen
    let walk := core.walkRing zone now window start cap 0 ⟨.empty, 0, none⟩
    let nextStart := match walk.lastExaminedIdx with
      | some idx => (idx + 1) % ringLen
      | none => (start + cap) % ringLen
    let core := { core with evictCursor := (nextStart + ringLen - seedOffset) % ringLen }
    let victim := match walk.sample.victim with
      | some src => some src
      | none =>
        match core.perZoneSrcs.lookup zone with
        | none => none
        | some srcs =>
          let order := it.order srcs.keys
          if srcs.keys.length = 0 then none
          else
            let off := (core.evictCursor + seedOffset) % srcs.keys.length
            (core.sampleZone zone now window ((order.drop off ++ order.take off).take evictScanLimit) .empty).victim
    core.removeVictim zone victim

/-! ## The check and the cleanup -/

/-- Record a destination of a source that is tracked: the verdict. -/
def record (key : ScanKey) (val : T) (now window : ℕ) : ScanCore T × Bool :=
  match core.perSrc.lookup key with
  | none => (core, false)
  | some e =>
    let e := if window ≤ now - e.windowStart then { e.resetEntries with windowStart := now } else e
    let (e', stored) := e.insertUnique val
    let pressed := !stored && !e'.containsRecorded val
    ({ core with
        perSrc := core.perSrc.insert key e'
        skippedPressure := if pressed then core.skippedPressure + 1 else core.skippedPressure },
      scanDetectCount ≤ e'.distinctCount)

def check (it : Iteration IpAddr) (zone : UInt32) (src : IpAddr) (val : T) (now window : ℕ) : ScanCore T × Bool :=
  if window = 0 then (core, false)
  else
    let key : ScanKey := ⟨zone, src⟩
    if (core.perSrc.lookup key).isSome then core.record key val now window
    else if maxSourcesPerZone ≤ core.zoneCount zone then
      match core.evictStalestInZone it zone now window with
      | (core, false) => ({ core with skippedPressure := core.skippedPressure + 1 }, false)
      | (core, true) => (core.insertSrc key now).record key val now window
    else (core.insertSrc key now).record key val now window

/-- The rounds of the cleanup that the budget leaves, from a position of the ring: the tracker,
the position and the number of sources visited. -/
def cleanupLoop (now floor : ℕ) : ℕ → ScanCore T → ℕ → ℕ → ScanCore T × ℕ × ℕ
  | 0, core, i, examined => (core, i, examined)
  | n + 1, core, i, examined =>
    let len := core.keyRing.length
    if len = 0 then (core, 0, examined)
    else
      let i := if len ≤ i then 0 else i
      match core.keyRing[i]? with
      | none => (core, i, examined)
      | some key =>
        let expired := match core.perSrc.lookup key with
          | some e => e.expired now floor
          | none => true
        -- after a removal the key that was last is at this position
        if expired then cleanupLoop now floor n (core.removeSrc key).1 i (examined + 1)
        else cleanupLoop now floor n core (i + 1) (examined + 1)

def cleanup (now reapFloor : ℕ) : ScanCore T × ℕ :=
  let floor := min reapFloor maxCleanupWindowMicros
  let startLen := core.keyRing.length
  if startLen = 0 then ({ core with cleanupCursor := 0 }, 0)
  else
    let cursor := if startLen ≤ core.cleanupCursor then 0 else core.cleanupCursor
    let (core, i, examined) := cleanupLoop now floor (min cleanupBudget startLen) core cursor 0
    let len := core.keyRing.length
    ({ core with cleanupCursor := if len = 0 then 0 else i % len }, examined)

end ScanCore

end Xpf.ScanTracker
