/-
The receiver's generation guards of session sync: `pkg/cluster/sync_conn_gen.go` with
`sync_gen_tombstones_9719.go`.

The peer stamps every install and every delete of a session with a generation, and the
frames can arrive in another order. The receiver remembers, for every tuple, the newest
generation it has applied, in two spaces: one keyed by the bare tuple and one by routing
domain and tuple. A delete leaves its generation behind as a tombstone, and a map that is
full makes room for a new key by forgetting its oldest tombstone.

A Go map is an `AList`: no lemma below depends on the order of its entries. Where the
source ranges over a map, the order is an argument (`Iteration`), because Go picks another
one at every call. The two address families are two instances of the same generic cores,
as they are in the source, and share only the capacity.
-/
import Mathlib.Data.List.AList
import Mathlib.Logic.Function.Iterate
import Mathlib.Tactic.Common
import Xpf.Runs

set_option autoImplicit false

namespace Xpf.GenGuard

/-! ## Maps and tombstone orders -/

/-- A Go map. -/
abbrev GoMap (K V : Type) := AList fun _ : K => V

/-- The order in which one `range` over a map's keys meets them. -/
structure Iteration (α : Type) where
  order : List α → List α
  perm : ∀ keys, (order keys).Perm keys

/-- The keys whose stored generation is a tombstone, oldest first. -/
structure GenTombstoneOrder (K : Type) where
  order : List K
  nodup : order.Nodup

variable {K : Type} [DecidableEq K]

namespace GenTombstoneOrder

def reset : GenTombstoneOrder K := ⟨[], List.nodup_nil⟩

/-- Record a key as the newest tombstone, moving it to the back if it is one already. -/
def mark (o : GenTombstoneOrder K) (key : K) : GenTombstoneOrder K where
  order := o.order.erase key ++ [key]
  nodup := by
    refine List.nodup_append.mpr ⟨o.nodup.erase key, List.nodup_singleton key, ?_⟩
    intro a ha b hb hab
    rw [List.mem_singleton] at hb
    rw [hab, hb] at ha
    exact o.nodup.not_mem_erase ha

def forget (o : GenTombstoneOrder K) (key : K) : GenTombstoneOrder K :=
  ⟨o.order.erase key, o.nodup.erase key⟩

/-- The order without its oldest key. -/
def dropOldest (o : GenTombstoneOrder K) : GenTombstoneOrder K :=
  ⟨o.order.tail, o.nodup.tail⟩

end GenTombstoneOrder

/-- A generation map with the order of its tombstones. -/
structure Space (K : Type) [DecidableEq K] where
  gens : GoMap K ℕ
  tombs : GenTombstoneOrder K

/-- What one attempt to store a generation did. -/
structure Put (σ : Type) where
  space : σ
  stored : Bool
  evicted : Bool

namespace Space

def empty : Space K := ⟨∅, .reset⟩

/-- The generation a Go map answers for a key: zero when it has none. -/
def gen (s : Space K) (key : K) : ℕ := (s.gens.lookup key).getD 0

/-- `evictOldest`: the oldest tombstone leaves the order and the map. -/
def evictOldest (s : Space K) : Option (K × Space K) :=
  match s.tombs.order with
  | [] => none
  | key :: _ => some (key, { gens := s.gens.erase key, tombs := s.tombs.dropOldest })

end Space

/-- Store a generation without dropping any: an existing key is updated in place, a new one
only while the map is below the cap. -/
def putGenBounded (m : GoMap K ℕ) (key : K) (gen maxEntries : ℕ) : Option (GoMap K ℕ) :=
  if key ∈ m then some (m.insert key gen)
  else if maxEntries ≤ m.keys.length then none
  else some (m.insert key gen)

/-- A full map first makes room for a new key by evicting its oldest tombstone; the key
evicted is returned too, for the index of the scoped space. -/
def putEvicting (s : Space K) (key : K) (gen maxEntries : ℕ) : Put (Space K) × Option K :=
  let (s, front) :=
    if key ∉ s.gens ∧ maxEntries ≤ s.gens.keys.length then
      match s.evictOldest with
      | some (front, s) => (s, some front)
      | none => (s, none)
    else (s, none)
  match putGenBounded s.gens key gen maxEntries with
  | some gens => ({ space := { s with gens }, stored := true, evicted := front.isSome }, front)
  | none => ({ space := s, stored := false, evicted := front.isSome }, front)

def putGenEvictingTombstones (key : K) (gen : ℕ) (s : Space K) (maxEntries : ℕ) : Put (Space K) :=
  (putEvicting s key gen maxEntries).1

/-! ## The scoped space and its tuple index -/

/-- Receiver generations of scoped deletes are kept per routing domain and tuple. -/
structure ScopedDeleteKey (K : Type) where
  domain : UInt32
  key : K
  deriving DecidableEq

/-- The scoped keys that name a tuple. -/
abbrev ScopedTupleIndex (K : Type) [DecidableEq K] := GoMap K (GoMap (ScopedDeleteKey K) Unit)

namespace ScopedTupleIndex

/-- The keys that name a tuple, in the order the map happens to hold them. -/
def keys (ix : ScopedTupleIndex K) (tuple : K) : List (ScopedDeleteKey K) :=
  ((ix.lookup tuple).getD ∅).keys

def add (ix : ScopedTupleIndex K) (tuple : K) (skey : ScopedDeleteKey K) : ScopedTupleIndex K :=
  ix.insert tuple (((ix.lookup tuple).getD ∅).insert skey ())

/-- Remove a key; a tuple that no key names any more leaves the index. -/
def remove (ix : ScopedTupleIndex K) (tuple : K) (skey : ScopedDeleteKey K) : ScopedTupleIndex K :=
  match ix.lookup tuple with
  | none => ix
  | some set => if (set.erase skey).keys = [] then ix.erase tuple else ix.insert tuple (set.erase skey)

end ScopedTupleIndex

/-- The scoped generation map with its tombstones and its tuple index. -/
structure Scoped (K : Type) [DecidableEq K] where
  space : Space (ScopedDeleteKey K)
  byTuple : ScopedTupleIndex K

namespace Scoped

def empty : Scoped K := ⟨.empty, ∅⟩

end Scoped

/-- As `putGenEvictingTombstones`, with the index: an evicted key leaves it, a stored one
joins it. -/
def putScopedGenEvictingTombstones (skey : ScopedDeleteKey K) (gen : ℕ) (s : Scoped K) (maxEntries : ℕ) :
    Put (Scoped K) :=
  let (put, front) := putEvicting s.space skey gen maxEntries
  let byTuple := match front with
    | some front => ScopedTupleIndex.remove s.byTuple front.key front
    | none => s.byTuple
  let byTuple := if put.stored then ScopedTupleIndex.add byTuple skey.key skey else byTuple
  { space := { space := put.space, byTuple }, stored := put.stored, evicted := put.evicted }

/-- Drop a scoped key from the map and from the index. -/
def deleteScopedGen (s : Scoped K) (tuple : K) (skey : ScopedDeleteKey K) : Scoped K :=
  { space := { s.space with gens := s.space.gens.erase skey }
    byTuple := ScopedTupleIndex.remove s.byTuple tuple skey }

/-! ## Capacity -/

def genGuardMapDefaultCap : ℕ := 200000

/-- Half of `dataplane.MaxSessions`. -/
def genGuardMapCap : ℕ := 10000000 / 2

/-- What bounds the receiver's maps: the cap of this side (zero when it has never grown),
the session capacity the helper reports (zero when it has reported none) and the ceiling
the tests inject (zero in production). -/
structure Caps where
  recvGenGuardCap : ℕ
  genGuardSessionCap : ℕ
  genGuardMapCeilingOverride : ℕ

namespace Caps

/-- The growth ceiling. -/
def maxCap (c : Caps) : ℕ :=
  if c.genGuardMapCeilingOverride ≠ 0 then c.genGuardMapCeilingOverride
  else if c.genGuardSessionCap ≠ 0 then
    if c.genGuardSessionCap < genGuardMapDefaultCap then genGuardMapDefaultCap
    else if genGuardMapCap < c.genGuardSessionCap then genGuardMapCap
    else c.genGuardSessionCap
  else genGuardMapDefaultCap

def recvCap (c : Caps) : ℕ :=
  if c.recvGenGuardCap = 0 then genGuardMapDefaultCap
  else if c.maxCap < c.recvGenGuardCap then c.maxCap
  else c.recvGenGuardCap

/-- Double the cap up to the ceiling and say whether it grew; a stored cap above the ceiling
is clamped down instead. -/
def growRecvCap (c : Caps) : Caps × Bool :=
  let cur := if c.recvGenGuardCap = 0 then genGuardMapDefaultCap else c.recvGenGuardCap
  if c.maxCap < cur then ({ c with recvGenGuardCap := c.maxCap }, false)
  else if c.maxCap ≤ cur then (c, false)
  else ({ c with recvGenGuardCap := min (cur * 2) c.maxCap }, true)

/-- A report of zero means that the capacity is unknown and is ignored. -/
def setGenGuardSessionCap (c : Caps) (sessions : ℕ) : Caps :=
  if sessions = 0 then c else { c with genGuardSessionCap := sessions }

end Caps

/-- Store a generation; where the map is full of live entries, let the cap grow once and
try again. -/
def putGrowing {σ : Type} (put : σ → ℕ → Put σ) (c : Caps) (s : σ) : Caps × σ × Bool :=
  let first := put s c.recvCap
  if !first.stored && !first.evicted then
    let (c, grew) := c.growRecvCap
    if grew then
      let second := put first.space c.recvCap
      (c, second.space, second.stored)
    else (c, first.space, first.stored)
  else (c, first.space, first.stored)

/-! ## The guards -/

/-- The verdict on an install: the generation to record, or a refusal when it is older than
the stored one. An install without a generation keeps the stored one. -/
def installGenGuardCore (s : Space K) (key : K) (incoming : ℕ) : Option ℕ :=
  let stored := s.gen key
  if stored ≠ 0 ∧ incoming ≠ 0 ∧ incoming < stored then none
  else if incoming = 0 then some stored
  else some incoming

/-- Set or clear the tombstone mark of a key whose generation has just been stored. -/
def Space.remark (s : Space K) (key : K) (markTomb : Bool) : Space K :=
  { s with tombs := if markTomb then s.tombs.mark key else s.tombs.forget key }

/-- Record a generation in the bare space. -/
def recordGen (c : Caps) (s : Space K) (key : K) (gen : ℕ) (markTomb : Bool) : Caps × Space K :=
  let (c, s, stored) := putGrowing (putGenEvictingTombstones key gen) c s
  (c, if stored then s.remark key markTomb else s)

/-- Record a generation in the scoped space. -/
def recordScopedGen (c : Caps) (s : Scoped K) (skey : ScopedDeleteKey K) (gen : ℕ) (markTomb : Bool) :
    Caps × Scoped K :=
  let (c, s, stored) := putGrowing (putScopedGenEvictingTombstones skey gen) c s
  (c, if stored then { s with space := s.space.remark skey markTomb } else s)

def recordInstalledGenCore (c : Caps) (s : Space K) (key : K) (gen : ℕ) : Caps × Space K :=
  if gen = 0 then (c, s) else recordGen c s key gen false

def recordInstalledGenScopedCore (c : Caps) (s : Scoped K) (skey : ScopedDeleteKey K) (gen : ℕ) :
    Caps × Scoped K :=
  if gen = 0 then (c, s) else recordScopedGen c s skey gen false

/-- A gen-0 delete evicts the entry, any other leaves its generation as a tombstone. -/
def tombstoneBareCore (c : Caps) (s : Space K) (key : K) (gen : ℕ) : Caps × Space K :=
  if gen = 0 then (c, { gens := s.gens.erase key, tombs := s.tombs.forget key })
  else recordGen c s key gen true

/-- Drop a scoped key from the map, the index and the tombstone order. -/
def evictScoped (s : Scoped K) (tuple : K) (skey : ScopedDeleteKey K) : Scoped K :=
  let s := deleteScopedGen s tuple skey
  { s with space := { s.space with tombs := s.space.tombs.forget skey } }

def tombstoneScopedCore (c : Caps) (s : Scoped K) (skey : ScopedDeleteKey K) (gen : ℕ) : Caps × Scoped K :=
  if gen = 0 then (c, evictScoped s skey.key skey) else recordScopedGen c s skey gen true

/-- The receiver's state for one address family: both spaces, and the sessions the
dataplane holds. -/
structure Family (K : Type) [DecidableEq K] where
  recvGen : Space K
  recvGenScoped : Scoped K
  sessions : List (ScopedDeleteKey K)

namespace Family

def empty : Family K := ⟨.empty, .empty, []⟩

end Family

/-- The stored generation refuses a non-zero delete that is older. -/
def refusesDelete (stored deleteGen : ℕ) : Bool := stored ≠ 0 && deleteGen ≠ 0 && deleteGen < stored

/-- The scoped entries of a tuple that a bare delete reaches, tombstoned one after another;
an entry that is newer than the delete is left alone. -/
def tombstoneTuple (c : Caps) (s : Scoped K) (keys : List (ScopedDeleteKey K)) (deleteGen : ℕ) :
    Caps × Scoped K :=
  keys.foldl
    (fun acc skey => if deleteGen < acc.2.space.gen skey then acc else tombstoneScopedCore acc.1 acc.2 skey deleteGen)
    (c, s)

/-- **The bare delete guard.** -/
def deleteGenGuardCore (c : Caps) (f : Family K) (it : Iteration (ScopedDeleteKey K)) (key : K)
    (deleteGen : ℕ) : Option (Caps × Family K) :=
  let keys := ScopedTupleIndex.keys f.recvGenScoped.byTuple key
  if refusesDelete (f.recvGen.gen key) deleteGen then none
  -- scoped tombstones of the tuple order bare deletes too, live scoped entries never do
  else if keys.any fun skey =>
      decide (skey ∈ f.recvGenScoped.space.tombs.order) && refusesDelete (f.recvGenScoped.space.gen skey) deleteGen then
    none
  else if deleteGen ≠ 0 then
    let (c, recvGen) := tombstoneBareCore c f.recvGen key deleteGen
    let (c, recvGenScoped) := tombstoneTuple c f.recvGenScoped (it.order keys) deleteGen
    some (c, { f with recvGen, recvGenScoped })
  else
    some (c, { f with
      recvGen := { gens := f.recvGen.gens.erase key, tombs := f.recvGen.tombs.forget key }
      recvGenScoped := (it.order keys).foldl (fun s skey => evictScoped s key skey) f.recvGenScoped })

/-- **The scoped delete guard.** It raises an existing bare entry, and never creates or
lowers one. -/
def deleteGenGuardScopedCore (c : Caps) (f : Family K) (skey : ScopedDeleteKey K) (key : K) (deleteGen : ℕ) :
    Option (Caps × Family K) :=
  if refusesDelete (f.recvGenScoped.space.gen skey) deleteGen then none
  else if refusesDelete (f.recvGen.gen key) deleteGen then none
  else if deleteGen ≠ 0 then
    let (c, recvGenScoped) := tombstoneScopedCore c f.recvGenScoped skey deleteGen
    let cur := f.recvGen.gen key
    let (c, recvGen) := if cur ≠ 0 ∧ cur ≤ deleteGen then tombstoneBareCore c f.recvGen key deleteGen else (c, f.recvGen)
    some (c, { f with recvGenScoped, recvGen })
  else
    some (c, { f with
      recvGenScoped := evictScoped f.recvGenScoped key skey
      recvGen := { gens := f.recvGen.gens.erase key, tombs := f.recvGen.tombs.forget key } })

/-! ## Applying what the peer sends -/

/-- Marker 1 states the default routing instance, which is domain 0; other domains ride
unchanged. -/
def scopedLogicalDomain (wire : UInt32) : UInt32 := if wire = 1 then 0 else wire

/-- A received install, with what the code around the guards answers while it is applied:
whether its configuration epoch is stale before and after the dataplane write, whether the
write succeeds, and how often the memos stored beside it make the cap grow. -/
structure Install where
  routingDomain : UInt32
  generation : ℕ
  epochStale : Bool
  memoGrowths : ℕ
  writeOk : Bool
  epochStaleAfter : Bool

inductive Outcome where
  | staleGeneration
  | staleEpoch
  | writeFailed
  | rolledBack
  | applied
  deriving DecidableEq

/-- `PutClusterSynced`. -/
def putSession (f : Family K) (skey : ScopedDeleteKey K) : Family K :=
  { f with sessions := f.sessions.insert skey }

/-- `DeleteWithCompanions`: the tuple in whichever domain. -/
def deleteWithCompanions (f : Family K) (key : K) : Family K :=
  { f with sessions := f.sessions.filter fun skey => skey.key ≠ key }

/-- `DeleteClusterScoped`. -/
def deleteClusterScoped (f : Family K) (skey : ScopedDeleteKey K) : Family K :=
  { f with sessions := f.sessions.filter fun k => k ≠ skey }

/-- Apply a received install through the guards of both spaces. -/
def installClusterSynced (c : Caps) (f : Family K) (key : K) (i : Install) : Caps × Family K × Outcome :=
  let skey : ScopedDeleteKey K := ⟨scopedLogicalDomain i.routingDomain, key⟩
  match installGenGuardCore f.recvGen key i.generation, installGenGuardCore f.recvGenScoped.space skey i.generation with
  | some record, some scopedRecord =>
    if i.epochStale then (c, f, .staleEpoch)
    else
      let c := (fun c : Caps => c.growRecvCap.1)^[i.memoGrowths] c
      if !i.writeOk then (c, f, .writeFailed)
      else
        let f := putSession f skey
        if i.epochStaleAfter then (c, deleteWithCompanions f key, .rolledBack)
        else
          let (c, recvGen) := recordInstalledGenCore c f.recvGen key record
          let (c, recvGenScoped) := recordInstalledGenScopedCore c f.recvGenScoped skey scopedRecord
          (c, { f with recvGen, recvGenScoped }, .applied)
  | _, _ => (c, f, .staleGeneration)

def deleteClusterSynced (c : Caps) (f : Family K) (it : Iteration (ScopedDeleteKey K)) (key : K)
    (deleteGen : ℕ) (writeOk : Bool) : Caps × Family K × Outcome :=
  match deleteGenGuardCore c f it key deleteGen with
  | none => (c, f, .staleGeneration)
  | some (c, f) => if writeOk then (c, deleteWithCompanions f key, .applied) else (c, f, .writeFailed)

def deleteClusterSyncedScoped (c : Caps) (f : Family K) (domain : UInt32) (key : K) (deleteGen : ℕ)
    (writeOk : Bool) : Caps × Family K × Outcome :=
  match deleteGenGuardScopedCore c f ⟨domain, key⟩ key deleteGen with
  | none => (c, f, .staleGeneration)
  | some (c, f) => if writeOk then (c, deleteClusterScoped f ⟨domain, key⟩, .applied) else (c, f, .writeFailed)

/-- What the peer can ask for in one address family. -/
inductive Op (K : Type) where
  | install (key : K) (i : Install)
  | delete (key : K) (deleteGen : ℕ) (writeOk : Bool) (it : Iteration (ScopedDeleteKey K))
  | deleteScoped (domain : UInt32) (key : K) (deleteGen : ℕ) (writeOk : Bool)

def Op.apply (c : Caps) (f : Family K) : Op K → Caps × Family K × Outcome
  | .install key i => installClusterSynced c f key i
  | .delete key deleteGen writeOk it => deleteClusterSynced c f it key deleteGen writeOk
  | .deleteScoped domain key deleteGen writeOk => deleteClusterSyncedScoped c f domain key deleteGen writeOk

/-! ## Resets -/

/-- Keep exactly the entries whose generation is a tombstone. -/
def Space.reclaimLive (s : Space K) : Space K :=
  { s with gens := ⟨s.gens.entries.filter fun e => decide (e.1 ∈ s.tombs.order), s.gens.nodupKeys.sublist List.filter_sublist⟩ }

/-- Keep the tombstones and rebuild the index from them. -/
def Scoped.reclaimLive (s : Scoped K) : Scoped K :=
  { space := s.space.reclaimLive
    byTuple := s.space.reclaimLive.gens.keys.foldl (fun ix skey => ScopedTupleIndex.add ix skey.key skey) ∅ }

def Family.reset (preserve : Bool) (f : Family K) : Family K :=
  if preserve then { f with recvGen := f.recvGen.reclaimLive, recvGenScoped := f.recvGenScoped.reclaimLive }
  else { f with recvGen := .empty, recvGenScoped := .empty }

/-- The smallest growth tier from `cap` on that holds the entries retained, up to the
ceiling. A cap is never zero here: the default is not, and a ceiling override is not. -/
def growthTier (preserved maxCap cap : ℕ) : ℕ :=
  if 0 < cap ∧ cap < preserved ∧ cap < maxCap then growthTier preserved maxCap (min (cap * 2) maxCap) else cap
  termination_by maxCap - cap

/-- The cap after a reset that keeps that many entries. -/
def Caps.reclaimed (c : Caps) (preserved : ℕ) : Caps :=
  let cap := growthTier preserved c.maxCap (min genGuardMapDefaultCap c.maxCap)
  if cap = genGuardMapDefaultCap ∧ genGuardMapDefaultCap ≤ c.maxCap then { c with recvGenGuardCap := 0 }
  else { c with recvGenGuardCap := cap }

variable {K₄ K₆ : Type} [DecidableEq K₄] [DecidableEq K₆]

/-- The receiver: both address families under one capacity. -/
structure Receiver (K₄ K₆ : Type) [DecidableEq K₄] [DecidableEq K₆] where
  v4 : Family K₄
  v6 : Family K₆
  caps : Caps

/-- The most entries any of the four maps holds. -/
def Receiver.largest (r : Receiver K₄ K₆) : ℕ :=
  max (max r.v4.recvGen.gens.keys.length r.v6.recvGen.gens.keys.length)
    (max r.v4.recvGenScoped.space.gens.keys.length r.v6.recvGenScoped.space.gens.keys.length)

/-- Reset the session generations: all of them, or all but the tombstones. -/
def resetRecvSessionGen (r : Receiver K₄ K₆) (preserve : Bool) : Receiver K₄ K₆ :=
  let kept : Receiver K₄ K₆ := { r with v4 := r.v4.reset preserve, v6 := r.v6.reset preserve }
  { kept with caps := if preserve then r.caps.reclaimed kept.largest else { r.caps with recvGenGuardCap := 0 } }

/-- What can happen to the receiver. `grow` stands for the growth that the maps beside the
generations ask for on the same cap. -/
inductive Event (K₄ K₆ : Type) where
  | v4 (op : Op K₄)
  | v6 (op : Op K₆)
  | reset (preserve : Bool)
  | setGenGuardSessionCap (sessions : ℕ)
  | grow

def Receiver.step (r : Receiver K₄ K₆) : Event K₄ K₆ → Receiver K₄ K₆
  | .v4 op =>
    let (caps, v4, _) := op.apply r.caps r.v4
    { r with v4, caps }
  | .v6 op =>
    let (caps, v6, _) := op.apply r.caps r.v6
    { r with v6, caps }
  | .reset preserve => resetRecvSessionGen r preserve
  | .setGenGuardSessionCap sessions => { r with caps := r.caps.setGenGuardSessionCap sessions }
  | .grow => { r with caps := r.caps.growRecvCap.1 }

/-- A receiver that has seen nothing, whatever its capacity. -/
def Receiver.fresh (caps : Caps) : Receiver K₄ K₆ := ⟨.empty, .empty, caps⟩

end Xpf.GenGuard
