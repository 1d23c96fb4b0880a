/-
PPTP call associations: `userspace-dp/src/session/pptp.rs`.

The two directions of a call carry different call ids, each the one that the destination
allocated, so a packet is resolved through a table of calls learned from the control channel:
an index from the allocator and its call id to a handle, and the record behind the handle.
The handle is derived from the call, for two nodes to agree on it. A record leaves the table
when it is idle, when its control channel closes or when its call is disconnected; the
notices carry a time, and one from before the call was learned is too late.
-/
import Mathlib.Data.Nat.Bitwise
import Xpf.AliasIndex
import Xpf.Runs
import Xpf.SessionKeys

set_option autoImplicit false

namespace Xpf.Pptp

open Xpf.Aliases Xpf.Runs Xpf.Tables
open Xpf.Sessions (IpAddr)

/-! ## Addresses -/

/-- The place of an address in the order of addresses: IPv4 comes before IPv6. -/
def rank : IpAddr → ℕ
  | .v4 a => a.toNat
  | .v6 a => 2 ^ 32 + a.toNat

/-- The order of pairs of an address and a call id or port. -/
def pairLe (a : IpAddr) (x : BitVec 16) (b : IpAddr) (y : BitVec 16) : Bool :=
  rank a < rank b || (a = b && x ≤ y)

theorem rank_inj {a b : IpAddr} (h : rank a = rank b) : a = b := by
  cases a with
  | v4 a =>
    cases b with
    | v4 b => exact congrArg _ (BitVec.eq_of_toNat_eq h)
    | v6 b =>
      have ha := a.isLt
      simp only [rank] at h
      omega
  | v6 a =>
    cases b with
    | v4 b =>
      have hb := b.isLt
      simp only [rank] at h
      omega
    | v6 b =>
      simp only [rank, Nat.add_left_cancel_iff] at h
      exact congrArg _ (BitVec.eq_of_toNat_eq h)

theorem pairLe_iff {a b : IpAddr} {x y : BitVec 16} :
    pairLe a x b y = true ↔ rank a < rank b ∨ a = b ∧ x ≤ y := by
  simp only [pairLe, Bool.or_eq_true, Bool.and_eq_true, decide_eq_true_eq]

theorem pairLe_of_not {a b : IpAddr} {x y : BitVec 16} (h : ¬pairLe a x b y = true) : pairLe b y a x = true := by
  rw [pairLe_iff, not_or] at h
  rw [pairLe_iff]
  rcases Nat.lt_trichotomy (rank a) (rank b) with hlt | heq | hgt
  · exact absurd hlt h.1
  · have hab := rank_inj heq
    refine .inr ⟨hab.symm, ?_⟩
    have hxy : ¬x ≤ y := fun hle => h.2 ⟨hab, hle⟩
    rw [BitVec.le_def] at hxy ⊢
    omega
  · exact .inl hgt

/-! ## Calls -/

/-- `PptpCall`: the two peers, the lower one first, and the call id that each allocated. -/
structure PptpCall where
  routingDomain : UInt32
  lo : IpAddr
  hi : IpAddr
  loCallId : BitVec 16
  hiCallId : BitVec 16
  ordered : pairLe lo loCallId hi hiCallId = true
  deriving DecidableEq

def pptpCallIdsAbsent : BitVec 64 := 0
def pptpCallIdsPresent : BitVec 64 := 1 <<< 32

/-- One step of FNV-1a. -/
def eat (h : UInt32) (b : UInt8) : UInt32 := (h ^^^ b.toUInt32) * 0x01000193

/-- The bytes of a number, the highest first. -/
def beBytes (n x : ℕ) : List UInt8 := ((List.range n).map fun i => UInt8.ofNat (x / 256 ^ i)).reverse

def addrBytes : IpAddr → List UInt8
  | .v4 a => 4 :: beBytes 4 a.toNat
  | .v6 a => 6 :: beBytes 16 a.toNat

namespace PptpCall

/-- The call of two peers and their call ids, in either order. -/
def newInDomain (routingDomain : UInt32) (a : IpAddr) (aCallId : BitVec 16) (b : IpAddr) (bCallId : BitVec 16) : PptpCall :=
  if h : pairLe a aCallId b bCallId = true then ⟨routingDomain, a, b, aCallId, bCallId, h⟩
  else ⟨routingDomain, b, a, bCallId, aCallId, pairLe_of_not h⟩

variable (call : PptpCall)

def permitsDataPeers (src dst : IpAddr) : Bool :=
  (src = call.lo && dst = call.hi) || (src = call.hi && dst = call.lo)

def toWireCallIds : BitVec 64 :=
  pptpCallIdsPresent ||| (call.loCallId.setWidth 64 <<< 16) ||| call.hiCallId.setWidth 64

def fromWireCallIdsInDomain (routingDomain : UInt32) (wire : BitVec 64) (a b : IpAddr) : Option PptpCall :=
  if wire &&& pptpCallIdsPresent = 0 || wire >>> 33 ≠ 0 then none
  else
    let loCallId := ((wire >>> 16) &&& 0xFFFF).setWidth 16
    let hiCallId := (wire &&& 0xFFFF).setWidth 16
    let (lo, hi) := if rank a ≤ rank b then (a, b) else (b, a)
    some (newInDomain routingDomain lo loCallId hi hiCallId)

/-- The handle: FNV-1a over the fields, and never zero. -/
def handle : UInt32 :=
  let h := (beBytes 4 call.routingDomain.toNat ++ addrBytes call.lo ++ addrBytes call.hi
    ++ beBytes 2 call.loCallId.toNat ++ beBytes 2 call.hiCallId.toNat).foldl eat 0x811c9dc5
  if h = 0 then 1 else h

/-- The keys of the index that belong to the call. -/
def aliases : List (UInt32 × IpAddr × BitVec 16) :=
  [(call.routingDomain, call.lo, call.loCallId), (call.routingDomain, call.hi, call.hiCallId)]

end PptpCall

/-- `ControlChannelId`: the lower endpoint first. -/
structure ControlChannelId where
  routingDomain : UInt32
  lo : IpAddr × BitVec 16
  hi : IpAddr × BitVec 16
  deriving DecidableEq

def ControlChannelId.newInDomain (routingDomain : UInt32) (a : IpAddr) (aPort : BitVec 16) (b : IpAddr)
    (bPort : BitVec 16) : ControlChannelId :=
  if pairLe a aPort b bPort then ⟨routingDomain, (a, aPort), (b, bPort)⟩
  else ⟨routingDomain, (b, bPort), (a, aPort)⟩

structure PptpCallDisconnect where
  allocator : IpAddr
  callId : BitVec 16
  control : ControlChannelId
  disconnectedNs : ℕ

structure AssociationRecord where
  call : PptpCall
  control : Option ControlChannelId
  learnedNs : ℕ
  lastSeenNs : ℕ
  deriving DecidableEq

inductive PptpInstallError
  | handleCollision (existing : PptpCall) (handle : UInt32)
  | allocatorCollision (allocator : IpAddr) (callId : BitVec 16) (owner : UInt32)
  deriving DecidableEq

/-! ## The associations -/

/-- `saturating_add` of a 64-bit counter. -/
def saturatingAdd (a b : ℕ) : ℕ := min (a + b) (2 ^ 64 - 1)

structure PptpAssociations where
  byAllocator : Table (UInt32 × IpAddr × BitVec 16) UInt32
  byHandle : Table UInt32 AssociationRecord
  unassociated : ℕ
  expiredIdle : ℕ
  handleCollisions : ℕ
  allocatorCollisions : ℕ

namespace PptpAssociations

def default : PptpAssociations := ⟨∅, ∅, 0, 0, 0, 0⟩

variable (t : PptpAssociations)

/-- The first alias of the call that another handle owns. -/
def takenAlias (call : PptpCall) : Option (IpAddr × BitVec 16 × UInt32) :=
  [(call.lo, call.loCallId), (call.hi, call.hiCallId)].findSome? fun (allocator, callId) =>
    match t.byAllocator.lookup (call.routingDomain, allocator, callId) with
    | some owner => if owner ≠ call.handle then some (allocator, callId, owner) else none
    | none => none

def installWithControl (call : PptpCall) (control : Option ControlChannelId) (nowNs : ℕ) :
    Except PptpInstallError UInt32 × PptpAssociations :=
  match t.byHandle.lookup call.handle with
  | some existing =>
    if existing.call = call then
      -- only a learn on a control channel restarts the clock of the fences
      let record : AssociationRecord :=
        { existing with
          control := control.or existing.control
          learnedNs := if control.isSome then nowNs else existing.learnedNs
          lastSeenNs := nowNs }
      (.ok call.handle, { t with byHandle := t.byHandle.insert call.handle record })
    else
      (.error (.handleCollision existing.call call.handle),
        { t with handleCollisions := saturatingAdd t.handleCollisions 1 })
  | none =>
    match t.takenAlias call with
    | some (allocator, callId, owner) =>
      (.error (.allocatorCollision allocator callId owner),
        { t with allocatorCollisions := saturatingAdd t.allocatorCollisions 1 })
    | none =>
      (.ok call.handle,
        { t with
          byHandle := t.byHandle.insert call.handle ⟨call, control, nowNs, nowNs⟩
          byAllocator := (t.byAllocator.insert (call.routingDomain, call.lo, call.loCallId) call.handle).insert
            (call.routingDomain, call.hi, call.hiCallId) call.handle })

def install (call : PptpCall) (control : ControlChannelId) (nowNs : ℕ) : Except PptpInstallError UInt32 × PptpAssociations :=
  t.installWithControl call (some control) nowNs

def installSyncedAssociation (call : PptpCall) (nowNs : ℕ) : Except PptpInstallError UInt32 × PptpAssociations :=
  t.installWithControl call none nowNs

def resolveInDomain (routingDomain : UInt32) (dst : IpAddr) (callId : BitVec 16) : Option UInt32 :=
  t.byAllocator.lookup (routingDomain, dst, callId)

def resolveAndTouchInDomain (routingDomain : UInt32) (src dst : IpAddr) (callId : BitVec 16) (nowNs : ℕ) :
    Option UInt32 × PptpAssociations :=
  match t.byAllocator.lookup (routingDomain, dst, callId) with
  | none => (none, t)
  | some handle =>
    match t.byHandle.lookup handle with
    | none => (none, t)
    | some record =>
      if !record.call.permitsDataPeers src dst then (none, t)
      else (some handle, { t with byHandle := t.byHandle.insert handle { record with lastSeenNs := nowNs } })

def remove (handle : UInt32) : Bool × PptpAssociations :=
  match t.byHandle.lookup handle with
  | none => (false, t)
  | some record =>
    (true,
      { t with
        byHandle := t.byHandle.erase handle
        byAllocator := (t.byAllocator.erase (record.call.routingDomain, record.call.lo, record.call.loCallId)).erase
          (record.call.routingDomain, record.call.hi, record.call.hiCallId) })

/-- The handles of the records that meet a condition. -/
def handlesWhere (p : AssociationRecord → Bool) : List UInt32 :=
  (t.byHandle.entries.filter fun e => p e.2).map (·.1)

def removeAll (handles : List UInt32) : PptpAssociations := handles.foldl (fun t handle => (t.remove handle).2) t

def expireIdle (nowNs timeoutNs : ℕ) : ℕ × PptpAssociations :=
  let stale := t.handlesWhere fun record => nowNs - record.lastSeenNs > timeoutNs
  let t := t.removeAll stale
  (stale.length, { t with expiredIdle := saturatingAdd t.expiredIdle stale.length })

def forgetControlChannel (control : ControlChannelId) : ℕ × PptpAssociations :=
  let doomed := t.handlesWhere fun record => record.control = some control
  (doomed.length, t.removeAll doomed)

def forgetControlChannelLearnedBy (control : ControlChannelId) (closedNs : ℕ) : ℕ × PptpAssociations :=
  let doomed := t.handlesWhere fun record => record.control = some control && record.learnedNs ≤ closedNs
  (doomed.length, t.removeAll doomed)

def forgetCallDisconnectedBy (d : PptpCallDisconnect) : Bool × PptpAssociations :=
  match t.byAllocator.lookup (d.control.routingDomain, d.allocator, d.callId) with
  | none => (false, t)
  | some handle =>
    match t.byHandle.lookup handle with
    | none => (false, t)
    | some record =>
      if record.control = some d.control && record.learnedNs ≤ d.disconnectedNs then t.remove handle else (false, t)

def noteUnassociated : PptpAssociations := { t with unassociated := saturatingAdd t.unassociated 1 }

end PptpAssociations

open PptpAssociations

inductive Event
  | install (call : PptpCall) (control : ControlChannelId) (nowNs : ℕ)
  | installSynced (call : PptpCall) (nowNs : ℕ)
  | resolveAndTouch (routingDomain : UInt32) (src dst : IpAddr) (callId : BitVec 16) (nowNs : ℕ)
  | noteUnassociated
  | expireIdle (nowNs timeoutNs : ℕ)
  | forgetControlChannel (control : ControlChannelId)
  | forgetControlChannelLearnedBy (control : ControlChannelId) (closedNs : ℕ)
  | forgetCallDisconnectedBy (d : PptpCallDisconnect)
  | remove (handle : UInt32)

def step (t : PptpAssociations) : Event → PptpAssociations
  | .install call control nowNs => (t.install call control nowNs).2
  | .installSynced call nowNs => (t.installSyncedAssociation call nowNs).2
  | .resolveAndTouch routingDomain src dst callId nowNs => (t.resolveAndTouchInDomain routingDomain src dst callId nowNs).2
  | .noteUnassociated => t.noteUnassociated
  | .expireIdle nowNs timeoutNs => (t.expireIdle nowNs timeoutNs).2
  | .forgetControlChannel control => (t.forgetControlChannel control).2
  | .forgetControlChannelLearnedBy control closedNs => (t.forgetControlChannelLearnedBy control closedNs).2
  | .forgetCallDisconnectedBy d => (t.forgetCallDisconnectedBy d).2
  | .remove handle => (t.remove handle).2

/-- The associations after what they have gone through. -/
def after (events : List Event) : PptpAssociations := run step default events

/-! ## The index and the records agree -/

section

variable {t : PptpAssociations} {handle : UInt32} {record : AssociationRecord}

/-- The index has exactly the aliases of the live calls, and a call is under its own handle. -/
structure Consistent (t : PptpAssociations) : Prop where
  index : Exact (fun record : AssociationRecord => record.call.aliases) t.byAllocator t.byHandle
  derived : ∀ handle record, t.byHandle.lookup handle = some record → record.call.handle = handle

theorem consistent_default : Consistent default := by
  refine ⟨exact_empty _, ?_⟩
  intro handle record hlookup
  cases hlookup

/-- A record changed in all but its call. -/
theorem Consistent.rewrite (h : Consistent t) {old : AssociationRecord} (hold : t.byHandle.lookup handle = some old)
    (hcall : record.call = old.call) : Consistent { t with byHandle := t.byHandle.insert handle record } := by
  refine ⟨h.index.rewrite hold (by rw [hcall]), ?_⟩
  intro handle' record' hlookup
  by_cases hsame : handle' = handle
  · subst hsame
    rw [AList.lookup_insert, Option.some.injEq] at hlookup
    rw [← hlookup, hcall]
    exact h.derived _ _ hold
  · rw [AList.lookup_insert_ne hsame] at hlookup
    exact h.derived _ _ hlookup

theorem Consistent.remove (h : Consistent t) (handle : UInt32) : Consistent (t.remove handle).2 := by
  rw [PptpAssociations.remove]
  split
  · exact h
  · next record hrecord =>
    refine ⟨h.index.forget hrecord, ?_⟩
    intro handle' record' hlookup
    by_cases hsame : handle' = handle
    · rw [hsame, AList.lookup_erase] at hlookup
      cases hlookup
    · rw [AList.lookup_erase_ne hsame] at hlookup
      exact h.derived _ _ hlookup

theorem Consistent.removeAll (h : Consistent t) (handles : List UInt32) : Consistent (t.removeAll handles) := by
  induction handles generalizing t with
  | nil => exact h
  | cons handle handles ih => exact ih (h.remove handle)

/-- The four outcomes of an install. -/
theorem installWithControl_cases (t : PptpAssociations) (call : PptpCall) (control : Option ControlChannelId)
    (nowNs : ℕ) :
    (∃ existing, t.byHandle.lookup call.handle = some existing ∧ existing.call = call
        ∧ t.installWithControl call control nowNs = (.ok call.handle, { t with
          byHandle := t.byHandle.insert call.handle { existing with
            control := control.or existing.control
            learnedNs := if control.isSome then nowNs else existing.learnedNs
            lastSeenNs := nowNs } }))
      ∨ (∃ err, (∃ n, t.installWithControl call control nowNs = (.error err, { t with handleCollisions := n }))
        ∨ ∃ n, t.installWithControl call control nowNs = (.error err, { t with allocatorCollisions := n }))
      ∨ (t.byHandle.lookup call.handle = none ∧ t.takenAlias call = none
        ∧ t.installWithControl call control nowNs = (.ok call.handle, { t with
          byHandle := t.byHandle.insert call.handle ⟨call, control, nowNs, nowNs⟩
          byAllocator := indexAll t.byAllocator call.aliases call.handle })) := by
  cases hlookup : t.byHandle.lookup call.handle with
  | some existing =>
    by_cases hcall : existing.call = call
    · refine .inl ⟨existing, rfl, hcall, ?_⟩
      simp only [installWithControl, hlookup, if_pos hcall]
    · refine .inr (.inl ⟨.handleCollision existing.call call.handle, .inl ⟨saturatingAdd t.handleCollisions 1, ?_⟩⟩)
      simp only [installWithControl, hlookup, if_neg hcall]
  | none =>
    cases htaken : t.takenAlias call with
    | some taken =>
      obtain ⟨allocator, callId, owner⟩ := taken
      refine .inr (.inl ⟨.allocatorCollision allocator callId owner, .inr ⟨saturatingAdd t.allocatorCollisions 1, ?_⟩⟩)
      simp only [installWithControl, hlookup, htaken]
    | none =>
      refine .inr (.inr ⟨rfl, rfl, ?_⟩)
      simp only [installWithControl, hlookup, htaken]
      rfl

/-- With no alias taken and no record under the handle, the index has none of the aliases. -/
theorem Consistent.untaken (h : Consistent t) {call : PptpCall} (hfree : t.byHandle.lookup call.handle = none)
    (htaken : t.takenAlias call = none) {k : UInt32 × IpAddr × BitVec 16} (hk : k ∈ call.aliases) :
    t.byAllocator.lookup k = none := by
  cases hlookup : t.byAllocator.lookup k with
  | none => rfl
  | some owner =>
    exfalso
    obtain ⟨record, hrecord, -⟩ := (h.index k owner).mp hlookup
    have hother : owner ≠ call.handle := by
      rintro rfl
      rw [hfree] at hrecord
      cases hrecord
    rw [takenAlias, List.findSome?_eq_none_iff] at htaken
    simp only [PptpCall.aliases, List.mem_cons, List.not_mem_nil, or_false] at hk
    rcases hk with rfl | rfl
    · have hnone := htaken (call.lo, call.loCallId) List.mem_cons_self
      simp only [hlookup, if_pos hother] at hnone
      cases hnone
    · have hnone := htaken (call.hi, call.hiCallId) (List.mem_cons_of_mem _ List.mem_cons_self)
      simp only [hlookup, if_pos hother] at hnone
      cases hnone

theorem Consistent.installWithControl (h : Consistent t) (call : PptpCall) (control : Option ControlChannelId)
    (nowNs : ℕ) : Consistent (t.installWithControl call control nowNs).2 := by
  rcases installWithControl_cases t call control nowNs with
    ⟨existing, hexisting, -, hres⟩ | ⟨err, ⟨n, hres⟩ | ⟨n, hres⟩⟩ | ⟨hfree, htaken, hres⟩
  · rw [hres]
    exact h.rewrite hexisting rfl
  · rw [hres]
    exact ⟨h.index, h.derived⟩
  · rw [hres]
    exact ⟨h.index, h.derived⟩
  · rw [hres]
    refine ⟨?_, ?_⟩
    · exact h.index.store (r := ⟨call, control, nowNs, nowNs⟩) hfree fun k hk => h.untaken hfree htaken hk
    · intro handle' record' hlookup
      by_cases hsame : handle' = call.handle
      · subst hsame
        rw [AList.lookup_insert, Option.some.injEq] at hlookup
        rw [← hlookup]
      · rw [AList.lookup_insert_ne hsame] at hlookup
        exact h.derived _ _ hlookup

/-- A lookup finds the record and refreshes it, or changes nothing. -/
theorem resolveAndTouch_cases (t : PptpAssociations) (routingDomain : UInt32) (src dst : IpAddr) (callId : BitVec 16)
    (nowNs : ℕ) :
    (∃ handle record, t.byAllocator.lookup (routingDomain, dst, callId) = some handle
        ∧ t.byHandle.lookup handle = some record ∧ record.call.permitsDataPeers src dst = true
        ∧ t.resolveAndTouchInDomain routingDomain src dst callId nowNs
          = (some handle, { t with byHandle := t.byHandle.insert handle { record with lastSeenNs := nowNs } }))
      ∨ t.resolveAndTouchInDomain routingDomain src dst callId nowNs = (none, t) := by
  rw [resolveAndTouchInDomain]
  split
  · exact .inr rfl
  · next handle hhandle =>
    split
    · exact .inr rfl
    · next record hrecord =>
      by_cases hpermits : record.call.permitsDataPeers src dst = true
      · refine .inl ⟨handle, record, hhandle, hrecord, hpermits, ?_⟩
        rw [hpermits, Bool.not_true, if_neg Bool.false_ne_true]
      · refine .inr ?_
        rw [Bool.not_eq_true] at hpermits
        rw [hpermits, Bool.not_false, if_pos rfl]

theorem Consistent.step (h : Consistent t) (event : Event) : Consistent (step t event) := by
  cases event with
  | install call control nowNs => exact h.installWithControl call _ nowNs
  | installSynced call nowNs => exact h.installWithControl call _ nowNs
  | resolveAndTouch routingDomain src dst callId nowNs =>
    rw [Pptp.step]
    rcases resolveAndTouch_cases t routingDomain src dst callId nowNs with ⟨handle, record, -, hrecord, -, hres⟩ | hres
    · rw [hres]
      exact h.rewrite hrecord rfl
    · rw [hres]
      exact h
  | noteUnassociated => exact ⟨h.index, h.derived⟩
  | expireIdle nowNs timeoutNs =>
    have hall := h.removeAll (t.handlesWhere fun record => nowNs - record.lastSeenNs > timeoutNs)
    exact ⟨hall.index, hall.derived⟩
  | forgetControlChannel control => exact h.removeAll _
  | forgetControlChannelLearnedBy control closedNs => exact h.removeAll _
  | forgetCallDisconnectedBy d =>
    rw [Pptp.step, forgetCallDisconnectedBy]
    split
    · exact h
    · split
      · exact h
      · split
        · exact h.remove _
        · exact h
  | remove handle => exact h.remove handle

theorem consistent_after (events : List Event) : Consistent (after events) :=
  run_invariant consistent_default (fun _ event h => h.step event) events

end

/-! ## The call ids on the wire -/

theorem rank_le_of_ordered (call : PptpCall) : rank call.lo ≤ rank call.hi := by
  rcases pairLe_iff.mp call.ordered with hlt | ⟨heq, -⟩
  · exact Nat.le_of_lt hlt
  · rw [heq]

theorem newInDomain_of_ordered (call : PptpCall) :
    PptpCall.newInDomain call.routingDomain call.lo call.loCallId call.hi call.hiCallId = call := by
  rw [PptpCall.newInDomain, dif_pos call.ordered]

theorem toNat_toWireCallIds (call : PptpCall) :
    call.toWireCallIds.toNat = 2 ^ 32 + call.loCallId.toNat * 2 ^ 16 + call.hiCallId.toNat := by
  have hlo := call.loCallId.isLt
  have hhi := call.hiCallId.isLt
  have hpresent : pptpCallIdsPresent.toNat = 1 <<< 32 := rfl
  rw [PptpCall.toWireCallIds, BitVec.toNat_or, BitVec.toNat_or, BitVec.toNat_shiftLeft, BitVec.toNat_setWidth,
    BitVec.toNat_setWidth, Nat.mod_eq_of_lt (show call.loCallId.toNat < 2 ^ 64 by omega),
    Nat.mod_eq_of_lt (show call.hiCallId.toNat < 2 ^ 64 by omega), Nat.shiftLeft_eq call.loCallId.toNat,
    Nat.mod_eq_of_lt (show call.loCallId.toNat * 2 ^ 16 < 2 ^ 64 by omega), hpresent,
    ← Nat.shiftLeft_add_eq_or_of_lt (show call.loCallId.toNat * 2 ^ 16 < 2 ^ 32 by omega),
    show 1 <<< 32 + call.loCallId.toNat * 2 ^ 16 = (2 ^ 16 + call.loCallId.toNat) <<< 16 by
      rw [Nat.shiftLeft_eq, Nat.shiftLeft_eq]; omega,
    ← Nat.shiftLeft_add_eq_or_of_lt hhi, Nat.shiftLeft_eq]
  omega

/-- The pair of call ids is read back as it was written. -/
theorem fromWire_toWire (call : PptpCall) (a b : IpAddr) :
    PptpCall.fromWireCallIdsInDomain call.routingDomain call.toWireCallIds a b
      = some (if rank a ≤ rank b then PptpCall.newInDomain call.routingDomain a call.loCallId b call.hiCallId
          else PptpCall.newInDomain call.routingDomain b call.loCallId a call.hiCallId) := by
  have hlo := call.loCallId.isLt
  have hhi := call.hiCallId.isLt
  have hwire := toNat_toWireCallIds call
  have hpresent : ¬call.toWireCallIds &&& pptpCallIdsPresent = 0 := by
    rw [← BitVec.toNat_inj, BitVec.toNat_and, show pptpCallIdsPresent.toNat = 2 ^ 32 from rfl, Nat.and_two_pow, hwire,
      Nat.add_assoc, Nat.testBit_two_pow_add_eq, Nat.testBit_lt_two_pow (by omega)]
    decide
  have hshort : call.toWireCallIds >>> 33 = 0 := by
    rw [← BitVec.toNat_inj, BitVec.toNat_ushiftRight, hwire, Nat.shiftRight_eq_div_pow]
    exact Nat.div_eq_of_lt (by omega)
  have hloId : ((call.toWireCallIds >>> 16) &&& 0xFFFF).setWidth 16 = call.loCallId := by
    rw [← BitVec.toNat_inj, BitVec.toNat_setWidth, BitVec.toNat_and, BitVec.toNat_ushiftRight, hwire,
      show (0xFFFF : BitVec 64).toNat = 2 ^ 16 - 1 from rfl, Nat.and_two_pow_sub_one_eq_mod,
      Nat.shiftRight_eq_div_pow]
    omega
  have hhiId : (call.toWireCallIds &&& 0xFFFF).setWidth 16 = call.hiCallId := by
    rw [← BitVec.toNat_inj, BitVec.toNat_setWidth, BitVec.toNat_and, hwire,
      show (0xFFFF : BitVec 64).toNat = 2 ^ 16 - 1 from rfl, Nat.and_two_pow_sub_one_eq_mod]
    omega
  have hread : ¬(decide (call.toWireCallIds &&& pptpCallIdsPresent = 0) || decide (call.toWireCallIds >>> 33 ≠ 0)) = true := by
    rw [decide_eq_false hpresent, Bool.false_or, decide_eq_true_eq]
    exact fun hne => hne hshort
  rw [PptpCall.fromWireCallIdsInDomain, if_neg hread, hloId, hhiId]
  dsimp only
  split <;> rfl

/-- From either order of the addresses it is the same call. -/
theorem fromWire_either (call : PptpCall) :
    PptpCall.fromWireCallIdsInDomain call.routingDomain call.toWireCallIds call.lo call.hi = some call
      ∧ PptpCall.fromWireCallIdsInDomain call.routingDomain call.toWireCallIds call.hi call.lo = some call := by
  have hle := rank_le_of_ordered call
  refine ⟨?_, ?_⟩
  · rw [fromWire_toWire, if_pos hle, newInDomain_of_ordered]
  · rw [fromWire_toWire]
    by_cases hge : rank call.hi ≤ rank call.lo
    · -- the two addresses are one
      have hsame := rank_inj (Nat.le_antisymm hle hge)
      have hcall := newInDomain_of_ordered call
      rw [if_pos hge]
      rw [hsame] at hcall ⊢
      rw [hcall]
    · rw [if_neg hge, newInDomain_of_ordered]

/-! ## Lookups -/

section

variable {t : PptpAssociations} {handle : UInt32} {record : AssociationRecord}

theorem permitsDataPeers_iff {call : PptpCall} {src dst : IpAddr} :
    call.permitsDataPeers src dst = true ↔ src = call.lo ∧ dst = call.hi ∨ src = call.hi ∧ dst = call.lo := by
  simp only [PptpCall.permitsDataPeers, Bool.or_eq_true, Bool.and_eq_true, decide_eq_true_eq]

/-- A packet between the peers of a live call, with the call id of its destination. -/
theorem Consistent.resolves (h : Consistent t) (hlive : t.byHandle.lookup handle = some record) {src dst : IpAddr}
    {callId : BitVec 16} (hkey : (record.call.routingDomain, dst, callId) ∈ record.call.aliases)
    (hpeers : record.call.permitsDataPeers src dst = true) (nowNs : ℕ) :
    (t.resolveAndTouchInDomain record.call.routingDomain src dst callId nowNs).1 = some handle := by
  have hindex : t.byAllocator.lookup (record.call.routingDomain, dst, callId) = some handle :=
    h.index.lookup_alias hlive hkey
  simp only [resolveAndTouchInDomain, hindex, hlive, hpeers, Bool.not_true, if_neg Bool.false_ne_true]

/-- Only the peers of a call resolve to it. -/
theorem src_of_resolves (hlive : t.byHandle.lookup handle = some record) {routingDomain : UInt32} {src dst : IpAddr}
    {callId : BitVec 16} {nowNs : ℕ}
    (hres : (t.resolveAndTouchInDomain routingDomain src dst callId nowNs).1 = some handle) :
    src = record.call.lo ∨ src = record.call.hi := by
  rcases resolveAndTouch_cases t routingDomain src dst callId nowNs with
    ⟨handle', record', -, hrecord', hpermits, heq⟩ | heq
  · rw [heq, Option.some.injEq] at hres
    rw [hres, hlive, Option.some.injEq] at hrecord'
    rw [← hrecord', permitsDataPeers_iff] at hpermits
    rcases hpermits with ⟨hsrc, -⟩ | ⟨hsrc, -⟩
    · exact .inl hsrc
    · exact .inr hsrc
  · rw [heq] at hres
    cases hres

/-! ## What removes a record -/

theorem lookup_remove_ne {handle' : UInt32} (hne : handle ≠ handle') :
    (t.remove handle').2.byHandle.lookup handle = t.byHandle.lookup handle := by
  rw [PptpAssociations.remove]
  split
  · rfl
  · exact AList.lookup_erase_ne hne

theorem lookup_remove_same : (t.remove handle).2.byHandle.lookup handle = none := by
  rw [PptpAssociations.remove]
  split
  · next hnone => exact hnone
  · exact AList.lookup_erase _ _

theorem lookup_removeAll_of_not_mem {handles : List UInt32} (h : handle ∉ handles) :
    (t.removeAll handles).byHandle.lookup handle = t.byHandle.lookup handle := by
  induction handles generalizing t with
  | nil => rfl
  | cons handle' handles ih =>
    rw [List.mem_cons, not_or] at h
    exact (ih h.2).trans (lookup_remove_ne h.1)

theorem lookup_remove_of_some {handle' : UInt32}
    (h : (t.remove handle').2.byHandle.lookup handle = some record) : t.byHandle.lookup handle = some record := by
  by_cases hsame : handle = handle'
  · rw [hsame, lookup_remove_same] at h
    cases h
  · rwa [lookup_remove_ne hsame] at h

theorem lookup_removeAll_of_some {handles : List UInt32}
    (h : (t.removeAll handles).byHandle.lookup handle = some record) : t.byHandle.lookup handle = some record := by
  induction handles generalizing t with
  | nil => exact h
  | cons handle' handles ih => exact lookup_remove_of_some (ih h)

/-- A record that does not meet the condition is not among the handles. -/
theorem not_mem_handlesWhere {p : AssociationRecord → Bool} (hlive : t.byHandle.lookup handle = some record)
    (hp : p record = false) : handle ∉ t.handlesWhere p := by
  intro hmem
  obtain ⟨e, he, rfl⟩ := List.mem_map.mp hmem
  obtain ⟨hentry, hpe⟩ := List.mem_filter.mp he
  have hlookup : t.byHandle.lookup e.1 = some e.2 := AList.mem_lookup_iff.mpr hentry
  rw [hlive, Option.some.injEq] at hlookup
  rw [← hlookup, hp] at hpe
  cases hpe

/-- A close from before the call was learned leaves its record. -/
theorem forgetControlChannelLearnedBy_late (hlive : t.byHandle.lookup handle = some record)
    (control : ControlChannelId) {closedNs : ℕ} (hlate : closedNs < record.learnedNs) :
    (t.forgetControlChannelLearnedBy control closedNs).2.byHandle.lookup handle = some record := by
  rw [forgetControlChannelLearnedBy, lookup_removeAll_of_not_mem, hlive]
  apply not_mem_handlesWhere hlive
  rw [decide_eq_false (Nat.not_le.mpr hlate), Bool.and_false]

/-- So does a disconnect notice. -/
theorem forgetCallDisconnectedBy_late (hlive : t.byHandle.lookup handle = some record) {d : PptpCallDisconnect}
    (hlate : d.disconnectedNs < record.learnedNs) :
    (t.forgetCallDisconnectedBy d).2.byHandle.lookup handle = some record := by
  rw [forgetCallDisconnectedBy]
  split
  · exact hlive
  · next handle' _ =>
    split
    · exact hlive
    · next record' hrecord' =>
      split
      · next hmatches =>
        have hne : handle ≠ handle' := by
          intro heq
          rw [← heq, hlive, Option.some.injEq] at hrecord'
          rw [Bool.and_eq_true, decide_eq_true_eq, decide_eq_true_eq, ← hrecord'] at hmatches
          omega
        rw [lookup_remove_ne hne, hlive]
      · exact hlive

end

/-! ## When a call was learned -/

section

variable {t : PptpAssociations} {handle : UInt32} {record record' : AssociationRecord}

/-- An install of another call, or one that was not learned here, leaves the time. -/
theorem learnedNs_installWithControl (hlive : t.byHandle.lookup handle = some record) {call : PptpCall}
    {control : Option ControlChannelId} {nowNs : ℕ} (hother : record.call = call → control = none)
    (hlive' : (t.installWithControl call control nowNs).2.byHandle.lookup handle = some record') :
    record'.call = record.call ∧ record'.learnedNs = record.learnedNs := by
  rcases installWithControl_cases t call control nowNs with
    ⟨existing, hexisting, hcall, hres⟩ | ⟨err, ⟨n, hres⟩ | ⟨n, hres⟩⟩ | ⟨hfree, -, hres⟩
  · rw [hres] at hlive'
    by_cases hsame : handle = call.handle
    · rw [hsame, AList.lookup_insert, Option.some.injEq] at hlive'
      rw [hsame, hexisting, Option.some.injEq] at hlive
      rw [← hlive', ← hlive, hother (hlive ▸ hcall)]
      exact ⟨rfl, rfl⟩
    · rw [AList.lookup_insert_ne hsame, hlive, Option.some.injEq] at hlive'
      rw [hlive']
      exact ⟨rfl, rfl⟩
  · rw [hres, hlive, Option.some.injEq] at hlive'
    rw [hlive']
    exact ⟨rfl, rfl⟩
  · rw [hres, hlive, Option.some.injEq] at hlive'
    rw [hlive']
    exact ⟨rfl, rfl⟩
  · rw [hres] at hlive'
    have hne : handle ≠ call.handle := by
      rintro rfl
      rw [hlive] at hfree
      cases hfree
    rw [AList.lookup_insert_ne hne, hlive, Option.some.injEq] at hlive'
    rw [hlive']
    exact ⟨rfl, rfl⟩

/-- A step keeps the time at which a call was learned, for as long as the call is live and is
not learned again. -/
theorem learnedNs_step (hlive : t.byHandle.lookup handle = some record) {event : Event}
    (hother : ∀ control nowNs, event ≠ .install record.call control nowNs)
    (hlive' : (step t event).byHandle.lookup handle = some record') :
    record'.call = record.call ∧ record'.learnedNs = record.learnedNs := by
  have hkept : t.byHandle.lookup handle = some record' →
      record'.call = record.call ∧ record'.learnedNs = record.learnedNs := by
    intro hsame
    rw [hlive, Option.some.injEq] at hsame
    rw [hsame]
    exact ⟨rfl, rfl⟩
  cases event with
  | install call control nowNs =>
    refine learnedNs_installWithControl hlive (fun heq => ?_) hlive'
    exact absurd (by rw [heq]) (hother control nowNs)
  | installSynced call nowNs => exact learnedNs_installWithControl hlive (fun _ => rfl) hlive'
  | resolveAndTouch routingDomain src dst callId nowNs =>
    rw [step] at hlive'
    rcases resolveAndTouch_cases t routingDomain src dst callId nowNs with ⟨touched, old, -, hold, -, hres⟩ | hres
    · rw [hres] at hlive'
      by_cases hsame : handle = touched
      · rw [hsame, AList.lookup_insert, Option.some.injEq] at hlive'
        rw [hsame, hold, Option.some.injEq] at hlive
        rw [← hlive', ← hlive]
        exact ⟨rfl, rfl⟩
      · rw [AList.lookup_insert_ne hsame] at hlive'
        exact hkept hlive'
    · rw [hres] at hlive'
      exact hkept hlive'
  | noteUnassociated => exact hkept hlive'
  | expireIdle nowNs timeoutNs => exact hkept (lookup_removeAll_of_some hlive')
  | forgetControlChannel control => exact hkept (lookup_removeAll_of_some hlive')
  | forgetControlChannelLearnedBy control closedNs => exact hkept (lookup_removeAll_of_some hlive')
  | forgetCallDisconnectedBy d =>
    rw [step, forgetCallDisconnectedBy] at hlive'
    split at hlive'
    · exact hkept hlive'
    · split at hlive'
      · exact hkept hlive'
      · split at hlive'
        · exact hkept (lookup_remove_of_some hlive')
        · exact hkept hlive'
  | remove handle => exact hkept (lookup_remove_of_some hlive')

/-- A call learned on a control channel has the time of the learn. -/
theorem learnedNs_install {call : PptpCall} {control : ControlChannelId} {nowNs : ℕ}
    (hok : (t.install call control nowNs).1 = .ok handle) :
    ∃ record, (t.install call control nowNs).2.byHandle.lookup handle = some record ∧ record.call = call
      ∧ record.learnedNs = nowNs := by
  rw [install] at hok ⊢
  rcases installWithControl_cases t call (some control) nowNs with
    ⟨existing, -, hcall, hres⟩ | ⟨err, ⟨n, hres⟩ | ⟨n, hres⟩⟩ | ⟨-, -, hres⟩
  · rw [hres] at hok ⊢
    cases hok
    exact ⟨_, AList.lookup_insert _, hcall, rfl⟩
  · rw [hres] at hok
    cases hok
  · rw [hres] at hok
    cases hok
  · rw [hres] at hok ⊢
    cases hok
    exact ⟨_, AList.lookup_insert _, rfl, rfl⟩

/-- From a learn on, over steps that leave the call live and do not learn it again. -/
theorem learnedNs_run {call : PptpCall} {control : ControlChannelId} {nowNs : ℕ}
    (hok : (t.install call control nowNs).1 = .ok handle) {events : List Event}
    (hkept : EachStep step (t.install call control nowNs).2
      (fun t event => (∀ control nowNs, event ≠ .install call control nowNs)
        ∧ ((step t event).byHandle.lookup handle).isSome) events) :
    ∃ record, (run step (t.install call control nowNs).2 events).byHandle.lookup handle = some record
      ∧ record.call = call ∧ record.learnedNs = nowNs := by
  refine run_invariant_of
    (P := fun t : PptpAssociations => ∃ record, t.byHandle.lookup handle = some record ∧ record.call = call
      ∧ record.learnedNs = nowNs) (learnedNs_install hok) ?_ hkept
  intro t event hstep hrecord
  obtain ⟨hother, hlive'⟩ := hstep
  obtain ⟨record, hlive, hcall, hlearned⟩ := hrecord
  obtain ⟨record', hrecord'⟩ := Option.isSome_iff_exists.mp hlive'
  obtain ⟨hcall', hlearned'⟩ := learnedNs_step hlive (fun c n => hcall ▸ hother c n) hrecord'
  exact ⟨record', hrecord', hcall'.trans hcall, hlearned'.trans hlearned⟩

end

/-- **The associations stay consistent**, whatever they have gone through: the index has exactly
the aliases of the live calls; a refused install leaves the index and the records; both
directions of a live call resolve to its handle, and a packet from a third address does not; the
call ids on the wire make the same call from either order of the addresses; and a close or a
disconnect notice from before a call was last learned leaves it, where the time of the learn is
followed from an install over any steps that leave the call live and do not learn it again. -/
theorem associations_consistent (events : List Event) :
    (∀ k handle, (after events).byAllocator.lookup k = some handle
        ↔ ∃ record, (after events).byHandle.lookup handle = some record ∧ k ∈ record.call.aliases)
      ∧ (∀ call control nowNs err, ((after events).installWithControl call control nowNs).1 = .error err →
        ((after events).installWithControl call control nowNs).2.byAllocator = (after events).byAllocator
          ∧ ((after events).installWithControl call control nowNs).2.byHandle = (after events).byHandle)
      ∧ (∀ handle record, (after events).byHandle.lookup handle = some record →
        (∀ nowNs, ((after events).resolveAndTouchInDomain record.call.routingDomain record.call.lo record.call.hi
              record.call.hiCallId nowNs).1 = some handle
            ∧ ((after events).resolveAndTouchInDomain record.call.routingDomain record.call.hi record.call.lo
              record.call.loCallId nowNs).1 = some handle)
          ∧ (∀ routingDomain src dst callId nowNs, src ≠ record.call.lo → src ≠ record.call.hi →
            ((after events).resolveAndTouchInDomain routingDomain src dst callId nowNs).1 ≠ some handle)
          ∧ (∀ control closedNs, closedNs < record.learnedNs →
            ((after events).forgetControlChannelLearnedBy control closedNs).2.byHandle.lookup handle = some record)
          ∧ ∀ d : PptpCallDisconnect, d.disconnectedNs < record.learnedNs →
            ((after events).forgetCallDisconnectedBy d).2.byHandle.lookup handle = some record)
      ∧ (∀ call : PptpCall,
        PptpCall.fromWireCallIdsInDomain call.routingDomain call.toWireCallIds call.lo call.hi = some call
          ∧ PptpCall.fromWireCallIdsInDomain call.routingDomain call.toWireCallIds call.hi call.lo = some call)
      ∧ ∀ call control nowNs handle later, ((after events).install call control nowNs).1 = .ok handle →
        EachStep step ((after events).install call control nowNs).2
          (fun t event => (∀ control nowNs, event ≠ .install call control nowNs)
            ∧ ((step t event).byHandle.lookup handle).isSome) later →
        ∃ record, (run step ((after events).install call control nowNs).2 later).byHandle.lookup handle = some record
          ∧ record.call = call ∧ record.learnedNs = nowNs := by
  have hc := consistent_after events
  refine ⟨hc.index, ?_, ?_, fromWire_either, fun _ _ _ _ _ hok hkept => learnedNs_run hok hkept⟩
  · intro call control nowNs err herr
    rcases installWithControl_cases (after events) call control nowNs with
      ⟨existing, -, -, hres⟩ | ⟨err', ⟨n, hres⟩ | ⟨n, hres⟩⟩ | ⟨-, -, hres⟩
    · rw [hres] at herr
      cases herr
    · rw [hres]
      exact ⟨rfl, rfl⟩
    · rw [hres]
      exact ⟨rfl, rfl⟩
    · rw [hres] at herr
      cases herr
  · intro handle record hlive
    refine ⟨?_, ?_, ?_, ?_⟩
    · intro nowNs
      refine ⟨hc.resolves hlive ?_ ?_ nowNs, hc.resolves hlive ?_ ?_ nowNs⟩
      · exact List.mem_cons_of_mem _ List.mem_cons_self
      · exact permitsDataPeers_iff.mpr (.inl ⟨rfl, rfl⟩)
      · exact List.mem_cons_self
      · exact permitsDataPeers_iff.mpr (.inr ⟨rfl, rfl⟩)
    · intro routingDomain src dst callId nowNs hlo hhi hres
      rcases src_of_resolves hlive hres with hsrc | hsrc
      · exact hlo hsrc
      · exact hhi hsrc
    · exact fun control closedNs hlate => forgetControlChannelLearnedBy_late hlive control hlate
    · exact fun d hlate => forgetCallDisconnectedBy_late hlive hlate

/-- A call between 10.0.0.1 and 10.0.0.2, learned on its control channel: a packet to the second
peer resolves to it. -/
theorem associations_consistent_learned :
    ((after [.install (.newInDomain 0 (.v4 0x0A000001) 7 (.v4 0x0A000002) 9)
          (.newInDomain 0 (.v4 0x0A000001) 40000 (.v4 0x0A000002) 1723) 5]).resolveAndTouchInDomain 0
        (.v4 0x0A000001) (.v4 0x0A000002) 9 6).1
      = some (PptpCall.newInDomain 0 (.v4 0x0A000001) 7 (.v4 0x0A000002) 9).handle := by
  have hlive : ((after [.install (.newInDomain 0 (.v4 0x0A000001) 7 (.v4 0x0A000002) 9)
      (.newInDomain 0 (.v4 0x0A000001) 40000 (.v4 0x0A000002) 1723) 5]).byHandle.lookup
        (PptpCall.newInDomain 0 (.v4 0x0A000001) 7 (.v4 0x0A000002) 9).handle)
      = some ⟨.newInDomain 0 (.v4 0x0A000001) 7 (.v4 0x0A000002) 9,
        some (.newInDomain 0 (.v4 0x0A000001) 40000 (.v4 0x0A000002) 1723), 5, 5⟩ := by
    decide +kernel
  obtain ⟨-, -, hlookups, -, -⟩ := associations_consistent
    [.install (.newInDomain 0 (.v4 0x0A000001) 7 (.v4 0x0A000002) 9)
      (.newInDomain 0 (.v4 0x0A000001) 40000 (.v4 0x0A000002) 1723) 5]
  exact ((hlookups _ _ hlive).1 6).1

end Xpf.Pptp
